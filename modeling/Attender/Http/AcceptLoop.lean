import Attender.Library.Runs
import Attender.Utility.CallbackWrapper
import Mathlib.Data.List.TakeWhile

/-!
# The accept loop

`http_server::do_accept` and `http_secure_server::do_accept`, with the `start` and
`stop` of `http_basic_server`. The plain server accepts all clients into one
socket, which a client leaves open that `on_accept_` turns down. A socket that
is open takes no other client, so the server serves the clients up to that one
(`accept_loop`). The secure server accepts each into a new one, and is taken to be started
again only when none but handlers of aborted accepts are still to run.
-/

namespace Attender.Http

open Attender.Library Attender.Utility

/-- `boost::asio::error::already_open`: a socket that is open takes no other connection. -/
def alreadyOpen : ErrorCode := .other 1

/-- `http_server` and `http_secure_server`. -/
inductive ServerKind where
  | plain
  | secure
  deriving DecidableEq

/-- An `async_accept` that is over, with its handler still to run. -/
inductive Accepted (ν : Type) where
  /-- A client has connected. -/
  | client (peer : ν)
  | failed (ec : ErrorCode)
  deriving DecidableEq

/-- The handler does something. It returns at once when the `async_accept` has been aborted. -/
def Accepted.counts {ν : Type} : Accepted ν → Bool
  | .failed .operationAborted => false
  | .client _ | .failed _ => true

/-- A server that accepts clients. -/
structure Acceptor (ν : Type) where
  /-- `acceptor_.is_open()`. -/
  isOpen : Bool := false
  /-- `socket_` is open. -/
  occupied : Bool := false
  /-- How many `async_accept` wait for a client. -/
  waiting : Nat := 0
  /-- Those that are over, the oldest first. -/
  completions : List (Accepted ν) := []
  /-- The clients of those whose handler has run, and whether the server has wanted them. -/
  given : List (ν × Bool) := []
  /-- The connections that have been made. -/
  connections : List ν := []
  /-- What `on_error_` has been called with. -/
  errors : List ErrorCode := []

/-- What can happen. -/
inductive AcceptorOp (ν : Type) where
  | start
  | stop
  /-- A client connects. -/
  | connect (peer : ν)
  /-- An `async_accept` fails. -/
  | fail (ec : ErrorCode)
  /-- The oldest handler runs, and `on_accept_` answers it. -/
  | handle (wanted : Bool)

namespace Acceptor

variable {ν : Type} (kind : ServerKind) (s : Acceptor ν)

/-- `do_accept`. The secure server has a new socket. -/
def doAccept : Acceptor ν :=
  let s := if kind = .secure then { s with occupied := false } else s
  if s.occupied then { s with completions := s.completions ++ [.failed alreadyOpen] }
  else { s with waiting := s.waiting + 1 }

/-- `acceptor_.close()`: what waits is aborted. -/
def close : Acceptor ν :=
  { s with
    isOpen := false
    waiting := 0
    completions := s.completions ++ List.replicate s.waiting (.failed .operationAborted) }

/-- `http_basic_server::start`. -/
def start : Acceptor ν := doAccept kind { s.close with isOpen := true }

/-- The handler, with an error. -/
def onError (ec : ErrorCode) : Acceptor ν :=
  if ¬ s.isOpen then s else doAccept kind { s with errors := s.errors ++ [ec] }

/-- The handler of `async_accept`. A client is put into the socket before. -/
def onAccept (wanted : Bool) : Accepted ν → Acceptor ν
  | .failed ec => if ec = .operationAborted then s else s.onError kind ec
  | .client peer =>
    if s.occupied then onError kind { s with given := s.given ++ [(peer, false)] } alreadyOpen
    else if ¬ s.isOpen then { s with occupied := true, given := s.given ++ [(peer, false)] }
    else if wanted then
      -- the socket is moved into the connection
      doAccept kind
        { s with given := s.given ++ [(peer, true)], connections := s.connections ++ [peer] }
    else doAccept kind { s with occupied := true, given := s.given ++ [(peer, false)] }

/-- How many handlers are still to run that do something. -/
def outstanding : Nat := s.waiting + s.completions.countP Accepted.counts

/-- A step. Two runs of the code are left out. A secure server may be started again while the
handler of an `async_accept` that is over is still to run: `socket_.reset` then frees the socket of
that client, and the handler makes a connection of the new one, which nobody has connected to. A
`start` whose `bind` or `listen` throws leaves the acceptor open without a handler. -/
def step : AcceptorOp ν → Option (Acceptor ν)
  | .start =>
    if kind = .secure ∧ s.completions.countP Accepted.counts ≠ 0 then none else some (s.start kind)
  | .stop => some s.close
  | .connect peer =>
    if s.waiting = 0 then none
    else some { s with
      waiting := s.waiting - 1, completions := s.completions ++ [.client peer] }
  | .fail ec =>
    if s.waiting = 0 ∨ ec = .operationAborted then none
    else some { s with waiting := s.waiting - 1, completions := s.completions ++ [.failed ec] }
  | .handle wanted =>
    match s.completions with
    | [] => none
    | c :: completions => some (onAccept kind { s with completions := completions } wanted c)

end Acceptor

/-- The clients that a server of this kind makes connections for, of those it has been given. -/
def ServerKind.serves {ν : Type} : ServerKind → List (ν × Bool) → List ν
  | .plain, given => (given.takeWhile Prod.snd).map Prod.fst
  | .secure, given => (given.filter Prod.snd).map Prod.fst

section Serves

variable {ν : Type} {given : List (ν × Bool)} {peer : ν}

/-- A client that is not wanted gets no connection. -/
theorem serves_refused (kind : ServerKind) (given : List (ν × Bool)) (peer : ν) :
    kind.serves (given ++ [(peer, false)]) = kind.serves given := by
  cases kind with
  | plain =>
    rw [ServerKind.serves, ServerKind.serves, List.takeWhile_append]
    split_ifs with hall
    · rw [(List.takeWhile_prefix _).eq_of_length hall]
      simp
    · rfl
  | secure => simp [ServerKind.serves]

/-- A client that is wanted gets one, if the plain server has wanted all before. -/
theorem serves_wanted {kind : ServerKind} (h : kind = .plain → ∀ a ∈ given, a.2 = true) (peer : ν) :
    kind.serves (given ++ [(peer, true)]) = kind.serves given ++ [peer] := by
  cases kind with
  | plain =>
    have hall : ∀ a ∈ given ++ [(peer, true)], a.2 = true := by
      rw [List.forall_mem_append, List.forall_mem_singleton]
      exact ⟨h rfl, rfl⟩
    rw [ServerKind.serves, ServerKind.serves, List.takeWhile_eq_self_iff.mpr (h rfl),
      List.takeWhile_eq_self_iff.mpr hall, List.map_append]
    rfl
  | secure => simp [ServerKind.serves]

end Serves

namespace Acceptor

variable {ν : Type} {kind : ServerKind} {s s' : Acceptor ν}

@[simp] theorem given_doAccept : (s.doAccept kind).given = s.given := by
  rw [doAccept]
  split_ifs <;> rfl

@[simp] theorem connections_doAccept : (s.doAccept kind).connections = s.connections := by
  rw [doAccept]
  split_ifs <;> rfl

/-- It goes on with the socket as it is, or with a new one. -/
@[simp] theorem occupied_doAccept :
    (s.doAccept kind).occupied = (s.occupied && kind = .plain) := by
  rw [doAccept]
  cases kind with
  | plain => cases hoccupied : s.occupied <;> simp [hoccupied]
  | secure => simp

/-- In any case a handler will run. -/
@[simp] theorem outstanding_doAccept : (s.doAccept kind).outstanding = s.outstanding + 1 := by
  have hcounts : (Accepted.failed alreadyOpen : Accepted ν).counts = true := rfl
  rw [doAccept]
  split_ifs <;> simp [outstanding, hcounts] <;> omega

theorem outstanding_close : s.close.outstanding = s.completions.countP Accepted.counts := by
  have hcounts : (Accepted.failed .operationAborted : Accepted ν).counts = false := rfl
  simp [outstanding, close, hcounts]

/-- A handler that runs. -/
theorem outstanding_of_cons {c : Accepted ν} {completions : List (Accepted ν)}
    (h : s.completions = c :: completions) :
    s.outstanding = { s with completions := completions }.outstanding +
      if c.counts then 1 else 0 := by
  rw [outstanding, h, List.countP_cons]
  exact (Nat.add_assoc _ _ _).symm

/-- What holds after every run. -/
structure Inv (kind : ServerKind) (s : Acceptor ν) : Prop where
  connections : s.connections = kind.serves s.given
  /-- While the server is open, a handler will run that goes on. -/
  alive : s.isOpen → 0 < s.outstanding
  /-- A client that is not wanted is left in the socket. -/
  plain : kind = .plain → (s.occupied ↔ ∃ a ∈ s.given, a.2 = false)
  /-- At most one `async_accept` refers to the socket, and it is not one that is open. -/
  secure : kind = .secure → s.outstanding ≤ 1 ∧ (s.occupied → s.outstanding = 0)

theorem inv_init : Inv kind ({} : Acceptor ν) where
  connections := by cases kind <;> rfl
  alive h := absurd h Bool.false_ne_true
  plain _ := by simp
  secure _ := ⟨Nat.zero_le 1, fun _ => rfl⟩

/-- What holds before the server goes on to accept. -/
structure Ready (kind : ServerKind) (s : Acceptor ν) : Prop where
  connections : s.connections = kind.serves s.given
  plain : kind = .plain → (s.occupied ↔ ∃ a ∈ s.given, a.2 = false)
  secure : kind = .secure → s.outstanding = 0

/-- It goes on. -/
theorem Ready.doAccept (h : Ready kind s) : Inv kind (s.doAccept kind) where
  connections := by rw [connections_doAccept, given_doAccept, h.connections]
  alive _ := by
    rw [outstanding_doAccept]
    exact Nat.succ_pos _
  plain hkind := by
    rw [occupied_doAccept, given_doAccept, ← h.plain hkind]
    simp [hkind]
  secure hkind := by
    rw [outstanding_doAccept, h.secure hkind, occupied_doAccept]
    exact ⟨le_refl 1, by simp [hkind]⟩

/-- It does not go on once it is closed. -/
theorem Ready.rest (h : Ready kind s) (hclosed : ¬ s.isOpen) : Inv kind s where
  connections := h.connections
  alive hopen := absurd hopen hclosed
  plain := h.plain
  secure hkind := by
    rw [h.secure hkind]
    exact ⟨Nat.zero_le 1, fun _ => rfl⟩

theorem Ready.onError (h : Ready kind s) (ec : ErrorCode) : Inv kind (s.onError kind ec) := by
  rw [Acceptor.onError]
  split_ifs with hopen
  · exact Ready.doAccept ⟨h.connections, h.plain, h.secure⟩
  · exact h.rest hopen

/-- A client that is left in the socket, or thrown out of it. -/
theorem Ready.refuse (h : Ready kind s) (peer : ν) {occupied : Bool} (hoccupied : occupied = true) :
    Ready kind { s with occupied := occupied, given := s.given ++ [(peer, false)] } where
  connections := h.connections.trans (serves_refused kind s.given peer).symm
  plain _ := by
    refine iff_of_true hoccupied ⟨(peer, false), ?_, rfl⟩
    exact List.mem_append_right _ (List.mem_singleton_self _)
  secure := h.secure

/-- A client that a connection is made for. -/
theorem Ready.take (h : Ready kind s) (peer : ν) (hfree : ¬ s.occupied) :
    Ready kind { s with
      given := s.given ++ [(peer, true)], connections := s.connections ++ [peer] } where
  connections := by
    rw [h.connections]
    refine (serves_wanted (fun hkind a ha => ?_) peer).symm
    by_contra hrefused
    exact hfree ((h.plain hkind).mpr ⟨a, ha, Bool.eq_false_iff.mpr hrefused⟩)
  plain hkind := by
    rw [h.plain hkind]
    simp
  secure := h.secure

/-- **The handler** of a client or an error. -/
theorem Ready.onAccept (h : Ready kind s) (wanted : Bool) {c : Accepted ν} (hcounts : c.counts) :
    Inv kind (s.onAccept kind wanted c) := by
  cases c with
  | failed ec =>
    have hec : ec ≠ .operationAborted := by
      rintro rfl
      cases hcounts
    rw [Acceptor.onAccept, if_neg hec]
    exact h.onError ec
  | client peer =>
    rw [Acceptor.onAccept]
    split_ifs with hoccupied hopen hwanted
    · exact (h.refuse peer hoccupied).onError alreadyOpen
    · exact (h.take peer hoccupied).doAccept
    · exact (h.refuse peer rfl).doAccept
    · exact (h.refuse peer rfl).rest hopen

/-- An `async_accept` that is over. -/
theorem Inv.complete (h : Inv kind s) (hwaiting : s.waiting ≠ 0) {c : Accepted ν}
    (hcounts : c.counts) : Inv kind { s with
      waiting := s.waiting - 1, completions := s.completions ++ [c] } := by
  have hsame : outstanding { s with
      waiting := s.waiting - 1, completions := s.completions ++ [c] } = s.outstanding := by
    rw [outstanding, outstanding, List.countP_append, List.countP_singleton, if_pos hcounts]
    dsimp only
    omega
  refine ⟨h.connections, fun hopen => ?_, h.plain, fun hkind => ?_⟩
  · rw [hsame]
    exact h.alive hopen
  · rw [hsame]
    exact h.secure hkind

/-- **A step**. -/
theorem inv_step {op : AcceptorOp ν} (h : Inv kind s) (hstep : s.step kind op = some s') :
    Inv kind s' := by
  cases op with
  | start =>
    rw [step] at hstep
    split_ifs at hstep with hlost
    cases hstep
    have hready : Ready kind { s.close with isOpen := true } := by
      refine ⟨h.connections, h.plain, fun hkind => ?_⟩
      have hnone : s.completions.countP Accepted.counts = 0 := by
        by_contra hsome
        exact hlost ⟨hkind, hsome⟩
      exact outstanding_close.trans hnone
    exact hready.doAccept
  | stop =>
    cases hstep
    refine ⟨h.connections, fun hopen => absurd hopen Bool.false_ne_true, h.plain, fun hkind => ?_⟩
    obtain ⟨hone, hoccupied⟩ := h.secure hkind
    rw [outstanding_close]
    rw [outstanding] at hone hoccupied
    refine ⟨by omega, fun hocc => ?_⟩
    have := hoccupied hocc
    omega
  | connect peer =>
    rw [step] at hstep
    split_ifs at hstep with hnone
    cases hstep
    exact h.complete hnone rfl
  | fail ec =>
    rw [step] at hstep
    split_ifs at hstep with hnone
    cases hstep
    rw [not_or] at hnone
    refine h.complete hnone.1 ?_
    cases ec with
    | operationAborted => exact absurd rfl hnone.2
    | eof | invalidArgument | protocolError | notEnoughMemory | other code => rfl
  | handle wanted =>
    cases hcompletions : s.completions with
    | nil =>
      rw [step, hcompletions] at hstep
      cases hstep
    | cons c completions =>
      rw [step, hcompletions, Option.some.injEq] at hstep
      subst hstep
      have hout := outstanding_of_cons hcompletions
      by_cases hcounts : c.counts
      · rw [if_pos hcounts] at hout
        have hready : Ready kind { s with completions := completions } := by
          refine ⟨h.connections, h.plain, fun hkind => ?_⟩
          have hone := (h.secure hkind).1
          omega
        exact hready.onAccept wanted hcounts
      · -- an `async_accept` that has been aborted: its handler does nothing
        obtain rfl : c = .failed .operationAborted := by
          cases c with
          | client peer => exact absurd rfl hcounts
          | failed ec =>
            cases ec with
            | operationAborted => rfl
            | eof | invalidArgument | protocolError | notEnoughMemory | other code =>
              exact absurd rfl hcounts
        rw [if_neg hcounts, Nat.add_zero] at hout
        rw [onAccept, if_pos rfl]
        refine ⟨h.connections, fun hopen => ?_, h.plain, fun hkind => ?_⟩
        · rw [← hout]
          exact h.alive hopen
        · rw [← hout]
          exact h.secure hkind

/-! ### The connections -/

@[simp] theorem connections_onError (ec : ErrorCode) :
    (s.onError kind ec).connections = s.connections := by
  rw [onError]
  split_ifs
  · rw [connections_doAccept]
  · rfl

/-- A handler makes one connection at most. -/
theorem connections_onAccept (wanted : Bool) (c : Accepted ν) :
    ∃ peers, (s.onAccept kind wanted c).connections = s.connections ++ peers := by
  cases c with
  | failed ec =>
    refine ⟨[], ?_⟩
    rw [onAccept, List.append_nil]
    split_ifs
    · rfl
    · rw [connections_onError]
  | client peer =>
    rw [onAccept]
    split_ifs
    · exact ⟨[], by simp⟩
    · exact ⟨[peer], by simp⟩
    · exact ⟨[], by simp⟩
    · exact ⟨[], by simp⟩

/-- Connections that have been made are not taken back. -/
theorem connections_step {op : AcceptorOp ν} (hstep : s.step kind op = some s') :
    ∃ peers, s'.connections = s.connections ++ peers := by
  cases op with
  | start =>
    rw [step] at hstep
    split_ifs at hstep
    cases hstep
    exact ⟨[], by simp [start, close]⟩
  | stop =>
    cases hstep
    exact ⟨[], by simp [close]⟩
  | connect peer =>
    rw [step] at hstep
    split_ifs at hstep
    cases hstep
    exact ⟨[], by simp⟩
  | fail ec =>
    rw [step] at hstep
    split_ifs at hstep
    cases hstep
    exact ⟨[], by simp⟩
  | handle wanted =>
    cases hcompletions : s.completions with
    | nil =>
      rw [step, hcompletions] at hstep
      cases hstep
    | cons c completions =>
      rw [step, hcompletions, Option.some.injEq] at hstep
      subst hstep
      exact connections_onAccept (s := { s with completions := completions }) wanted c

/-! ### A socket that is left open -/

/-- The plain server does not wait for a client, and a handler runs with an error. -/
theorem doAccept_of_occupied (h : s.occupied) :
    s.doAccept .plain = { s with completions := s.completions ++ [.failed alreadyOpen] } := by
  rw [doAccept]
  exact if_pos h

theorem onError_of_occupied (h : s.occupied) (ec : ErrorCode) :
    (s.onError .plain ec).occupied ∧ (s.onError .plain ec).connections = s.connections ∧
      (s.onError .plain ec).waiting = s.waiting := by
  rw [Acceptor.onError]
  split_ifs with hopen
  · rw [doAccept_of_occupied (s := { s with errors := s.errors ++ [ec] }) h]
    exact ⟨h, rfl, rfl⟩
  · exact ⟨h, rfl, rfl⟩

/-- **Its socket stays open**, and it gets no client out of it. -/
theorem occupied_step {op : AcceptorOp ν} (h : s.occupied) (hstep : s.step .plain op = some s') :
    s'.occupied ∧ s'.connections = s.connections ∧ s'.waiting ≤ s.waiting := by
  cases op with
  | start =>
    rw [step, if_neg fun hlost => absurd hlost.1 (by decide)] at hstep
    cases hstep
    rw [start, doAccept_of_occupied (s := { s.close with isOpen := true }) h]
    exact ⟨h, rfl, Nat.zero_le _⟩
  | stop =>
    cases hstep
    exact ⟨h, rfl, Nat.zero_le _⟩
  | connect peer =>
    rw [step] at hstep
    split_ifs at hstep
    cases hstep
    exact ⟨h, rfl, Nat.sub_le _ 1⟩
  | fail ec =>
    rw [step] at hstep
    split_ifs at hstep
    cases hstep
    exact ⟨h, rfl, Nat.sub_le _ 1⟩
  | handle wanted =>
    cases hcompletions : s.completions with
    | nil =>
      rw [step, hcompletions] at hstep
      cases hstep
    | cons c completions =>
      rw [step, hcompletions, Option.some.injEq] at hstep
      subst hstep
      cases c with
      | failed ec =>
        rw [onAccept]
        split_ifs
        · exact ⟨h, rfl, le_refl _⟩
        · obtain ⟨hocc, hconnections, hwaiting⟩ :=
            onError_of_occupied (s := { s with completions := completions }) h ec
          exact ⟨hocc, hconnections, hwaiting.le⟩
      | client peer =>
        obtain ⟨hocc, hconnections, hwaiting⟩ := onError_of_occupied
          (s := { s with completions := completions, given := s.given ++ [(peer, false)] }) h
          alreadyOpen
        rw [onAccept, if_pos h]
        exact ⟨hocc, hconnections, hwaiting.le⟩

theorem occupied_run {ops : List (AcceptorOp ν)} (h : s.occupied)
    (hrun : run (step .plain) s ops = some s') :
    s'.occupied ∧ s'.connections = s.connections ∧ s'.waiting ≤ s.waiting := by
  induction ops generalizing s with
  | nil =>
    rw [run_nil, Option.some.injEq] at hrun
    subst hrun
    exact ⟨h, rfl, le_refl _⟩
  | cons op ops ih =>
    obtain ⟨s₁, hstep, hrest⟩ := run_cons.mp hrun
    obtain ⟨hocc, hconnections, hwaiting⟩ := occupied_step h hstep
    obtain ⟨hocc', hconnections', hwaiting'⟩ := ih hocc hrest
    exact ⟨hocc', hconnections'.trans hconnections, hwaiting'.trans hwaiting⟩

/-- **The accept loop**: in any run the server has made connections for the clients that it has
wanted, the plain one for those before the first that it has not. While it is open one of its
handlers will run. Once the plain server has not wanted a client it makes no connection any more and
waits for no other client, whether it is started again or not. -/
theorem accept_loop (kind : ServerKind) (ops : List (AcceptorOp ν)) (s : Acceptor ν)
    (hrun : run (step kind) {} ops = some s) :
    s.connections = kind.serves s.given ∧ (s.isOpen → 0 < s.outstanding) ∧
      (kind = .plain → (∃ a ∈ s.given, a.2 = false) → ∀ ops' s',
        run (step kind) s ops' = some s' →
          s'.connections = s.connections ∧ s'.waiting ≤ s.waiting) := by
  have hinv : Inv kind s := run_invariant (A := fun _ => True)
    (fun _ _ _ _ h hstep => inv_step h hstep) (fun _ _ => trivial) inv_init hrun
  refine ⟨hinv.connections, hinv.alive, ?_⟩
  rintro rfl hrefused ops' s' hrun'
  exact (occupied_run ((hinv.plain rfl).mpr hrefused) hrun').2

/-- After the second client is not wanted, no other is served. -/
theorem accept_loop_unwanted : ∃ s : Acceptor Nat,
    run (step .plain) {} [.start, .connect 1, .handle true, .connect 2, .handle false] = some s ∧
      s.connections = [1] ∧ ∀ ops s', run (step .plain) s ops = some s' →
        s'.connections = [1] ∧ s'.waiting ≤ 0 := by
  have h := accept_loop .plain
    [.start, .connect 1, .handle true, .connect 2, .handle false]
    { isOpen := true, occupied := true, completions := [.failed alreadyOpen],
      given := [(1, true), (2, false)], connections := [1] } rfl
  exact ⟨_, rfl, rfl, h.2.2 rfl ⟨(2, false), by decide, rfl⟩⟩

end Acceptor

end Attender.Http
