import Attender.Http.AcceptLoop
import Attender.Http.ConnectionRemoval
import Attender.Library.Families

/-!
# Servers of many connections

`http_server` and `http_secure_server` with all the connections that they have
made. Their steps come in any order, those of the accept loop in between (with
the starts that `Acceptor.step` allows), and no connection notices the others.
When everything is done, `connection_manager` holds the connections whose
handshake has failed, and those with a `HEAD` that nobody has answered, and no
others (`server_connections`).
-/

namespace Attender.Http

open Attender.Library Attender.Utility

/-- A server and the connections that it has made, in their order. -/
structure HttpServer (ν : Type) where
  acceptor : Acceptor ν := {}
  connections : List Connection := []

/-- What happens to a server. -/
inductive HttpServerOp (ν : Type) where
  /-- A step of the accept loop. -/
  | accept (op : AcceptorOp ν)
  /-- A step of the connection of this number. -/
  | connection (i : Nat) (op : ConnectionOp)

/-- The step of the connection `i`. -/
def HttpServerOp.opOf {ν : Type} (i : Nat) : HttpServerOp ν → Option ConnectionOp
  | .accept _ => none
  | .connection j op => if j = i then some op else none

namespace HttpServer

variable {ν : Type}

/-- The connections for the clients that `connections_.create` has been called for in a step of the
accept loop. -/
def made (kind : ServerKind) (acceptor acceptor' : Acceptor ν) : List Connection :=
  (acceptor'.connections.drop acceptor.connections.length).map fun _ =>
    Connection.accept (kind = .secure)

/-- One step. User code has one kind of producer for each response. -/
def step (cfg : Config) (kind : ServerKind) (producers : Nat → ProducerKind) (s : HttpServer ν) :
    HttpServerOp ν → Option (HttpServer ν)
  | .accept op =>
    (s.acceptor.step kind op).map fun acceptor =>
      { acceptor := acceptor, connections := s.connections ++ made kind s.acceptor acceptor }
  | .connection i op =>
    (familyStep (fun i => Connection.step cfg (producers i)) s.connections (.member i op)).map
      fun connections => { s with connections := connections }

/-- `connection_manager::connections_`. -/
def connectionManager (s : HttpServer ν) : List Nat :=
  (List.range s.connections.length).filter fun i => (s.connections[i]?).any Connection.registered

/-- The steps of the connection `i`. -/
def opsOf (i : Nat) (ops : List (HttpServerOp ν)) : List ConnectionOp :=
  ops.filterMap (HttpServerOp.opOf i)

/-- What a step does to the family of the connections. -/
def familyOps (kind : ServerKind) (s : HttpServer ν) :
    HttpServerOp ν → List (FamilyOp Connection ConnectionOp)
  | .accept op =>
    match s.acceptor.step kind op with
    | none => []
    | some acceptor => (made kind s.acceptor acceptor).map .join
  | .connection i op => [.member i op]

end HttpServer

namespace Connection

variable {cfg : Config} {kind : ProducerKind} {c c' : Connection}

/-! ### What is left behind -/

/-- The connection has been left behind, and nothing is pending. -/
structure Abandoned (c : Connection) : Prop where
  handshake : c.handshaking = false
  reads : c.reads = 0
  owed : c.owed = false
  fresh : Fresh c
  chunks : Chunked.Inv c.chunked

/-- A producer to which nobody is attached does not matter. -/
theorem Abandoned.unattached (h : Abandoned c) {chunked : Chunked} (hinv : Chunked.Inv chunked)
    (hphase : chunked.phase = .detached) : Abandoned { c with chunked := chunked } :=
  ⟨h.handshake, h.reads, h.owed,
    ⟨⟨h.fresh.kept.removals, h.fresh.kept.registered⟩, h.fresh.writes, hphase, h.fresh.sent⟩, hinv⟩

/-- It stays so. -/
theorem Abandoned.step {op : ConnectionOp} (h : Abandoned c)
    (hstep : c.step cfg kind op = some c') : Abandoned c' ∧ ¬ LeavesBehind cfg c op := by
  cases op with
  | handshake ec =>
    simp only [Connection.step] at hstep
    rw [if_neg (by rw [h.handshake]; exact Bool.false_ne_true)] at hstep
    cases hstep
  | read ec amount d =>
    simp only [Connection.step] at hstep
    rw [if_neg (by rw [h.reads]; exact Nat.lt_irrefl 0)] at hstep
    cases hstep
  | waited ec passed =>
    simp only [Connection.step] at hstep
    split_ifs at hstep
    cases hstep
    obtain ⟨waits, closed, hcheck⟩ := checkDeadline_cases { c with waits := c.waits - 1 } ec passed
    rw [hcheck]
    refine ⟨⟨h.handshake, h.reads, h.owed, ?_, h.chunks⟩, id⟩
    exact ⟨⟨h.fresh.kept.removals, h.fresh.kept.registered⟩, h.fresh.writes, h.fresh.phase,
      h.fresh.sent⟩
  | respond op =>
    simp only [Connection.step] at hstep
    rw [if_neg (by rw [h.owed]; exact Bool.false_ne_true)] at hstep
    cases hstep
  | readBody max =>
    simp only [Connection.step] at hstep
    rw [if_neg (by rw [h.owed]; exact fun hboth => Bool.false_ne_true hboth.1)] at hstep
    cases hstep
  | written i ec =>
    simp [Connection.step, h.fresh.writes] at hstep
  | chunked op =>
    simp only [Connection.step] at hstep
    split_ifs at hstep with hop
    obtain ⟨chunked, hchunked, rfl⟩ := Option.map_eq_some_iff.mp hstep
    rw [not_or] at hop
    obtain ⟨hconsumer, hflight, -⟩ := h.chunks.of_detached h.fresh.phase
    obtain ⟨-, -, hended, hphase⟩ := Chunked.unattached_stepOf hconsumer hflight hop.1 hchunked
    rw [produce, hended, if_neg (Nat.lt_irrefl _)]
    exact ⟨h.unattached (Chunked.inv_stepOf h.chunks hchunked) (hphase h.fresh.phase), id⟩
  | compressionFails data =>
    simp only [Connection.step] at hstep
    split_ifs at hstep
    cases hstep
    obtain ⟨hconsumer, -⟩ := h.chunks.of_detached h.fresh.phase
    rw [Chunked.productionFailure_of_unattached hconsumer]
    exact ⟨h.unattached (h.chunks.push data) h.fresh.phase, id⟩

/-- A connection whose handshake fails is left behind. -/
theorem Sane.abandoned_of_handshake (h : Sane c) (hhandshake : c.handshaking = true) :
    Abandoned { c with handshaking := false } := by
  cases h.stage with
  | handshake _ hreads howed hf =>
    refine ⟨rfl, hreads, howed, ?_, h.chunks⟩
    exact ⟨⟨hf.kept.removals, hf.kept.registered⟩, hf.writes, hf.phase, hf.sent⟩
  | header hnot => exact absurd (hnot.symm.trans hhandshake) Bool.false_ne_true
  | rejected hnot => exact absurd (hnot.symm.trans hhandshake) Bool.false_ne_true
  | request hreading =>
    exact absurd (hreading.handshake.symm.trans hhandshake) Bool.false_ne_true

/-- So is one with a `HEAD` that is not answered. -/
theorem Sane.abandoned_of_unanswered (h : Sane c) (hpending : 0 < c.reads)
    (hcallback : c.readCallback = .header) {amount : Bytes}
    (hdone : (feed cfg c.request.parser amount).isDone) :
    Abandoned ({ c with reads := c.reads - 1 }.onRead cfg none amount (some .unanswered)) := by
  rw [onRead_header (c := { c with reads := c.reads - 1 }) hcallback, headerReadHandler]
  dsimp only
  cases hfeed : feed cfg c.request.parser amount with
  | waiting parser =>
    rw [hfeed] at hdone
    cases hdone
  | rejected e =>
    rw [hfeed] at hdone
    cases hdone
  | done parser =>
    cases h.stage with
    | handshake _ hreads => omega
    | rejected _ hreads => omega
    | header hhandshake hreads _ howed hf =>
      refine ⟨hhandshake, congrArg (· - 1) hreads, howed, ?_, h.chunks⟩
      exact ⟨⟨hf.kept.removals, hf.kept.registered⟩, hf.writes, hf.phase, hf.sent⟩
    | request hreading =>
      have hbody := hreading.body.resolve_left (by omega)
      rw [hcallback] at hbody
      cases hbody

theorem Sane.abandoned {op : ConnectionOp} (h : Sane c) (hleaves : LeavesBehind cfg c op)
    (hstep : c.step cfg kind op = some c') : Abandoned c' := by
  cases op with
  | handshake ec =>
    cases ec with
    | none => exact absurd rfl hleaves
    | some ec =>
      simp only [Connection.step] at hstep
      split_ifs at hstep with hhandshake
      cases hstep
      exact h.abandoned_of_handshake hhandshake
  | read ec amount d =>
    rcases ec with - | ec
    · rcases d with - | - | op | -
      · exact hleaves.elim
      · exact hleaves.elim
      · exact hleaves.elim
      · simp only [Connection.step] at hstep
        split_ifs at hstep with hpending
        cases hstep
        exact h.abandoned_of_unanswered hpending hleaves.1 hleaves.2
    · exact hleaves.elim
  | waited | respond | readBody | written | chunked | compressionFails => exact hleaves.elim

/-- The steps that are not faulty, and those that leave the connection behind. -/
def Allowed (cfg : Config) (kind : ProducerKind) (c : Connection) (op : ConnectionOp) : Prop :=
  ¬ Faulty cfg kind c op ∨ LeavesBehind cfg c op

/-- One of the steps leaves the connection behind. -/
def LeftBehind (cfg : Config) (kind : ProducerKind) (c : Connection) (ops : List ConnectionOp) :
    Prop :=
  ¬ Along (Connection.step cfg kind) (fun c op => ¬ LeavesBehind cfg c op) c ops

theorem Abandoned.run {ops : List ConnectionOp} (h : Abandoned c)
    (hrun : run (Connection.step cfg kind) c ops = some c') : Abandoned c' :=
  run_invariant (A := fun _ => True) (fun _ _ _ _ h hstep => (h.step hstep).1) (fun _ _ => trivial)
    h hrun

/-- **A run of one connection** keeps it sane, or leaves it behind. -/
theorem sane_or_abandoned {ops : List ConnectionOp} (h : Sane c)
    (hops : Along (Connection.step cfg kind) (Allowed cfg kind) c ops)
    (hrun : run (Connection.step cfg kind) c ops = some c') :
    Sane c' ∧ ¬ LeftBehind cfg kind c ops ∨ Abandoned c' ∧ LeftBehind cfg kind c ops := by
  induction ops generalizing c with
  | nil =>
    rw [run_nil, Option.some.injEq] at hrun
    exact Or.inl ⟨hrun ▸ h, not_not.mpr trivial⟩
  | cons op ops ih =>
    obtain ⟨c₁, hstep, hrest⟩ := run_cons.mp hrun
    have hleft : LeftBehind cfg kind c (op :: ops) ↔
        LeavesBehind cfg c op ∨ LeftBehind cfg kind c₁ ops := by
      rw [LeftBehind, LeftBehind, along_cons_iff hstep, not_and_or, not_not]
    by_cases hleaves : LeavesBehind cfg c op
    · exact Or.inr ⟨(h.abandoned hleaves hstep).run hrest, hleft.mpr (Or.inl hleaves)⟩
    · rw [hleft, or_iff_right hleaves]
      have hsane : Sane c₁ := sane_step h (hops.1.resolve_right hleaves) hstep
      exact ih hsane (hops.2 c₁ hstep) hrest

/-- A sane connection is one of `connections_` as long as it has not been removed. -/
theorem Sane.registered (h : Sane c) : Kept c ∨ Gone c := by
  cases h.stage with
  | handshake _ _ _ hf => exact Or.inl hf.kept
  | header _ _ _ _ hf => exact Or.inl hf.kept
  | rejected _ _ _ hg => exact Or.inr hg
  | request _ hprogress =>
    cases hprogress with
    | handler _ hf => exact Or.inl hf.kept
    | writing _ hk => exact Or.inl hk
    | chunking _ hk => exact Or.inl hk
    | finished _ hg => exact Or.inr hg

end Connection

namespace HttpServer

variable {ν : Type} {cfg : Config} {kind : ServerKind} {producers : Nat → ProducerKind}
  {s s' : HttpServer ν}

/-! ### The family of the connections -/

/-- **One step** is one of the family. -/
theorem step_family {op : HttpServerOp ν} (hstep : s.step cfg kind producers op = some s') :
    run (familyStep fun i => Connection.step cfg (producers i)) s.connections
      (s.familyOps kind op) = some s'.connections := by
  cases op with
  | accept op =>
    obtain ⟨acceptor, hacceptor, rfl⟩ := Option.map_eq_some_iff.mp hstep
    rw [familyOps, hacceptor]
    exact run_joins _ _
  | connection i op =>
    obtain ⟨connections, hmember, rfl⟩ := Option.map_eq_some_iff.mp hstep
    exact run_singleton.mpr hmember

/-- All that join have just been accepted. -/
theorem join_familyOps {op : HttpServerOp ν} {c : Connection} (h : .join c ∈ s.familyOps kind op) :
    c = Connection.accept (kind = .secure) := by
  cases op with
  | accept op =>
    rw [familyOps] at h
    split at h
    · cases h
    · next acceptor _ =>
      obtain ⟨c', hc', hjoin⟩ := List.mem_map.mp h
      cases hjoin
      obtain ⟨peer, -, rfl⟩ := List.mem_map.mp hc'
      rfl
  | connection i op =>
    rcases List.mem_singleton.mp h with ⟨⟩

theorem actionsOf_familyOps (i : Nat) (op : HttpServerOp ν) :
    actionsOf i (s.familyOps kind op) = opsOf i [op] := by
  cases op with
  | accept op =>
    rw [familyOps]
    split
    · rfl
    · next acceptor _ =>
      rw [actionsOf, List.filterMap_map]
      exact List.filterMap_eq_nil_iff.mpr fun _ _ => rfl
  | connection j op =>
    rw [familyOps, actionsOf_member, opsOf, List.filterMap_cons, HttpServerOp.opOf]
    split_ifs <;> rfl

/-- The steps of a connection in a run are its actions in the family. -/
theorem actionsOf_gather {ops : List (HttpServerOp ν)} (i : Nat)
    (hrun : run (step cfg kind producers) s ops = some s') :
    actionsOf i (gather (step cfg kind producers) (familyOps kind) s ops) = opsOf i ops := by
  induction ops generalizing s with
  | nil => rfl
  | cons op ops ih =>
    obtain ⟨s₁, hstep, hrest⟩ := run_cons.mp hrun
    rw [gather, hstep, actionsOf_append, actionsOf_familyOps, ih hrest, opsOf, opsOf, opsOf,
      ← List.filterMap_append]
    rfl

/-- The connections of a server, and how they have come about. -/
structure Serves (cfg : Config) (kind : ServerKind) (producers : Nat → ProducerKind)
    (history : List (FamilyOp Connection ConnectionOp)) (s : HttpServer ν) : Prop where
  acceptor : Acceptor.Inv kind s.acceptor
  count : s.connections.length = s.acceptor.connections.length
  family : run (familyStep fun i => Connection.step cfg (producers i)) [] history =
    some s.connections
  joined : ∀ c, .join c ∈ history → c = Connection.accept (kind = .secure)

theorem serves_init : Serves cfg kind producers [] ({} : HttpServer ν) where
  acceptor := Acceptor.inv_init
  count := rfl
  family := rfl
  joined := fun _ hc => absurd hc List.not_mem_nil

theorem serves_step {history : List (FamilyOp Connection ConnectionOp)} {op : HttpServerOp ν}
    (h : Serves cfg kind producers history s) (hstep : s.step cfg kind producers op = some s') :
    Serves cfg kind producers (history ++ s.familyOps kind op) s' := by
  have hfamily : run (familyStep fun i => Connection.step cfg (producers i)) []
      (history ++ s.familyOps kind op) = some s'.connections :=
    run_append.mpr ⟨s.connections, h.family, step_family hstep⟩
  have hjoined : ∀ c, .join c ∈ history ++ s.familyOps kind op →
      c = Connection.accept (kind = .secure) := by
    intro c hc
    rcases List.mem_append.mp hc with hc | hc
    · exact h.joined c hc
    · exact join_familyOps hc
  cases op with
  | accept op =>
    obtain ⟨acceptor, hacceptor, rfl⟩ := Option.map_eq_some_iff.mp hstep
    refine ⟨Acceptor.inv_step h.acceptor hacceptor, ?_, hfamily, hjoined⟩
    obtain ⟨peers, hpeers⟩ := Acceptor.connections_step hacceptor
    rw [made, hpeers, List.drop_left, List.length_append, List.length_append, List.length_map,
      h.count]
  | connection i op =>
    obtain ⟨connections, hmember, rfl⟩ := Option.map_eq_some_iff.mp hstep
    refine ⟨h.acceptor, ?_, hfamily, hjoined⟩
    obtain ⟨c, c', -, -, rfl⟩ := familyStep_member.mp hmember
    exact (List.length_set ..).trans h.count

/-! ### Whole runs -/

/-- **A server of many connections**: it makes one for each client that it serves, and each is in
the state that its own steps lead to. If the steps are not faulty, but for those that leave a
connection behind, no connection is removed twice and each that has not been removed is in
`connection_manager`. When nothing is pending and nothing is owed, these are the connections that
have been left behind. -/
theorem server_connections (cfg : Config) (kind : ServerKind) (producers : Nat → ProducerKind)
    (ops : List (HttpServerOp ν)) (s : HttpServer ν)
    (hrun : run (step cfg kind producers) {} ops = some s)
    (hops : ∀ i, Along (Connection.step cfg (producers i)) (Connection.Allowed cfg (producers i))
      (Connection.accept (kind = .secure)) (opsOf i ops)) :
    s.connections.length = (kind.serves s.acceptor.given).length ∧
      (∀ i c, s.connections[i]? = some c →
        run (Connection.step cfg (producers i)) (Connection.accept (kind = .secure)) (opsOf i ops) =
            some c ∧
          (i ∈ s.connectionManager ↔ c.removals = 0) ∧ c.removals ≤ 1) ∧
      ((∀ c ∈ s.connections, Connection.Quiescent c ∧ ¬ Connection.Owes c) →
        ∀ i, i ∈ s.connectionManager ↔ i < s.connections.length ∧
          Connection.LeftBehind cfg (producers i) (Connection.accept (kind = .secure))
            (opsOf i ops)) := by
  have h : Serves cfg kind producers
      (gather (step cfg kind producers) (familyOps kind) {} ops) s :=
    run_invariant_gather (fun _ _ _ _ h hstep => serves_step h hstep) serves_init hrun
  have hown : ∀ i c, s.connections[i]? = some c →
      run (Connection.step cfg (producers i)) (Connection.accept (kind = .secure)) (opsOf i ops) =
        some c := by
    intro i c hc
    obtain ⟨c₀, hjoin, hmember⟩ := run_member h.family hc
    rwa [h.joined c₀ hjoin, actionsOf_gather i hrun] at hmember
  have hmember : ∀ i c, s.connections[i]? = some c → (i ∈ s.connectionManager ↔ c.registered) := by
    intro i c hc
    obtain ⟨hi, -⟩ := List.getElem?_eq_some_iff.mp hc
    rw [connectionManager, List.mem_filter, List.mem_range, hc, Option.any_some, and_iff_right hi]
  have hstage := fun i c hc =>
    Connection.sane_or_abandoned (Connection.sane_accept _) (hops i) (hown i c hc)
  refine ⟨by rw [h.count, h.acceptor.connections], fun i c hc => ⟨hown i c hc, ?_⟩,
    fun hdone i => ?_⟩
  · rw [hmember i c hc]
    rcases hstage i c hc with ⟨hsane, -⟩ | ⟨habandoned, -⟩
    · rcases hsane.registered with hkept | hgone
      · simp [hkept.removals, hkept.registered]
      · simp [hgone.removals, hgone.registered]
    · simp [habandoned.fresh.kept.removals, habandoned.fresh.kept.registered]
  · rw [connectionManager, List.mem_filter, List.mem_range]
    refine and_congr_right fun hi => ?_
    obtain ⟨c, hc⟩ : ∃ c, s.connections[i]? = some c := ⟨_, List.getElem?_eq_getElem hi⟩
    obtain ⟨hquiescent, howes⟩ := hdone c (List.mem_of_getElem? hc)
    rw [hc, Option.any_some]
    rcases hstage i c hc with ⟨hsane, hnot⟩ | ⟨habandoned, hleft⟩
    · rw [(hsane.gone hquiescent howes).registered]
      exact iff_of_false Bool.false_ne_true hnot
    · exact iff_of_true habandoned.fresh.kept.registered hleft

/-- The only client of a plain server sends a `HEAD` that nobody answers: its connection stays. -/
theorem server_connections_head :
    ∃ s : HttpServer Nat, run (step {} .plain fun _ => .streaming) {}
        [.accept .start, .accept (.connect 1), .accept (.handle true),
          .connection 0 (.read none (bytes "HEAD / HTTP/1.1\r\n\r\n") (some .unanswered))] =
            some s ∧
      0 ∈ s.connectionManager := by
  refine ⟨_, rfl, ((server_connections {} .plain (fun _ => .streaming)
    [.accept .start, .accept (.connect 1), .accept (.handle true),
      .connection 0 (.read none (bytes "HEAD / HTTP/1.1\r\n\r\n") (some .unanswered))] _ rfl
    ?_).2.2 ?_ 0).mpr ⟨Nat.one_pos, fun hkept => hkept.1 ⟨rfl, by decide +kernel⟩⟩⟩
  · intro i
    match i with
    | 0 => exact along_cons rfl (Or.inr ⟨rfl, by decide +kernel⟩) trivial
    | i + 1 => trivial
  · intro c hc
    rcases hc with _ | ⟨_, hc⟩
    · refine ⟨⟨by decide +kernel, by decide +kernel, by decide +kernel, by decide +kernel,
        by decide +kernel⟩, ?_⟩
      rintro (howed | ⟨hphase, -⟩)
      · exact absurd howed (by decide +kernel)
      · exact absurd hphase (by decide +kernel)
    · cases hc

end HttpServer

end Attender.Http
