import Attender.Http.AcceptLoop
import Attender.Library.Families
import Attender.Websocket.Connection

/-!
# The websocket server

The accept loop of `websocket::server`, the `proto_connection` of each client, and
the `connection` that it becomes. An accept loop ends with an error, whatever the
error is, and each `start` begins another one. A client whose upgrade succeeds is
given to `on_connection` once, one whose upgrade fails to `on_error` once, and
one that asks for no upgrade to neither (`websocket_server`).
-/

namespace Attender.Websocket

open Attender.Library Attender.Utility

/-- `proto_connection`, and the `connection` that it becomes. -/
inductive Upgrade where
  /-- `ssl_handshake`. -/
  | handshaking
  /-- `read_upgrade`. -/
  | reading
  /-- `connection::start`. -/
  | accepting
  /-- `on_accept_error_` has been called. -/
  | failed
  /-- No upgrade has been asked for, and the socket is closed. -/
  | closed
  /-- `on_accept_` has been called. -/
  | accepted (c : Connection)
  deriving DecidableEq

/-- What happens to it. -/
inductive UpgradeOp where
  /-- `on_ssl_handshake`. -/
  | handshake (ec : Option ErrorCode)
  /-- A request has been read, and whether it is one for an upgrade. -/
  | request (ec : Option ErrorCode) (isUpgrade : Bool)
  /-- `connection::on_accept`. -/
  | accept (ec : Option ErrorCode)
  /-- What happens to the connection. -/
  | connection (a : ConnectionAction)
  deriving DecidableEq

namespace Upgrade

/-- `proto_connection::start`. -/
def start (secure : Bool) : Upgrade := if secure then .handshaking else .reading

/-- One step. -/
def step : Upgrade → UpgradeOp → Option Upgrade
  | .handshaking, .handshake ec => some (if ec.isSome then .failed else .reading)
  | .reading, .request ec isUpgrade =>
    some (if ec.isSome then .failed else if isUpgrade then .accepting else .closed)
  | .accepting, .accept ec => some (if ec.isSome then .failed else .accepted {})
  | .accepted c, .connection a => (c.step a).map .accepted
  | _, _ => none

/-- It has failed. -/
def hasFailed : Upgrade → Bool
  | .failed => true
  | .handshaking | .reading | .accepting | .closed | .accepted _ => false

/-- It has succeeded. -/
def hasSucceeded : Upgrade → Bool
  | .accepted _ => true
  | .handshaking | .reading | .accepting | .failed | .closed => false

end Upgrade

/-- What `on_error` is called with in a step that can be taken. -/
def UpgradeOp.error : UpgradeOp → List ErrorCode
  | .handshake ec | .request ec _ | .accept ec => ec.toList
  | .connection _ => []

/-- `on_connection` is called in a step that can be taken. -/
def UpgradeOp.connects : UpgradeOp → Bool
  | .accept none => true
  | .accept (some _) | .handshake _ | .request .. | .connection _ => false

/-- `websocket::server` and its clients. -/
structure Server (ν : Type) where
  /-- `acceptor.is_open()`. -/
  isOpen : Bool := false
  /-- How many `async_accept` wait for a client. -/
  waiting : Nat := 0
  /-- Those that are over, with their handlers still to run, the oldest first. -/
  completions : List (Http.Accepted ν) := []
  /-- The clients that a `proto_connection` has been made for. -/
  peers : List ν := []
  /-- What has become of them. -/
  upgrades : List Upgrade := []
  /-- What `on_error` has been called with. -/
  onError : List ErrorCode := []
  /-- The clients that `on_connection` has been called for, by their numbers. -/
  onConnection : List Nat := []
  /-- The server is gone, and `weak.lock()` fails. -/
  destroyed : Bool := false

/-- What happens to it. -/
inductive ServerOp (ν : Type) where
  | start
  | stop
  /-- `~server`. -/
  | destroy
  /-- A client connects. -/
  | connect (peer : ν)
  /-- An `async_accept` fails. -/
  | fail (ec : ErrorCode)
  /-- The oldest handler runs. -/
  | handle
  /-- A step of the upgrade of the client of this number. -/
  | upgrade (i : Nat) (op : UpgradeOp)

/-- `boost::asio::error::bad_descriptor`: an acceptor that is closed accepts nothing. -/
def badDescriptor : ErrorCode := .other 9

namespace Server

variable {ν : Type} (s : Server ν)

/-- `acceptor.close()`. -/
def stop : Server ν :=
  { s with
    isOpen := false
    waiting := 0
    completions := s.completions ++ List.replicate s.waiting (.failed .operationAborted) }

/-- `do_accept`. -/
def doAccept : Server ν :=
  if s.isOpen then { s with waiting := s.waiting + 1 }
  else { s with completions := s.completions ++ [.failed badDescriptor] }

/-- `server::start`. -/
def start : Server ν := doAccept { s.stop with isOpen := true }

/-- The handler of `async_accept`. -/
def onAccept (secure : Bool) (completion : Http.Accepted ν) : Server ν :=
  if s.destroyed then s
  else
    match completion with
    | .failed ec => { s with onError := s.onError ++ [ec] }
    | .client peer =>
      doAccept { s with
        peers := s.peers ++ [peer], upgrades := s.upgrades ++ [Upgrade.start secure] }

/-- One step. -/
def step (secure : Bool) (s : Server ν) : ServerOp ν → Option (Server ν)
  | .start => if s.destroyed then none else some s.start
  | .stop => if s.destroyed then none else some s.stop
  | .destroy => if s.destroyed then none else some { s.stop with destroyed := true }
  | .connect peer =>
    if s.waiting = 0 then none
    else some { s with
      waiting := s.waiting - 1, completions := s.completions ++ [.client peer] }
  | .fail ec =>
    if s.waiting = 0 then none
    else some { s with waiting := s.waiting - 1, completions := s.completions ++ [.failed ec] }
  | .handle =>
    match s.completions with
    | [] => none
    | completion :: completions =>
      some (onAccept { s with completions := completions } secure completion)
  | .upgrade i op =>
    (familyStep (fun _ => Upgrade.step) s.upgrades (.member i op)).map fun upgrades =>
      { s with
        upgrades := upgrades
        onError := s.onError ++ op.error
        onConnection := s.onConnection ++ if op.connects then [i] else [] }

/-- The accepts whose handler is still to run. -/
def outstanding : Nat := s.waiting + s.completions.length

end Server

/-- The client that connects. -/
def ServerOp.peer {ν : Type} : ServerOp ν → Option ν
  | .connect peer => some peer
  | .start | .stop | .destroy | .fail _ | .handle | .upgrade .. => none

/-- The server is started. -/
def ServerOp.starts {ν : Type} : ServerOp ν → Bool
  | .start => true
  | .stop | .destroy | .connect _ | .fail _ | .handle | .upgrade .. => false

/-- The step of the upgrade of the client `i`. -/
def ServerOp.upgradeOf {ν : Type} (i : Nat) : ServerOp ν → Option UpgradeOp
  | .upgrade j op => if j = i then some op else none
  | .start | .stop | .destroy | .connect _ | .fail _ | .handle => none

/-- The client of a handler. -/
def clientOf {ν : Type} : Http.Accepted ν → Option ν
  | .client peer => some peer
  | .failed _ => none

namespace Server

variable {ν : Type}

/-- The clients that have connected and whose handler is still to run. -/
def queued (s : Server ν) : List ν := s.completions.filterMap clientOf

/-- How many accept loops go on: those that wait for a client, and those that have got one. -/
def loops (s : Server ν) : Nat := s.waiting + s.queued.length

end Server

/-! ### What a step of an upgrade tells the server -/

theorem Upgrade.step_effects {u u' : Upgrade} {op : UpgradeOp} (hstep : u.step op = some u') :
    u.hasFailed = false ∧ op.error.length = (if u'.hasFailed then 1 else 0) ∧
      (op.connects → u.hasSucceeded = false ∧ u'.hasSucceeded) ∧
      (¬ op.connects → u'.hasSucceeded = u.hasSucceeded) := by
  cases u with
  | handshaking =>
    cases op with
    | handshake ec =>
      cases hstep
      cases ec <;> exact ⟨rfl, rfl, fun h => absurd h Bool.false_ne_true, fun _ => rfl⟩
    | request | accept | connection => cases hstep
  | reading =>
    cases op with
    | request ec isUpgrade =>
      cases hstep
      cases ec <;> cases isUpgrade <;>
        exact ⟨rfl, rfl, fun h => absurd h Bool.false_ne_true, fun _ => rfl⟩
    | handshake | accept | connection => cases hstep
  | accepting =>
    cases op with
    | accept ec =>
      cases hstep
      cases ec with
      | none => exact ⟨rfl, rfl, fun _ => ⟨rfl, rfl⟩, fun h => absurd rfl h⟩
      | some ec => exact ⟨rfl, rfl, fun h => absurd h Bool.false_ne_true, fun _ => rfl⟩
    | handshake | request | connection => cases hstep
  | failed | closed => cases op <;> cases hstep
  | accepted c =>
    cases op with
    | connection a =>
      obtain ⟨c', -, rfl⟩ := Option.map_eq_some_iff.mp hstep
      exact ⟨rfl, rfl, fun h => absurd h Bool.false_ne_true, fun _ => rfl⟩
    | handshake | request | accept => cases hstep

/-- An upgrade that starts has not failed. -/
theorem Upgrade.countP_hasFailed_start (upgrades : List Upgrade) (secure : Bool) :
    (upgrades ++ [Upgrade.start secure]).countP Upgrade.hasFailed =
      upgrades.countP Upgrade.hasFailed := by
  have hfailed : (Upgrade.start secure).hasFailed = false := by cases secure <;> rfl
  rw [List.countP_append, List.countP_singleton, hfailed]
  rfl

/-- Nor has it succeeded. -/
theorem Upgrade.any_hasSucceeded_start (upgrades : List Upgrade) (secure : Bool) (i : Nat) :
    ((upgrades ++ [Upgrade.start secure])[i]?).any Upgrade.hasSucceeded =
      (upgrades[i]?).any Upgrade.hasSucceeded := by
  have hsucceeded : (Upgrade.start secure).hasSucceeded = false := by cases secure <;> rfl
  rcases Nat.lt_trichotomy i upgrades.length with hlt | rfl | hgt
  · rw [List.getElem?_append_left hlt]
  · rw [List.getElem?_concat_length, Option.any_some, hsucceeded,
      List.getElem?_eq_none (Nat.le_refl _), Option.any_none]
  · rw [List.getElem?_eq_none (Nat.le_of_lt hgt), List.getElem?_eq_none]
    rw [List.length_append, List.length_singleton]
    omega

namespace Server

variable {ν : Type} {secure : Bool} {s s' : Server ν} {op : ServerOp ν}

/-! ### The accept loops -/

theorem clientOf_aborted (n : Nat) :
    (List.replicate n (Http.Accepted.failed (ν := ν) .operationAborted)).filterMap clientOf = [] :=
  List.filterMap_eq_nil_iff.mpr fun a ha => by rw [List.eq_of_mem_replicate ha, clientOf]

@[simp] theorem queued_stop : s.stop.queued = s.queued := by
  rw [queued, stop, List.filterMap_append, clientOf_aborted, List.append_nil, queued]

@[simp] theorem queued_doAccept : s.doAccept.queued = s.queued := by
  rw [doAccept]
  split_ifs
  · rfl
  · simp [queued, clientOf]

@[simp] theorem outstanding_stop : s.stop.outstanding = s.outstanding := by
  simp only [outstanding, stop, List.length_append, List.length_replicate]
  omega

@[simp] theorem outstanding_doAccept : s.doAccept.outstanding = s.outstanding + 1 := by
  rw [doAccept]
  split_ifs
  · simp only [outstanding]
    omega
  · simp only [outstanding, List.length_append, List.length_singleton]
    omega

/-- What concerns the accept loops alone. -/
structure SameClients (s s' : Server ν) : Prop where
  peers : s'.peers = s.peers
  upgrades : s'.upgrades = s.upgrades
  onError : s'.onError = s.onError
  onConnection : s'.onConnection = s.onConnection
  destroyed : s'.destroyed = s.destroyed

theorem sameClients_doAccept (s : Server ν) : SameClients s s.doAccept := by
  rw [doAccept]
  split_ifs <;> exact ⟨rfl, rfl, rfl, rfl, rfl⟩

theorem sameClients_start (s : Server ν) : SameClients s s.start := by
  have h := sameClients_doAccept { s.stop with isOpen := true }
  exact ⟨h.peers, h.upgrades, h.onError, h.onConnection, h.destroyed⟩

/-- **What a step does**. -/
theorem step_cases (hstep : s.step secure op = some s') :
    (op = .start ∧ ¬ s.destroyed ∧ SameClients s s' ∧ s'.queued = s.queued ∧
        s'.outstanding = s.outstanding + 1) ∨
      ((op = .stop ∨ op = .destroy) ∧ ¬ s.destroyed ∧ s'.peers = s.peers ∧
        s'.upgrades = s.upgrades ∧ s'.onError = s.onError ∧ s'.onConnection = s.onConnection ∧
        s'.queued = s.queued ∧ s'.outstanding = s.outstanding ∧ s'.waiting = 0) ∨
      (∃ peer, op = .connect peer ∧ 0 < s.waiting ∧ SameClients s s' ∧
        s'.queued = s.queued ++ [peer] ∧ s'.outstanding = s.outstanding) ∨
      (∃ ec, op = .fail ec ∧ 0 < s.waiting ∧ SameClients s s' ∧ s'.queued = s.queued ∧
        s'.outstanding = s.outstanding) ∨
      (∃ completion completions, op = .handle ∧ s.completions = completion :: completions ∧
        s' = onAccept { s with completions := completions } secure completion) ∨
      ∃ i uop upgrades, op = .upgrade i uop ∧
        familyStep (fun _ => Upgrade.step) s.upgrades (.member i uop) = some upgrades ∧
        s' = { s with
          upgrades := upgrades
          onError := s.onError ++ uop.error
          onConnection := s.onConnection ++ if uop.connects then [i] else [] } := by
  cases op with
  | start =>
    simp only [step] at hstep
    split_ifs at hstep with hdestroyed
    cases hstep
    refine Or.inl ⟨rfl, hdestroyed, sameClients_start s, ?_, ?_⟩
    · rw [start, queued_doAccept]
      exact queued_stop
    · rw [start, outstanding_doAccept]
      exact congrArg (· + 1) outstanding_stop
  | stop =>
    simp only [step] at hstep
    split_ifs at hstep with hdestroyed
    cases hstep
    exact Or.inr (Or.inl ⟨Or.inl rfl, hdestroyed, rfl, rfl, rfl, rfl, queued_stop, outstanding_stop,
      rfl⟩)
  | destroy =>
    simp only [step] at hstep
    split_ifs at hstep with hdestroyed
    cases hstep
    exact Or.inr (Or.inl ⟨Or.inr rfl, hdestroyed, rfl, rfl, rfl, rfl, queued_stop, outstanding_stop,
      rfl⟩)
  | connect peer =>
    simp only [step] at hstep
    split_ifs at hstep with hnone
    cases hstep
    refine Or.inr (Or.inr (Or.inl ⟨peer, rfl, Nat.pos_of_ne_zero hnone, ⟨rfl, rfl, rfl, rfl, rfl⟩,
      ?_, ?_⟩))
    · simp [queued, clientOf]
    · simp only [outstanding, List.length_append, List.length_singleton]
      omega
  | fail ec =>
    simp only [step] at hstep
    split_ifs at hstep with hnone
    cases hstep
    refine Or.inr (Or.inr (Or.inr (Or.inl ⟨ec, rfl, Nat.pos_of_ne_zero hnone,
      ⟨rfl, rfl, rfl, rfl, rfl⟩, ?_, ?_⟩)))
    · simp [queued, clientOf]
    · simp only [outstanding, List.length_append, List.length_singleton]
      omega
  | handle =>
    simp only [step] at hstep
    split at hstep
    · cases hstep
    · next completion completions hhead =>
      cases hstep
      exact Or.inr (Or.inr (Or.inr (Or.inr (Or.inl ⟨completion, completions, rfl, hhead, rfl⟩))))
  | upgrade i uop =>
    obtain ⟨upgrades, hmember, rfl⟩ := Option.map_eq_some_iff.mp hstep
    exact Or.inr (Or.inr (Or.inr (Or.inr (Or.inr ⟨i, uop, upgrades, rfl, hmember, rfl⟩))))

/-! ### What a handler finds -/

theorem outstanding_eq_of_head {completion : Http.Accepted ν}
    {completions : List (Http.Accepted ν)} (hhead : s.completions = completion :: completions) :
    s.outstanding = outstanding { s with completions := completions } + 1 := by
  rw [outstanding, outstanding, hhead, List.length_cons]
  rfl

theorem queued_eq_of_head {completion : Http.Accepted ν} {completions : List (Http.Accepted ν)}
    (hhead : s.completions = completion :: completions) :
    s.queued = (clientOf completion).toList ++ queued { s with completions := completions } := by
  rw [queued, hhead, List.filterMap_cons, queued]
  cases clientOf completion <;> rfl

theorem filterMap_peer_handle (ops : List (ServerOp ν)) :
    (ops ++ [ServerOp.handle]).filterMap ServerOp.peer = ops.filterMap ServerOp.peer := by
  rw [List.filterMap_append]
  exact List.append_nil _

theorem countP_starts_handle (ops : List (ServerOp ν)) :
    (ops ++ [ServerOp.handle]).countP ServerOp.starts = ops.countP ServerOp.starts := by
  rw [List.countP_append]
  rfl

/-! ### Accounts -/

/-- The upgrades of a server are a family, in which all have joined at the start. -/
def Members (secure : Bool) (ops : List (ServerOp ν)) (upgrades : List Upgrade) : Prop :=
  ∃ history, run (familyStep fun _ => Upgrade.step) [] history = some upgrades ∧
    (∀ u, .join u ∈ history → u = Upgrade.start secure) ∧
    ∀ i, actionsOf i history = ops.filterMap (ServerOp.upgradeOf i)

theorem Members.skip {ops : List (ServerOp ν)} {upgrades : List Upgrade}
    (h : Members secure ops upgrades) (hop : ∀ i, op.upgradeOf i = none) :
    Members secure (ops ++ [op]) upgrades := by
  obtain ⟨history, hrun, hjoin, hactions⟩ := h
  refine ⟨history, hrun, hjoin, fun i => ?_⟩
  rw [List.filterMap_append, hactions, List.filterMap_cons, hop]
  exact (List.append_nil _).symm

theorem Members.join {ops : List (ServerOp ν)} {upgrades : List Upgrade}
    (h : Members secure ops upgrades) :
    Members secure ops (upgrades ++ [Upgrade.start secure]) := by
  obtain ⟨history, hrun, hjoin, hactions⟩ := h
  refine ⟨history ++ [.join (Upgrade.start secure)], ?_, fun u hu => ?_, fun i => ?_⟩
  · exact run_append.mpr ⟨upgrades, hrun, run_singleton.mpr rfl⟩
  · rcases List.mem_append.mp hu with hu | hu
    · exact hjoin u hu
    · cases List.mem_singleton.mp hu
      rfl
  · rw [actionsOf_append, actionsOf_join, List.append_nil, hactions]

theorem Members.member {ops : List (ServerOp ν)} {upgrades upgrades' : List Upgrade} {i : Nat}
    {uop : UpgradeOp} (h : Members secure ops upgrades)
    (hmember : familyStep (fun _ => Upgrade.step) upgrades (.member i uop) = some upgrades') :
    Members secure (ops ++ [.upgrade i uop]) upgrades' := by
  obtain ⟨history, hrun, hjoin, hactions⟩ := h
  refine ⟨history ++ [.member i uop], run_append.mpr ⟨upgrades, hrun, run_singleton.mpr hmember⟩,
    fun u hu => ?_, fun j => ?_⟩
  · rcases List.mem_append.mp hu with hu | hu
    · exact hjoin u hu
    · cases List.mem_singleton.mp hu
  · rw [actionsOf_append, actionsOf_member, List.filterMap_append, hactions, List.filterMap_cons,
      ServerOp.upgradeOf]
    split_ifs <;> rfl

/-- What has become of the clients, and the calls of the callbacks. What is lost is so because the
server is gone. -/
structure Accounts (secure : Bool) (ops : List (ServerOp ν)) (s : Server ν) : Prop where
  clients : ∃ lost, s.peers ++ lost ++ s.queued = ops.filterMap ServerOp.peer ∧
    (¬ s.destroyed → lost = [])
  errors : ∃ lost, s.onError.length + s.outstanding + lost =
    ops.countP ServerOp.starts + s.upgrades.countP Upgrade.hasFailed ∧ (¬ s.destroyed → lost = 0)
  each : s.upgrades.length = s.peers.length
  nodup : s.onConnection.Nodup
  connected : ∀ i, i ∈ s.onConnection ↔ (s.upgrades[i]?).any Upgrade.hasSucceeded
  members : Members secure ops s.upgrades

theorem accounts_init : Accounts secure [] ({} : Server ν) where
  clients := ⟨[], rfl, fun _ => rfl⟩
  errors := ⟨0, rfl, fun _ => rfl⟩
  each := rfl
  nodup := List.nodup_nil
  connected := fun i => by simp
  members := ⟨[], rfl, fun _ hu => absurd hu List.not_mem_nil, fun _ => rfl⟩

section Step

variable {ops : List (ServerOp ν)} {completion : Http.Accepted ν}
  {completions : List (Http.Accepted ν)}

/-- A step that makes no upgrade and is none. -/
theorem Accounts.keep (h : Accounts secure ops s) (hpeers : s'.peers = s.peers)
    (hupgrades : s'.upgrades = s.upgrades) (honConnection : s'.onConnection = s.onConnection)
    (hop : ∀ i, op.upgradeOf i = none) (hdestroyed : s.destroyed → s'.destroyed)
    (hqueued : s'.queued = s.queued ++ op.peer.toList)
    (herrors : s'.onError.length + s'.outstanding =
      s.onError.length + s.outstanding + if op.starts then 1 else 0) :
    Accounts secure (ops ++ [op]) s' := by
  obtain ⟨lost, hclients, hnone⟩ := h.clients
  obtain ⟨count, hcount, hzero⟩ := h.errors
  refine ⟨⟨lost, ?_, fun hd => hnone (mt hdestroyed hd)⟩,
    ⟨count, ?_, fun hd => hzero (mt hdestroyed hd)⟩, ?_, ?_, ?_, ?_⟩
  · rw [hpeers, hqueued, ← List.append_assoc, hclients, List.filterMap_append]
    cases hpeer : op.peer <;> simp [hpeer]
  · rw [herrors, hupgrades, List.countP_append, List.countP_singleton]
    omega
  · rw [hupgrades, hpeers]
    exact h.each
  · rw [honConnection]
    exact h.nodup
  · rw [honConnection, hupgrades]
    exact h.connected
  · rw [hupgrades]
    exact h.members.skip hop

/-- A step of the accept loops alone. -/
theorem Accounts.keepClients (h : Accounts secure ops s) (hsame : SameClients s s')
    (hop : ∀ i, op.upgradeOf i = none) (hqueued : s'.queued = s.queued ++ op.peer.toList)
    (hout : s'.outstanding = s.outstanding + if op.starts then 1 else 0) :
    Accounts secure (ops ++ [op]) s' := by
  refine h.keep hsame.peers hsame.upgrades hsame.onConnection hop (fun hd => ?_) hqueued ?_
  · rw [hsame.destroyed]
    exact hd
  · rw [hsame.onError, hout, Nat.add_assoc]

/-- The handler of a server that is gone does nothing. -/
theorem Accounts.handleGone (h : Accounts secure ops s) (hdestroyed : s.destroyed)
    (hhead : s.completions = completion :: completions) :
    Accounts secure (ops ++ [.handle]) { s with completions := completions } := by
  obtain ⟨lost, hclients, -⟩ := h.clients
  obtain ⟨count, hcount, -⟩ := h.errors
  refine ⟨⟨lost ++ (clientOf completion).toList, ?_, fun hd => absurd hdestroyed hd⟩,
    ⟨count + 1, ?_, fun hd => absurd hdestroyed hd⟩, h.each, h.nodup, h.connected,
    h.members.skip fun _ => rfl⟩
  · rw [filterMap_peer_handle, ← hclients, queued_eq_of_head hhead, List.append_assoc,
      List.append_assoc, List.append_assoc]
  · rw [countP_starts_handle, ← hcount, outstanding_eq_of_head hhead]
    dsimp only
    omega

/-- The handler of an accept that has failed calls `on_error`, and its loop ends. -/
theorem Accounts.handleFailed {ec : ErrorCode} (h : Accounts secure ops s)
    (hhead : s.completions = .failed ec :: completions) :
    Accounts secure (ops ++ [.handle])
      { s with completions := completions, onError := s.onError ++ [ec] } := by
  obtain ⟨lost, hclients, hnone⟩ := h.clients
  obtain ⟨count, hcount, hzero⟩ := h.errors
  refine ⟨⟨lost, ?_, hnone⟩, ⟨count, ?_, hzero⟩, h.each, h.nodup, h.connected,
    h.members.skip fun _ => rfl⟩
  · rw [filterMap_peer_handle, ← hclients, queued_eq_of_head hhead]
    rfl
  · rw [countP_starts_handle, ← hcount, outstanding_eq_of_head hhead, List.length_append,
      List.length_singleton]
    simp only [outstanding]
    omega

/-- The handler of a client makes a `proto_connection`, and its loop goes on. -/
theorem Accounts.handleClient {peer : ν} (h : Accounts secure ops s) (hdestroyed : ¬ s.destroyed)
    (hhead : s.completions = .client peer :: completions) :
    Accounts secure (ops ++ [.handle]) (doAccept { s with
      completions := completions, peers := s.peers ++ [peer]
      upgrades := s.upgrades ++ [Upgrade.start secure] }) := by
  have hsame := sameClients_doAccept { s with
    completions := completions, peers := s.peers ++ [peer]
    upgrades := s.upgrades ++ [Upgrade.start secure] }
  obtain ⟨lost, hclients, hnone⟩ := h.clients
  obtain ⟨count, hcount, hzero⟩ := h.errors
  obtain rfl := hnone hdestroyed
  obtain rfl := hzero hdestroyed
  refine ⟨⟨[], ?_, fun _ => rfl⟩, ⟨0, ?_, fun _ => rfl⟩, ?_, ?_, fun i => ?_, ?_⟩
  · rw [filterMap_peer_handle, ← hclients, queued_eq_of_head hhead, hsame.peers, queued_doAccept]
    simp [clientOf, queued]
  · rw [countP_starts_handle, hsame.onError, hsame.upgrades, outstanding_doAccept]
    dsimp only
    rw [Upgrade.countP_hasFailed_start, ← hcount, outstanding_eq_of_head hhead]
    rfl
  · rw [hsame.upgrades, hsame.peers, List.length_append, List.length_append, h.each]
    rfl
  · rw [hsame.onConnection]
    exact h.nodup
  · rw [hsame.onConnection, hsame.upgrades, Upgrade.any_hasSucceeded_start, h.connected]
  · rw [hsame.upgrades]
    exact (h.members.skip fun _ => rfl).join

/-- **The handler** of an accept. -/
theorem Accounts.onAccept (h : Accounts secure ops s)
    (hhead : s.completions = completion :: completions) :
    Accounts secure (ops ++ [.handle])
      (Server.onAccept { s with completions := completions } secure completion) := by
  unfold Server.onAccept
  split_ifs with hdestroyed
  · exact h.handleGone hdestroyed hhead
  · cases completion with
    | failed ec => exact h.handleFailed hhead
    | client peer => exact h.handleClient hdestroyed hhead

/-- **A step of an upgrade** calls what it has to. -/
theorem Accounts.upgrade {i : Nat} {uop : UpgradeOp} {upgrades : List Upgrade}
    (h : Accounts secure ops s)
    (hmember : familyStep (fun _ => Upgrade.step) s.upgrades (.member i uop) = some upgrades) :
    Accounts secure (ops ++ [.upgrade i uop]) { s with
      upgrades := upgrades
      onError := s.onError ++ uop.error
      onConnection := s.onConnection ++ if uop.connects then [i] else [] } := by
  have hmembers := h.members.member hmember
  obtain ⟨u, u', hu, hstep, rfl⟩ := familyStep_member.mp hmember
  obtain ⟨hi, hget⟩ := List.getElem?_eq_some_iff.mp hu
  obtain ⟨hfailed, herror, hsome, hnone⟩ := Upgrade.step_effects hstep
  obtain ⟨lost, hclients, hlost⟩ := h.clients
  obtain ⟨count, hcount, hzero⟩ := h.errors
  refine ⟨⟨lost, ?_, hlost⟩, ⟨count, ?_, hzero⟩, (List.length_set ..).trans h.each, ?_, ?_,
    hmembers⟩
  · rw [List.filterMap_append, ← hclients]
    exact (List.append_nil _).symm
  · rw [List.countP_append, List.countP_singleton, ServerOp.starts, if_neg Bool.false_ne_true,
      Nat.add_zero, List.countP_set hi, hget, hfailed, if_neg Bool.false_ne_true, Nat.sub_zero,
      List.length_append, herror]
    simp only [outstanding] at hcount ⊢
    omega
  · split_ifs with hconnects
    · refine List.nodup_append.mpr ⟨h.nodup, List.pairwise_singleton _ i, ?_⟩
      intro j hj k hk
      rw [List.mem_singleton.mp hk]
      rintro rfl
      have hbefore := (h.connected j).mp hj
      rw [hu, Option.any_some, (hsome hconnects).1] at hbefore
      cases hbefore
    · rw [List.append_nil]
      exact h.nodup
  · intro j
    rw [List.mem_append, h.connected]
    by_cases hij : i = j
    · subst hij
      rw [List.getElem?_set_self hi, hu, Option.any_some, Option.any_some]
      split_ifs with hconnects
      · exact iff_of_true (Or.inr (List.mem_singleton_self i)) (hsome hconnects).2
      · rw [hnone hconnects, or_iff_left List.not_mem_nil]
    · rw [List.getElem?_set_ne hij]
      refine or_iff_left ?_
      split_ifs
      · exact fun hj => hij (List.mem_singleton.mp hj).symm
      · exact List.not_mem_nil

/-- **One step**. -/
theorem accounts_step (h : Accounts secure ops s) (hstep : s.step secure op = some s') :
    Accounts secure (ops ++ [op]) s' := by
  rcases step_cases hstep with ⟨rfl, -, hsame, hqueued, hout⟩ |
    ⟨hop, hdestroyed, hpeers, hupgrades, honError, honConnection, hqueued, hout, -⟩ |
    ⟨peer, rfl, -, hsame, hqueued, hout⟩ | ⟨ec, rfl, -, hsame, hqueued, hout⟩ |
    ⟨completion, completions, rfl, hhead, rfl⟩ | ⟨i, uop, upgrades, rfl, hmember, rfl⟩
  · exact h.keepClients hsame (fun _ => rfl) (hqueued.trans (List.append_nil _).symm) hout
  · refine h.keep hpeers hupgrades honConnection (fun _ => ?_) (fun hd => absurd hd hdestroyed)
      ?_ ?_
    · rcases hop with rfl | rfl <;> rfl
    · rw [hqueued]
      rcases hop with rfl | rfl <;> exact (List.append_nil _).symm
    · rw [honError, hout]
      rcases hop with rfl | rfl <;> rfl
  · exact h.keepClients hsame (fun _ => rfl) hqueued hout
  · exact h.keepClients hsame (fun _ => rfl) (hqueued.trans (List.append_nil _).symm) hout
  · exact h.onAccept hhead
  · exact h.upgrade hmember

end Step

/-! ### Further clients -/

/-- No accept loop goes on, or the server is gone. -/
def Over (s : Server ν) : Prop := s.loops = 0 ∨ s.destroyed

/-- **Without a start** it stays so, and no other client is served. -/
theorem Over.step (h : Over s) (hop : ¬ op.starts) (hstep : s.step secure op = some s') :
    Over s' ∧ s'.peers = s.peers := by
  have hwaiting : ¬ s.destroyed → s.waiting = 0 ∧ s.queued = [] := by
    intro hdestroyed
    have hzero := h.resolve_right hdestroyed
    rw [loops] at hzero
    exact ⟨by omega, List.eq_nil_of_length_eq_zero (by omega)⟩
  by_cases hdestroyed : s.destroyed
  · rcases step_cases hstep with ⟨rfl, -⟩ | ⟨-, hnot, -⟩ | ⟨peer, rfl, -, hsame, -⟩ |
      ⟨ec, rfl, -, hsame, -⟩ | ⟨completion, completions, rfl, -, rfl⟩ |
      ⟨i, uop, upgrades, rfl, -, rfl⟩
    · exact absurd rfl hop
    · exact absurd hdestroyed hnot
    · exact ⟨Or.inr (hsame.destroyed.trans hdestroyed), hsame.peers⟩
    · exact ⟨Or.inr (hsame.destroyed.trans hdestroyed), hsame.peers⟩
    · unfold onAccept
      rw [if_pos hdestroyed]
      exact ⟨Or.inr hdestroyed, rfl⟩
    · exact ⟨Or.inr hdestroyed, rfl⟩
  · obtain ⟨hnone, hqueue⟩ := hwaiting hdestroyed
    rcases step_cases hstep with ⟨rfl, -⟩ | ⟨-, -, hpeers, -, -, -, hqueued, -, hstopped⟩ |
      ⟨peer, rfl, hpositive, -⟩ | ⟨ec, rfl, hpositive, -⟩ |
      ⟨completion, completions, rfl, hhead, rfl⟩ | ⟨i, uop, upgrades, rfl, -, rfl⟩
    · exact absurd rfl hop
    · refine ⟨Or.inl ?_, hpeers⟩
      rw [loops, hqueued, hqueue, hstopped]
      rfl
    · omega
    · omega
    · have hrest := hqueue
      rw [queued, hhead, List.filterMap_cons] at hrest
      unfold onAccept
      rw [if_neg hdestroyed]
      cases completion with
      | client peer => cases hrest
      | failed ec =>
        refine ⟨Or.inl ?_, rfl⟩
        have hlength := congrArg List.length hrest
        simp only [loops, queued, hnone]
        exact (Nat.zero_add _).trans hlength
    · exact ⟨h, rfl⟩

/-- A client that is in the queue is served. -/
theorem serves_of_queued (secure : Bool) {completions : List (Http.Accepted ν)}
    (hcompletions : s.completions = completions)
    (hqueue : completions.filterMap clientOf ≠ []) (hdestroyed : ¬ s.destroyed) :
    ∃ n s', run (step secure) s (List.replicate n .handle) = some s' ∧ s'.peers ≠ s.peers := by
  induction completions generalizing s with
  | nil => exact absurd rfl hqueue
  | cons completion completions ih =>
    have hstep : s.step secure .handle =
        some (onAccept { s with completions := completions } secure completion) := by
      simp only [step, hcompletions]
    cases completion with
    | client peer =>
      refine ⟨1, _, run_singleton.mpr hstep, ?_⟩
      unfold onAccept
      rw [if_neg hdestroyed, (sameClients_doAccept _).peers]
      intro hsame
      have hlength := congrArg List.length hsame
      rw [List.length_append, List.length_singleton] at hlength
      dsimp only at hlength
      omega
    | failed ec =>
      have hnext : onAccept { s with completions := completions } secure (.failed ec) =
          { s with completions := completions, onError := s.onError ++ [ec] } := by
        unfold onAccept
        rw [if_neg hdestroyed]
      obtain ⟨n, s', hrun, hpeers⟩ := ih
        (s := { s with completions := completions, onError := s.onError ++ [ec] }) rfl hqueue
        hdestroyed
      refine ⟨n + 1, s', ?_, hpeers⟩
      rw [List.replicate_succ]
      exact run_cons.mpr ⟨_, hstep, hnext ▸ hrun⟩

/-- **A server whose loops go on** can serve another client. -/
theorem serves_of_loops (peer : ν) (hloops : 0 < s.loops) (hdestroyed : ¬ s.destroyed) :
    ∃ ops s', (∀ op ∈ ops, ServerOp.starts op = false) ∧ run (step secure) s ops = some s' ∧
      s'.peers ≠ s.peers := by
  have hhandles : ∀ n, ∀ op ∈ List.replicate n (ServerOp.handle (ν := ν)),
      ServerOp.starts op = false := by
    intro n op hop
    rw [List.eq_of_mem_replicate hop]
    rfl
  by_cases hqueue : s.queued = []
  · have hwaiting : s.waiting ≠ 0 := by
      rw [loops, hqueue, List.length_nil] at hloops
      omega
    have hstep : s.step secure (.connect peer) = some { s with
        waiting := s.waiting - 1, completions := s.completions ++ [.client peer] } :=
      if_neg hwaiting
    obtain ⟨n, s', hrun, hpeers⟩ := serves_of_queued secure
      (s := { s with
        waiting := s.waiting - 1, completions := s.completions ++ [.client peer] }) rfl
      (by simp [clientOf]) hdestroyed
    refine ⟨.connect peer :: List.replicate n .handle, s', ?_, run_cons.mpr ⟨_, hstep, hrun⟩,
      hpeers⟩
    exact List.forall_mem_cons.mpr ⟨rfl, hhandles n⟩
  · obtain ⟨n, s', hrun, hpeers⟩ := serves_of_queued secure rfl hqueue hdestroyed
    exact ⟨_, s', hhandles n, hrun, hpeers⟩

/-! ### Whole runs -/

/-- **The websocket server**. Each client that has connected has an upgrade or is in the queue, in
the order of the clients. The state of an upgrade is that of a run of its own steps, and
`on_connection` has been called once for each that has succeeded and for no other. The calls of
`on_error` are one for each accept loop that has ended and one for each upgrade that has failed.
The server can serve a further client without being started again exactly if an accept loop goes
on. -/
theorem websocket_server (secure : Bool) (peer : ν) (ops : List (ServerOp ν)) (s : Server ν)
    (hrun : run (step secure) {} ops = some s) :
    (¬ s.destroyed → s.peers ++ s.queued = ops.filterMap ServerOp.peer ∧
      s.onError.length + s.outstanding =
        ops.countP ServerOp.starts + s.upgrades.countP Upgrade.hasFailed) ∧
      s.peers <+: ops.filterMap ServerOp.peer ∧ s.upgrades.length = s.peers.length ∧
      (∀ i u, s.upgrades[i]? = some u →
        run Upgrade.step (Upgrade.start secure) (ops.filterMap (ServerOp.upgradeOf i)) = some u) ∧
      s.onConnection.Nodup ∧
      (∀ i, i ∈ s.onConnection ↔ (s.upgrades[i]?).any Upgrade.hasSucceeded) ∧
      ((∃ ops' s', (∀ op ∈ ops', ServerOp.starts op = false) ∧
          run (step secure) s ops' = some s' ∧ s'.peers ≠ s.peers) ↔
        0 < s.loops ∧ ¬ s.destroyed) := by
  have h : Accounts secure ops s :=
    run_invariant_actions (fun _ _ _ _ h hstep => accounts_step h hstep) accounts_init hrun
  refine ⟨fun hdestroyed => ⟨?_, ?_⟩, ?_, h.each, fun i u hu => ?_, h.nodup, h.connected, ?_, ?_⟩
  · obtain ⟨lost, hclients, hnone⟩ := h.clients
    rw [← hclients, hnone hdestroyed, List.append_nil]
  · obtain ⟨count, hcount, hzero⟩ := h.errors
    rw [← hcount, hzero hdestroyed, Nat.add_zero]
  · obtain ⟨lost, hclients, -⟩ := h.clients
    rw [← hclients, List.append_assoc]
    exact List.prefix_append _ _
  · obtain ⟨history, hfamily, hjoin, hactions⟩ := h.members
    obtain ⟨u₀, hu₀, hown⟩ := run_member hfamily hu
    rwa [hjoin u₀ hu₀, hactions] at hown
  · rintro ⟨ops', s', hops, hrun', hpeers⟩
    by_contra hover
    have hstart : Over s := by
      rw [Over]
      by_cases hdestroyed : s.destroyed
      · exact Or.inr hdestroyed
      · exact Or.inl (Nat.eq_zero_of_not_pos fun hpositive => hover ⟨hpositive, hdestroyed⟩)
    have hend : Over s' ∧ s'.peers = s.peers := by
      refine run_invariant (A := fun op => ServerOp.starts op = false)
        (I := fun t => Over t ∧ t.peers = s.peers) ?_ hops ⟨hstart, rfl⟩ hrun'
      rintro t op t' hop ⟨ht, hsame⟩ hstep
      obtain ⟨ht', hsame'⟩ := ht.step (Bool.eq_false_iff.mp hop) hstep
      exact ⟨ht', hsame'.trans hsame⟩
    exact hpeers hend.2
  · rintro ⟨hloops, hdestroyed⟩
    exact serves_of_loops peer hloops hdestroyed

/-- An accept fails, and the server serves nobody any more although its acceptor is open. -/
theorem websocket_server_failed :
    ∃ s : Server Nat, run (step false) {} [.start, .connect 1, .handle, .fail (.other 24), .handle,
        .upgrade 0 (.request none true), .upgrade 0 (.accept none)] = some s ∧
      s.isOpen ∧ s.onConnection = [0] ∧
      ¬ ∃ ops' s', (∀ op ∈ ops', ServerOp.starts op = false) ∧
        run (step false) s ops' = some s' ∧ s'.peers ≠ s.peers := by
  refine ⟨_, rfl, rfl, rfl, fun hserves => ?_⟩
  have hloops := ((websocket_server false 0 [.start, .connect 1, .handle, .fail (.other 24),
    .handle, .upgrade 0 (.request none true), .upgrade 0 (.accept none)] _
    rfl).2.2.2.2.2.2.mp hserves).1
  exact Nat.lt_irrefl 0 hloops

end Server

end Attender.Websocket
