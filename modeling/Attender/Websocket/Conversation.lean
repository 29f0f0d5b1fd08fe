import Attender.Websocket.MessageIntegrity
import Attender.Websocket.SessionKinds

/-!
# A websocket conversation

A session and a client with their read loops, `connection::on_read` and
`client_base::implementation::on_read`. The stream between them is that of
`boost::beast`: messages arrive whole and in order, and after an error no further
ones are sent or read. The session gives the view of as many bytes as have been
received and drops the whole buffer, the client gives the whole buffer and drops
as many bytes as have been received; both agree because a read finds the buffer
empty. So each end is given what the other has sent, message by message
(`conversation`).
-/

namespace Attender.Websocket

open Attender.Library Attender.Utility

/-- A message of the stream. -/
structure Message where
  mode : Mode
  data : Bytes
  deriving DecidableEq

/-- One direction of the stream. -/
structure Channel where
  /-- The messages that have been sent and not read. -/
  transit : List Message := []
  /-- A write has failed. -/
  sendFailed : Bool := false
  deriving DecidableEq

/-- A read loop, and what it has given to user code: messages, and `none` for an error. -/
structure ReadLoop (γ : Type) where
  /-- A read of the stream is outstanding. -/
  reading : Bool
  readBuffer : Bytes := []
  /-- A read has failed. -/
  failed : Bool := false
  given : List (Option γ) := []
  deriving DecidableEq

namespace ReadLoop

/-- A read that fails: `session_->on_close()`, `read_cb_(ec, "")`. -/
def fail {γ : Type} (r : ReadLoop γ) : ReadLoop γ :=
  { r with reading := false, failed := true, given := r.given ++ [none] }

/-- `connection::on_read` of a message that the stream has put behind what was in the buffer. -/
def onReadConnection (r : ReadLoop Message) (m : Message) : ReadLoop Message :=
  let readBuffer := r.readBuffer ++ m.data
  let bytesReceived := m.data.length
  { r with
    -- `on_text` or `on_binary`
    given := r.given ++ [some ⟨m.mode, readBuffer.take bytesReceived⟩]
    readBuffer := readBuffer.drop readBuffer.length
    reading := true }

/-- `client_base::implementation::on_read`. -/
def onReadClient (r : ReadLoop Bytes) (m : Message) : ReadLoop Bytes :=
  let readBuffer := r.readBuffer ++ m.data
  let bytesTransferred := m.data.length
  { r with
    given := r.given ++ [some readBuffer]
    readBuffer := readBuffer.drop bytesTransferred
    reading := true }

end ReadLoop

/-- A session whose connection has been accepted, and its client. -/
structure Conversation where
  session : SessionBase := {}
  connection : ReadLoop Message := { reading := true }
  client : ReadLoop Bytes := { reading := false }
  /-- How the client sends messages: `set_binary_mode`. -/
  clientMode : Mode := .text
  toClient : Channel := {}
  toServer : Channel := {}
  /-- How many of the writes of the session are on the wire. -/
  sent : Nat := 0
  deriving DecidableEq

/-- What happens to them. -/
inductive ConversationAction where
  | session (a : SessionAction)
  /-- The message in flight is on the wire, and its write has not completed. -/
  | transmit
  /-- A read of the connection is done, on the strand. -/
  | connectionRead (failed : Bool)
  /-- `client_base::listen`. -/
  | listen
  | clientRead (failed : Bool)
  | setBinaryMode (binary : Bool)
  /-- `client_base::write_sync`. -/
  | writeSync (data : Bytes) (failed : Bool)
  deriving DecidableEq

/-- A write fails. -/
def SessionAction.fails : SessionAction → Bool
  | .written (some _) => true
  | .handler | .write .. | .enqueueWrite | .return_ | .written none => false

namespace Conversation

/-- The write in flight is on the wire. -/
def Transmitted (c : Conversation) : Prop := ∀ w ∈ c.session.inFlight, w.id < c.sent

instance (c : Conversation) : Decidable c.Transmitted :=
  inferInstanceAs (Decidable (∀ w ∈ c.session.inFlight, w.id < c.sent))

/-- A step of the session. A write succeeds when its message is on the wire. -/
def sessionStep (kind : SessionKind) (c : Conversation) (a : SessionAction) : Option Conversation :=
  if a = .written none ∧ ¬ c.Transmitted then none
  else
    (SessionBase.stepOf kind c.session a).map fun session =>
      { c with
        session := session
        toClient := { c.toClient with sendFailed := c.toClient.sendFailed || a.fails } }

/-- One step. -/
def step (kind : SessionKind) (c : Conversation) : ConversationAction → Option Conversation
  | .session a => c.sessionStep kind a
  | .transmit =>
    match c.session.inFlight with
    | [] => none
    | w :: _ =>
      if w.id = c.sent ∧ ¬ c.toClient.sendFailed then
        some { c with
          sent := c.sent + 1
          toClient := { c.toClient with transit := c.toClient.transit ++ [⟨w.mode, w.data⟩] } }
      else none
  | .connectionRead failed =>
    if c.connection.reading ∧ c.session.stack = [] then
      let c := { c with session := { c.session with stack := [.handler] } }
      if failed then some { c with connection := c.connection.fail }
      else
        match c.toServer.transit with
        | [] => none
        | m :: transit =>
          some { c with
            connection := c.connection.onReadConnection m
            toServer := { c.toServer with transit := transit } }
    else none
  | .listen =>
    if ¬ c.client.reading then some { c with client := { c.client with reading := true } } else none
  | .clientRead failed =>
    if c.client.reading then
      if failed then some { c with client := c.client.fail }
      else if c.client.failed then none
      else
        match c.toClient.transit with
        | [] => none
        | m :: transit =>
          some { c with
            client := c.client.onReadClient m
            toClient := { c.toClient with transit := transit } }
    else none
  | .setBinaryMode binary => some { c with clientMode := if binary then .binary else .text }
  | .writeSync data failed =>
    if failed then some { c with toServer := { c.toServer with sendFailed := true } }
    else if c.toServer.sendFailed then none
    else
      some { c with
        toServer := { c.toServer with transit := c.toServer.transit ++ [⟨c.clientMode, data⟩] } }

/-- The calls of a step of the session that return `true`. -/
def accepts (c : Conversation) : ConversationAction → List Write
  | .session a => c.session.accepts a
  | _ => []

/-- The messages that the client sends in a step. -/
def sends (c : Conversation) : ConversationAction → List Message
  | .writeSync data false => [⟨c.clientMode, data⟩]
  | _ => []

end Conversation

/-! ### Read loops -/

/-- A read loop has given `f` of each message it has received, and then errors. -/
structure ReadLoop.Has {γ : Type} (f : Message → γ) (received : List Message) (errors : Nat)
    (r : ReadLoop γ) : Prop where
  empty : r.readBuffer = []
  given : r.given = received.map (some ∘ f) ++ List.replicate errors none
  failed : errors = 0 ↔ ¬ r.failed

section ReadLoop

open ReadLoop

variable {received : List Message} {errors : Nat}

theorem ReadLoop.Has.fail {γ : Type} {f : Message → γ} {r : ReadLoop γ}
    (h : r.Has f received errors) : r.fail.Has f received (errors + 1) where
  empty := h.empty
  given := by
    rw [ReadLoop.fail, h.given, List.replicate_succ', List.append_assoc]
  failed := iff_of_false (Nat.succ_ne_zero errors) (not_not.mpr rfl)

/-- The view of as many bytes as have been received is the message. -/
theorem ReadLoop.Has.onReadConnection {r : ReadLoop Message} (h : r.Has id received 0)
    (m : Message) : (r.onReadConnection m).Has id (received ++ [m]) 0 where
  empty := List.drop_length
  given := by
    have hview : (r.readBuffer ++ m.data).take m.data.length = m.data := by
      rw [h.empty, List.nil_append, List.take_length]
    simp [ReadLoop.onReadConnection, hview, h.given]
  failed := h.failed

/-- The whole buffer is the message. -/
theorem ReadLoop.Has.onReadClient {r : ReadLoop Bytes} (h : r.Has Message.data received 0)
    (m : Message) : (r.onReadClient m).Has Message.data (received ++ [m]) 0 where
  empty := by
    rw [ReadLoop.onReadClient, h.empty, List.nil_append]
    exact List.drop_length
  given := by
    rw [ReadLoop.onReadClient, h.empty, h.given]
    simp
  failed := h.failed

end ReadLoop

namespace SessionBase

/-- The session gives the calls to the stream, whatever its kind. -/
theorem sent_stepOf {kind : SessionKind} {calls : List Write} {s s' : SessionBase}
    {a : SessionAction} (h : Sent calls s) (hstep : stepOf kind s a = some s') :
    Sent (calls ++ s.accepts a) s' := by
  rcases stepOf_cases hstep with ⟨hstep, -⟩ | ⟨-, rfl, -, w, inFlight, hflight, rfl⟩
  · exact sent_step h hstep
  · obtain rfl := h.one.of_cons hflight
    have hw := (h.inFlight w (hflight ▸ List.mem_singleton_self w)).1
    simp only [accepts, List.append_nil]
    refine ⟨Or.inl ⟨rfl, rfl⟩, h.writes, fun _ => rfl, fun w' hw' => ?_, fun w' hw' => ?_⟩
    · cases hw'
    · rcases List.mem_append.mp hw' with hw' | hw'
      · exact h.completed w' hw'
      · rw [List.mem_singleton.mp hw']
        exact hw

end SessionBase

namespace Conversation

variable {kind : SessionKind} {c c' : Conversation}

theorem sessionStep_eq {a : SessionAction} (hstep : c.sessionStep kind a = some c') :
    ∃ session, SessionBase.stepOf kind c.session a = some session ∧
      (a = .written none → c.Transmitted) ∧
      c' = { c with
        session := session
        toClient := { c.toClient with sendFailed := c.toClient.sendFailed || a.fails } } := by
  rw [sessionStep] at hstep
  split_ifs at hstep with htransmitted
  obtain ⟨session, hsession, rfl⟩ := Option.map_eq_some_iff.mp hstep
  exact ⟨session, hsession, fun ha => not_not.mp fun hn => htransmitted ⟨ha, hn⟩, rfl⟩

/-! ### To the client -/

/-- The message of a write. -/
def message (w : Write) : Message := ⟨w.mode, w.data⟩

/-- What has become of the calls of the session that returned `true`. -/
structure Outbound (calls : List Write) (c : Conversation) : Prop where
  session : SessionBase.Sent calls c.session
  last : ∀ w ∈ c.session.inFlight, w.id + 1 = calls.length
  sent : c.sent ≤ calls.length
  /-- Without a failed write all has been sent when nothing is in flight. -/
  idle : ¬ c.toClient.sendFailed → c.session.inFlight = [] → c.sent = calls.length
  completed : ∀ w ∈ c.session.completed, w.id < c.sent
  received : ∃ received errors, c.client.Has Message.data received errors ∧
    received ++ c.toClient.transit = (calls.take c.sent).map message

theorem outbound_init : Outbound [] {} where
  session := SessionBase.sent_init
  last := fun _ hw => absurd hw List.not_mem_nil
  sent := Nat.le_refl 0
  idle := fun _ _ => rfl
  completed := fun _ hw => absurd hw List.not_mem_nil
  received := ⟨[], 0, ⟨rfl, rfl, iff_of_true rfl Bool.false_ne_true⟩, rfl⟩

/-- What concerns neither the writes of the session nor the client. -/
theorem Outbound.of_eq {calls : List Write} (h : Outbound calls c)
    (hsession : SessionBase.Sent calls c'.session)
    (hflight : c'.session.inFlight = c.session.inFlight)
    (hcompleted : c'.session.completed = c.session.completed) (hsent : c'.sent = c.sent)
    (hclient : c'.client = c.client) (hchannel : c'.toClient = c.toClient) : Outbound calls c' := by
  refine ⟨hsession, ?_, ?_, ?_, ?_, ?_⟩
  · rw [hflight]
    exact h.last
  · rw [hsent]
    exact h.sent
  · rw [hchannel, hflight, hsent]
    exact h.idle
  · rw [hcompleted, hsent]
    exact h.completed
  · rw [hclient, hchannel, hsent]
    exact h.received

/-- What a step of the session does to its writes. -/
theorem writes_stepOf {s s' : SessionBase} {a : SessionAction} (hone : s.OneWrite)
    (hstep : SessionBase.stepOf kind s a = some s') :
    s.accepts a = [] ∧ s'.inFlight = s.inFlight ∧ s'.completed = s.completed ∨
      (∃ w, s.inFlight = [] ∧ s.accepts a = [w] ∧ w.id = s.writes ∧
        (∀ w' ∈ s'.inFlight, w'.id = w.id) ∧ s'.inFlight ≠ [] ∧ s'.completed = s.completed) ∨
      ∃ ec w, a = .written ec ∧ s.accepts a = [] ∧ s.inFlight = [w] ∧ s'.inFlight = [] ∧
        s'.completed = s.completed ++ if ec = none then [w] else [] := by
  rcases SessionBase.stepOf_cases hstep with ⟨hstep, -⟩ | ⟨-, rfl, -, w, inFlight, hflight, rfl⟩
  · rcases SessionBase.step_cases hstep with ⟨rfl, -, rfl⟩ |
      ⟨mode, data, hasOnComplete, rfl, -, rfl⟩ | ⟨rfl, -, rfl⟩ | ⟨code, stack, rfl, -, rfl⟩ |
      ⟨ec, w, inFlight, rfl, -, hflight, rfl⟩
    · exact Or.inl ⟨rfl, rfl, rfl⟩
    · rw [SessionBase.accepts_write, SessionBase.write]
      split_ifs with hw
      · exact Or.inl ⟨rfl, rfl, rfl⟩
      · have hnone := hone.not_inProgress hw
        refine Or.inr (Or.inl ⟨_, hnone, rfl, rfl, ?_, ?_, ?_⟩)
        · intro w' hw'
          rw [SessionBase.writeCommon_eq] at hw'
          simp only [hnone, List.nil_append, List.mem_singleton] at hw'
          rw [hw']
        · simp [SessionBase.writeCommon_eq]
        · rw [SessionBase.writeCommon_eq]
    · refine Or.inl ⟨rfl, ?_, ?_⟩
      · rw [SessionBase.enqueueWrite]
        split_ifs <;> rfl
      · rw [SessionBase.enqueueWrite]
        split_ifs <;> rfl
    · exact Or.inl ⟨rfl, rfl, rfl⟩
    · obtain rfl := hone.of_cons hflight
      refine Or.inr (Or.inr ⟨ec, w, rfl, rfl, hflight, ?_⟩)
      cases ec with
      | some ec => exact ⟨rfl, (List.append_nil _).symm⟩
      | none =>
        obtain ⟨queue, hqueue⟩ : ∃ queue, s.enqueuedWrites = queue := ⟨_, rfl⟩
        cases queue with
        | nil =>
          rw [SessionBase.onWrite_nil w (s := { s with inFlight := [] }) hqueue]
          exact ⟨rfl, rfl⟩
        | cons front rest =>
          rw [SessionBase.onWrite_cons w (s := { s with inFlight := [] }) hqueue]
          cases front with
          | operation n => exact ⟨rfl, rfl⟩
          | onComplete write => exact ⟨rfl, rfl⟩
  · obtain rfl := hone.of_cons hflight
    exact Or.inr (Or.inr ⟨none, w, rfl, rfl, hflight, rfl, rfl⟩)

/-- **A step of the session**. -/
theorem Outbound.session_step {calls : List Write} {a : SessionAction} (h : Outbound calls c)
    (hstep : c.sessionStep kind a = some c') : Outbound (calls ++ c.session.accepts a) c' := by
  obtain ⟨session, hsession, htransmitted, rfl⟩ := sessionStep_eq hstep
  have hsent := SessionBase.sent_stepOf h.session hsession
  obtain ⟨received, errors, hhas, hwire⟩ := h.received
  have hhistory : (calls ++ c.session.accepts a).take c.sent = calls.take c.sent :=
    List.take_append_of_le_length h.sent
  have hreceived : ∃ received errors, c.client.Has Message.data received errors ∧
      received ++ c.toClient.transit =
        ((calls ++ c.session.accepts a).take c.sent).map message := by
    rw [hhistory]
    exact ⟨received, errors, hhas, hwire⟩
  rcases writes_stepOf h.session.one hsession with ⟨hnone, hflight, hcompleted⟩ |
    ⟨w, hnone, hcall, hid, hflight, hsome, hcompleted⟩ |
    ⟨ec, w, rfl, hnone, hflight, hdone, hcompleted⟩
  · rw [hnone, List.append_nil] at hsent hreceived ⊢
    refine ⟨hsent, ?_, h.sent, ?_, ?_, hreceived⟩
    · rw [hflight]
      exact h.last
    · intro hfailed hidle
      rw [Bool.or_eq_true, not_or] at hfailed
      exact h.idle hfailed.1 (hflight ▸ hidle)
    · rw [hcompleted]
      exact h.completed
  · refine ⟨hsent, ?_, ?_, fun _ hidle => absurd hidle hsome, ?_, hreceived⟩
    · intro w' hw'
      rw [hflight w' hw', hid, h.session.writes, hcall, List.length_append, List.length_singleton]
    · rw [List.length_append]
      exact Nat.le_add_right_of_le h.sent
    · rw [hcompleted]
      exact h.completed
  · rw [hnone, List.append_nil] at hsent hreceived ⊢
    have hmem : w ∈ c.session.inFlight := hflight ▸ List.mem_singleton_self w
    refine ⟨hsent, ?_, h.sent, ?_, ?_, hreceived⟩
    · intro w' hw'
      rw [hdone] at hw'
      cases hw'
    · intro hfailed _
      cases ec with
      | some ec => exact absurd (by simp [SessionAction.fails]) hfailed
      | none =>
        refine Nat.le_antisymm h.sent ?_
        rw [← h.last w hmem]
        exact htransmitted rfl w hmem
    · intro w' hw'
      rw [hcompleted] at hw'
      rcases List.mem_append.mp hw' with hw' | hw'
      · exact h.completed w' hw'
      · split_ifs at hw' with hec
        · rw [List.mem_singleton.mp hw']
          exact htransmitted (by rw [hec]) w hmem
        · cases hw'

/-- **The message in flight** comes next. -/
theorem Outbound.transmit {calls : List Write} {w : Write} {rest : List Write}
    (h : Outbound calls c) (hflight : c.session.inFlight = w :: rest) (hid : w.id = c.sent) :
    Outbound calls { c with
      sent := c.sent + 1
      toClient := { c.toClient with
        transit := c.toClient.transit ++ [⟨w.mode, w.data⟩] } } := by
  have hmem : w ∈ c.session.inFlight := hflight ▸ List.mem_cons_self
  have hcall := (h.session.inFlight w hmem).1
  rw [hid] at hcall
  obtain ⟨received, errors, hhas, hwire⟩ := h.received
  refine ⟨h.session, h.last, ?_, ?_, ?_, received, errors, hhas, ?_⟩
  · exact (List.getElem?_eq_some_iff.mp hcall).1
  · intro _ hidle
    rw [hflight] at hidle
    cases hidle
  · exact fun w' hw' => Nat.lt_succ_of_lt (h.completed w' hw')
  · rw [List.take_add_one, hcall, List.map_append, ← hwire, List.append_assoc]
    rfl

/-- **A message is read** by the client. -/
theorem Outbound.clientRead {calls : List Write} {m : Message} {transit : List Message}
    (h : Outbound calls c) (hfailed : ¬ c.client.failed)
    (htransit : c.toClient.transit = m :: transit) :
    Outbound calls { c with
      client := c.client.onReadClient m, toClient := { c.toClient with transit := transit } } := by
  obtain ⟨received, errors, hhas, hwire⟩ := h.received
  obtain rfl := hhas.failed.mpr hfailed
  refine ⟨h.session, h.last, h.sent, h.idle, h.completed, received ++ [m], 0,
    hhas.onReadClient m, ?_⟩
  rw [← hwire, htransit, List.append_assoc]
  rfl

/-- **One step** and the calls of the session. -/
theorem outbound_step {calls : List Write} {a : ConversationAction} (h : Outbound calls c)
    (hstep : c.step kind a = some c') : Outbound (calls ++ c.accepts a) c' := by
  cases a with
  | session a => exact h.session_step hstep
  | transmit =>
    simp only [accepts, List.append_nil]
    simp only [step] at hstep
    split at hstep
    · cases hstep
    · next w rest hflight =>
      split_ifs at hstep with hnext
      cases hstep
      exact h.transmit hflight hnext.1
  | connectionRead failed =>
    simp only [accepts, List.append_nil]
    have hhandler : SessionBase.Sent calls { c.session with stack := [.handler] } :=
      h.session.of_eq rfl
    simp only [step] at hstep
    split_ifs at hstep
    · cases hstep
      exact h.of_eq hhandler rfl rfl rfl rfl rfl
    · split at hstep
      · cases hstep
      · cases hstep
        exact h.of_eq hhandler rfl rfl rfl rfl rfl
  | listen =>
    simp only [accepts, List.append_nil]
    simp only [step] at hstep
    split_ifs at hstep
    cases hstep
    obtain ⟨received, errors, hhas, hwire⟩ := h.received
    exact ⟨h.session, h.last, h.sent, h.idle, h.completed, received, errors,
      ⟨hhas.empty, hhas.given, hhas.failed⟩, hwire⟩
  | clientRead failed =>
    simp only [accepts, List.append_nil]
    simp only [step] at hstep
    split_ifs at hstep with hreading hfailed hlost
    · cases hstep
      obtain ⟨received, errors, hhas, hwire⟩ := h.received
      exact ⟨h.session, h.last, h.sent, h.idle, h.completed, received, errors + 1, hhas.fail, hwire⟩
    · split at hstep
      · cases hstep
      · next m transit htransit =>
        cases hstep
        exact h.clientRead hlost htransit
  | setBinaryMode binary =>
    simp only [accepts, List.append_nil]
    cases hstep
    exact h.of_eq h.session rfl rfl rfl rfl rfl
  | writeSync data failed =>
    simp only [accepts, List.append_nil]
    simp only [step] at hstep
    split_ifs at hstep
    · cases hstep
      exact h.of_eq h.session rfl rfl rfl rfl rfl
    · cases hstep
      exact h.of_eq h.session rfl rfl rfl rfl rfl

/-! ### To the session -/

/-- What has become of the messages of the client. -/
structure Inbound (messages : List Message) (c : Conversation) : Prop where
  received : ∃ received errors, c.connection.Has id received errors ∧ errors ≤ 1 ∧
    received ++ c.toServer.transit = messages
  /-- After an error nothing is read. -/
  reading : c.connection.reading → ¬ c.connection.failed

theorem inbound_init : Inbound [] {} where
  received := ⟨[], 0, ⟨rfl, rfl, iff_of_true rfl Bool.false_ne_true⟩, Nat.zero_le 1, rfl⟩
  reading := fun _ => Bool.false_ne_true

/-- What concerns neither the connection nor the messages of the client. -/
theorem Inbound.of_eq {messages : List Message} (h : Inbound messages c)
    (hconnection : c'.connection = c.connection)
    (htransit : c'.toServer.transit = c.toServer.transit) : Inbound messages c' := by
  refine ⟨?_, ?_⟩
  · rw [hconnection, htransit]
    exact h.received
  · rw [hconnection]
    exact h.reading

/-- **A read of the connection** is done. -/
theorem Inbound.connectionRead {messages : List Message} {failed : Bool} (h : Inbound messages c)
    (hstep : c.step kind (.connectionRead failed) = some c') : Inbound messages c' := by
  simp only [step] at hstep
  split_ifs at hstep with hread hfailed
  · cases hstep
    obtain ⟨received, errors, hhas, -, hwire⟩ := h.received
    obtain rfl := hhas.failed.mpr (h.reading hread.1)
    exact ⟨⟨received, 1, hhas.fail, Nat.le_refl 1, hwire⟩, fun hreading => nomatch hreading⟩
  · split at hstep
    · cases hstep
    · next m transit htransit =>
      cases hstep
      obtain ⟨received, errors, hhas, -, hwire⟩ := h.received
      obtain rfl := hhas.failed.mpr (h.reading hread.1)
      refine ⟨⟨received ++ [m], 0, hhas.onReadConnection m, Nat.zero_le 1, ?_⟩,
        fun _ => h.reading hread.1⟩
      rw [← hwire, htransit, List.append_assoc]
      rfl

/-- **One step** and the messages of the client. -/
theorem inbound_step {messages : List Message} {a : ConversationAction} (h : Inbound messages c)
    (hstep : c.step kind a = some c') : Inbound (messages ++ c.sends a) c' := by
  cases a with
  | session a =>
    simp only [sends, List.append_nil]
    obtain ⟨session, -, -, rfl⟩ := sessionStep_eq hstep
    exact h.of_eq rfl rfl
  | transmit =>
    simp only [sends, List.append_nil]
    simp only [step] at hstep
    split at hstep
    · cases hstep
    · split_ifs at hstep
      cases hstep
      exact h.of_eq rfl rfl
  | connectionRead failed =>
    simp only [sends, List.append_nil]
    exact h.connectionRead hstep
  | listen =>
    simp only [sends, List.append_nil]
    simp only [step] at hstep
    split_ifs at hstep
    cases hstep
    exact h.of_eq rfl rfl
  | clientRead failed =>
    simp only [sends, List.append_nil]
    simp only [step] at hstep
    split_ifs at hstep
    · cases hstep
      exact h.of_eq rfl rfl
    · split at hstep
      · cases hstep
      · cases hstep
        exact h.of_eq rfl rfl
  | setBinaryMode binary =>
    simp only [sends, List.append_nil]
    cases hstep
    exact h.of_eq rfl rfl
  | writeSync data failed =>
    simp only [step] at hstep
    split_ifs at hstep with hfailed hlost
    · cases hstep
      rw [hfailed]
      simp only [sends, List.append_nil]
      exact h.of_eq rfl rfl
    · cases hstep
      rw [Bool.not_eq_true] at hfailed
      rw [hfailed]
      obtain ⟨received, errors, hhas, hle, hwire⟩ := h.received
      refine ⟨⟨received, errors, hhas, hle, ?_⟩, h.reading⟩
      rw [sends, ← hwire, List.append_assoc]

/-! ### Whole runs -/

/-- The calls of the session that returned `true`. -/
def calls (kind : SessionKind) (actions : List ConversationAction) : List Write :=
  gather (step kind) accepts {} actions

/-- The messages that the client has sent. -/
def messages (kind : SessionKind) (actions : List ConversationAction) : List Message :=
  gather (step kind) sends {} actions

/-- **A websocket conversation**, in any order of the steps of both ends and of the stream, and
whatever fails. The calls of the session that returned `true` are those whose data the client has
been given, one by one and in their order, those in transit and those that are not sent; all that
have completed are among the first two, and all are if nothing is in flight and no write has
failed. The messages of the client are those that the session has been given, with their modes, and
those in transit. Errors come behind the messages, and the session is told of one at most. -/
theorem conversation (kind : SessionKind) (actions : List ConversationAction) (c : Conversation)
    (hrun : run (step kind) {} actions = some c) :
    (∃ received waiting later errors, calls kind actions = received ++ waiting ++ later ∧
      c.client.given = received.map (fun w => some w.data) ++ List.replicate errors none ∧
      (errors = 0 ↔ ¬ c.client.failed) ∧
      c.toClient.transit = waiting.map message ∧
      (∀ w ∈ c.session.completed, w ∈ received ++ waiting) ∧
      (¬ c.toClient.sendFailed → c.session.inFlight = [] → later = [])) ∧
    ∃ received errors, messages kind actions = received ++ c.toServer.transit ∧
      c.connection.given = received.map some ++ List.replicate errors none ∧ errors ≤ 1 ∧
      (errors = 0 ↔ ¬ c.connection.failed) := by
  have hout : Outbound (calls kind actions) c :=
    run_invariant_gather (fun _ _ _ _ h hstep => outbound_step h hstep) outbound_init hrun
  have hin : Inbound (messages kind actions) c :=
    run_invariant_gather (fun _ _ _ _ h hstep => inbound_step h hstep) inbound_init hrun
  constructor
  · obtain ⟨received, errors, hhas, hwire⟩ := hout.received
    obtain ⟨read, waiting, hcut, hread, hwaiting⟩ := List.map_eq_append_iff.mp hwire.symm
    refine ⟨read, waiting, (calls kind actions).drop c.sent, errors, ?_, ?_, hhas.failed,
      hwaiting.symm, fun w hw => ?_, fun hfailed hidle => ?_⟩
    · rw [← hcut, List.take_append_drop]
    · rw [hhas.given, ← hread, List.map_map]
      rfl
    · rw [← hcut]
      refine List.mem_of_getElem? (i := w.id) ?_
      rw [List.getElem?_take_of_lt (hout.completed w hw)]
      exact hout.session.completed w hw
    · rw [hout.idle hfailed hidle, List.drop_length]
  · obtain ⟨received, errors, hhas, hle, hwire⟩ := hin.received
    exact ⟨received, errors, hwire.symm, by rw [hhas.given, Function.comp_id], hle, hhas.failed⟩

/-- A client asks, and the session answers. -/
theorem conversation_answered :
    ∃ c, run (step .base) {} [.listen, .writeSync (bytes "a") false, .connectionRead false,
        .session (.write .text (bytes "b") false), .session .return_, .transmit,
        .clientRead false, .session (.written none)] = some c ∧
      c.client.given = [some (bytes "b")] ∧
      ∃ received errors, messages .base [.listen, .writeSync (bytes "a") false,
          .connectionRead false, .session (.write .text (bytes "b") false), .session .return_,
          .transmit, .clientRead false, .session (.written none)] =
            received ++ c.toServer.transit ∧
        c.connection.given = received.map some ++ List.replicate errors none ∧ errors ≤ 1 ∧
        (errors = 0 ↔ ¬ c.connection.failed) :=
  ⟨_, rfl, rfl, (conversation .base _ _ rfl).2⟩

end Conversation

end Attender.Websocket
