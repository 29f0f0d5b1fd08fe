import Attender.Http.RequestHeader

/-!
# Sessions

`memory_session_storage`, and the `session_manager` over it. The manager of the
model keeps a history of what has been done to its storage, and an id is in the
storage exactly if by this history it has been created and neither deleted nor
cleared since (`Inv.stored`).
-/

namespace Attender.Session

open Attender.Library Attender.Http

variable {σ : Type}

/-! ### The storage -/

/-- The template parameters of `memory_session_storage`. -/
structure StorageParams (σ : Type) where
  /-- The ids of `IdGenerator`, one after the other. -/
  generateId : Nat → Bytes
  /-- `SessionT{id}`. -/
  session : Bytes → σ

/-- `memory_session_storage`. -/
structure MemorySessionStorage (σ : Type) where
  sessions : AList fun _ : Bytes => σ := ∅
  /-- How many ids the generator has given. -/
  generated : Nat := 0

namespace MemorySessionStorage

/-- `memory_session_storage::clear`. -/
def clear (s : MemorySessionStorage σ) : MemorySessionStorage σ := { s with sessions := ∅ }

/-- `memory_session_storage::create_session`. -/
def createSession (p : StorageParams σ) (s : MemorySessionStorage σ) :
    MemorySessionStorage σ × Bytes :=
  let id := p.generateId s.generated
  ({ sessions := s.sessions.insert id (p.session id), generated := s.generated + 1 }, id)

/-- `memory_session_storage::delete_session`. -/
def deleteSession (s : MemorySessionStorage σ) (id : Bytes) : MemorySessionStorage σ :=
  { s with sessions := s.sessions.erase id }

/-- `memory_session_storage::get_session`. -/
def getSession (s : MemorySessionStorage σ) (id : Bytes) : Option σ := s.sessions.lookup id

/-- `memory_session_storage::set_session`. -/
def setSession (s : MemorySessionStorage σ) (id : Bytes) (session : σ) : MemorySessionStorage σ :=
  if (s.sessions.lookup id).isSome then { s with sessions := s.sessions.insert id session } else s

end MemorySessionStorage

/-! ### The history of a storage -/

/-- What is done to a storage. -/
inductive SessionEvent where
  | created (id : Bytes)
  | deleted (id : Bytes)
  | cleared
  deriving DecidableEq

/-- The id has been created, and neither deleted nor cleared since. -/
def LiveIn (history : List SessionEvent) (id : Bytes) : Prop :=
  ∃ before since, history = before ++ .created id :: since ∧ .deleted id ∉ since ∧ .cleared ∉ since

theorem not_liveIn_nil (id : Bytes) : ¬ LiveIn [] id := by
  intro h
  obtain ⟨before, since, h, -⟩ := h
  exact List.append_ne_nil_of_right_ne_nil before (List.cons_ne_nil _ since) h.symm

/-- What one more event makes of an id. -/
theorem liveIn_concat {history : List SessionEvent} {e : SessionEvent} {id : Bytes} :
    LiveIn (history ++ [e]) id ↔
      e = .created id ∨ (LiveIn history id ∧ e ≠ .deleted id ∧ e ≠ .cleared) := by
  constructor
  · intro h
    obtain ⟨before, since, h, hdeleted, hcleared⟩ := h
    rcases List.eq_nil_or_concat since with rfl | ⟨since, e', rfl⟩
    · exact Or.inl (List.cons.inj (List.append_inj' h rfl).2).1
    · rw [List.concat_eq_append, ← List.cons_append, ← List.append_assoc] at h
      obtain ⟨hhistory, he⟩ := List.append_inj' h rfl
      obtain rfl := (List.cons.inj he).1
      simp only [List.concat_eq_append, List.mem_append, List.mem_singleton, not_or]
        at hdeleted hcleared
      exact Or.inr ⟨⟨before, since, hhistory, hdeleted.1, hcleared.1⟩, Ne.symm hdeleted.2,
        Ne.symm hcleared.2⟩
  · intro h
    rcases h with rfl | ⟨⟨before, since, rfl, hdeleted, hcleared⟩, hd, hc⟩
    · exact ⟨history, [], rfl, List.not_mem_nil, List.not_mem_nil⟩
    · refine ⟨before, since ++ [e], by simp, ?_, ?_⟩
      · simp [hdeleted, Ne.symm hd]
      · simp [hcleared, Ne.symm hc]

/-! ### The manager -/

/-- `session_manager`, with the history of its storage. -/
structure SessionManager (σ : Type) where
  storage : MemorySessionStorage σ := {}
  history : List SessionEvent := []

/-- `session_state`. -/
inductive SessionState where
  | live
  | notFound
  | noSession
  | timedOut
  deriving DecidableEq

namespace SessionManager

variable (p : StorageParams σ) (m : SessionManager σ)

/-- `session_manager::load_session`, by the cookie of a request. -/
def loadSession (sessionCookieName : Bytes) (request : RequestHeader) : SessionState :=
  match request.getCookie sessionCookieName with
  | none => .noSession
  | some id => if (m.storage.getSession id).isNone then .notFound else .live

/-- `session_manager::make_session`. -/
def makeSession : SessionManager σ × Bytes :=
  let created := m.storage.createSession p
  ({ storage := created.1, history := m.history ++ [.created created.2] }, created.2)

/-- `session_manager::terminate_session`, of a session with this id. -/
def terminateSession (id : Bytes) : SessionManager σ :=
  { storage := m.storage.deleteSession id, history := m.history ++ [.deleted id] }

/-- `session_manager::save_session`, of a session with this id. -/
def saveSession (id : Bytes) (session : σ) : SessionManager σ :=
  { m with storage := m.storage.setSession id session }

/-- `clear` of the storage. -/
def clear : SessionManager σ := { storage := m.storage.clear, history := m.history ++ [.cleared] }

end SessionManager

/-- What is done with a session manager. -/
inductive SessionOp (σ : Type) where
  | makeSession
  | terminateSession (id : Bytes)
  | saveSession (id : Bytes) (session : σ)
  | clear

/-- The manager after an operation. -/
def SessionManager.apply (p : StorageParams σ) (m : SessionManager σ) :
    SessionOp σ → SessionManager σ
  | .makeSession => (m.makeSession p).1
  | .terminateSession id => m.terminateSession id
  | .saveSession id session => m.saveSession id session
  | .clear => m.clear

namespace SessionManager

variable {p : StorageParams σ} {m : SessionManager σ}

/-- What holds between a storage and its history. -/
structure Inv (p : StorageParams σ) (m : SessionManager σ) : Prop where
  stored : ∀ id, id ∈ m.storage.sessions ↔ LiveIn m.history id
  generated : ∀ id, .created id ∈ m.history → ∃ n < m.storage.generated, p.generateId n = id

theorem inv_init : Inv p {} := by
  constructor
  · intro id
    exact iff_of_false (AList.notMem_empty id) (not_liveIn_nil id)
  · intro id hid
    cases hid

theorem Inv.makeSession (h : Inv p m) : Inv p (m.makeSession p).1 := by
  constructor
  · intro id
    rw [SessionManager.makeSession, liveIn_concat, ← h.stored]
    simp [MemorySessionStorage.createSession, eq_comm]
  · intro id hid
    rw [SessionManager.makeSession, List.mem_append, List.mem_singleton] at hid
    rcases hid with hid | hid
    · obtain ⟨n, hn, rfl⟩ := h.generated id hid
      exact ⟨n, Nat.lt_succ_of_lt hn, rfl⟩
    · exact ⟨m.storage.generated, Nat.lt_succ_self _, (SessionEvent.created.inj hid).symm⟩

theorem Inv.terminateSession (h : Inv p m) (id : Bytes) : Inv p (m.terminateSession id) := by
  constructor
  · intro id'
    rw [SessionManager.terminateSession, liveIn_concat, ← h.stored]
    simp [MemorySessionStorage.deleteSession, and_comm, eq_comm]
  · intro id' hid'
    rw [SessionManager.terminateSession, List.mem_append, List.mem_singleton] at hid'
    exact h.generated id' (hid'.resolve_right (by simp))

theorem Inv.saveSession (h : Inv p m) (id : Bytes) (session : σ) :
    Inv p (m.saveSession id session) := by
  constructor
  · intro id'
    rw [SessionManager.saveSession, ← h.stored, MemorySessionStorage.setSession]
    split_ifs with hid
    · rw [AList.lookup_isSome] at hid
      rw [AList.mem_insert]
      exact or_iff_right_of_imp fun e => e ▸ hid
    · exact Iff.rfl
  · rw [SessionManager.saveSession, MemorySessionStorage.setSession]
    split_ifs
    · exact h.generated
    · exact h.generated

theorem Inv.clear (h : Inv p m) : Inv p m.clear := by
  constructor
  · intro id
    rw [SessionManager.clear, liveIn_concat]
    simp [MemorySessionStorage.clear]
  · intro id hid
    rw [SessionManager.clear, List.mem_append, List.mem_singleton] at hid
    exact h.generated id (hid.resolve_right (by simp))

theorem Inv.apply (h : Inv p m) (op : SessionOp σ) : Inv p (m.apply p op) := by
  cases op with
  | makeSession => exact h.makeSession
  | terminateSession id => exact h.terminateSession id
  | saveSession id session => exact h.saveSession id session
  | clear => exact h.clear

/-- A generator that does not repeat itself gives a new session an id that no session has had. -/
theorem Inv.makeSession_fresh (h : Inv p m) (hp : Function.Injective p.generateId) :
    .created (m.makeSession p).2 ∉ m.history := by
  intro hmem
  obtain ⟨n, hn, hid⟩ := h.generated _ hmem
  exact hn.ne (hp hid)

/-- A new session is stored. -/
theorem makeSession_mem (p : StorageParams σ) (m : SessionManager σ) :
    (m.makeSession p).2 ∈ (m.makeSession p).1.storage.sessions :=
  AList.mem_insert _ |>.mpr (Or.inl rfl)

/-- **What a live session is**: its id has been created, and neither deleted nor cleared since. -/
theorem Inv.loadSession_eq_live_iff (h : Inv p m) (sessionCookieName : Bytes)
    (request : RequestHeader) :
    m.loadSession sessionCookieName request = .live ↔
      ∃ id, request.getCookie sessionCookieName = some id ∧ LiveIn m.history id := by
  unfold loadSession
  cases request.getCookie sessionCookieName with
  | none => simp
  | some id =>
    simp only [Option.some.injEq, exists_eq_left', ← h.stored, ← AList.lookup_isSome]
    cases hid : m.storage.sessions.lookup id with
    | none => simp [MemorySessionStorage.getSession, hid]
    | some session => simp [MemorySessionStorage.getSession, hid]

end SessionManager

end Attender.Session
