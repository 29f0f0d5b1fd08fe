import Mathlib.Data.List.AList
import Mathlib.Data.List.Induction
import Mathlib.Logic.Function.Basic

/-!
# Maps filled from pairs

What a map holds after pairs have been inserted one after another, and a function
after it has been written to at some places: the last of a key wins.
-/

namespace Attender.Library

variable {α β : Type*} [DecidableEq α]

/-- The pairs inserted, from the first to the last. -/
def insertAll (m : AList fun _ : α => β) (kvs : List (α × β)) : AList fun _ : α => β :=
  kvs.foldl (fun m kv => m.insert kv.1 kv.2) m

@[simp] theorem insertAll_nil (m : AList fun _ : α => β) : insertAll m [] = m := rfl

@[simp] theorem insertAll_cons (m : AList fun _ : α => β) (kv : α × β) (kvs : List (α × β)) :
    insertAll m (kv :: kvs) = insertAll (m.insert kv.1 kv.2) kvs := rfl

/-- A key that no pair has keeps its value. -/
theorem lookup_insertAll_of_not_mem {m : AList fun _ : α => β} {kvs : List (α × β)} {k : α}
    (hk : k ∉ kvs.map Prod.fst) : (insertAll m kvs).lookup k = m.lookup k := by
  induction kvs generalizing m with
  | nil => rfl
  | cons kv kvs ih =>
    rw [List.map_cons, List.mem_cons, not_or] at hk
    rw [insertAll_cons, ih hk.2, AList.lookup_insert_ne hk.1]

/-- A key that one pair has gets the value of the pair. -/
theorem lookup_insertAll_of_mem {m : AList fun _ : α => β} {kvs : List (α × β)}
    (hnodup : (kvs.map Prod.fst).Nodup) {kv : α × β} (hkv : kv ∈ kvs) :
    (insertAll m kvs).lookup kv.1 = some kv.2 := by
  induction kvs generalizing m with
  | nil => exact absurd hkv List.not_mem_nil
  | cons kv' kvs ih =>
    rw [List.map_cons, List.nodup_cons] at hnodup
    rw [insertAll_cons]
    rcases List.mem_cons.mp hkv with rfl | hkv
    · rw [lookup_insertAll_of_not_mem hnodup.1, AList.lookup_insert]
    · exact ih hnodup.2 hkv

/-- **Nothing else is there**: what is under a key was there, or comes from a pair. -/
theorem mem_of_lookup_insertAll {m : AList fun _ : α => β} {kvs : List (α × β)} {k : α} {v : β}
    (h : (insertAll m kvs).lookup k = some v) : m.lookup k = some v ∨ (k, v) ∈ kvs := by
  induction kvs generalizing m with
  | nil => exact Or.inl h
  | cons kv kvs ih =>
    rw [insertAll_cons] at h
    rcases ih h with h | h
    · by_cases hk : k = kv.1
      · rw [hk, AList.lookup_insert, Option.some.injEq] at h
        exact Or.inr (by rw [hk, ← h]; exact List.mem_cons_self ..)
      · rw [AList.lookup_insert_ne hk] at h
        exact Or.inl h
    · exact Or.inr (List.mem_cons_of_mem kv h)

/-- The last pair of each key. -/
def lasts : List (α × β) → List (α × β)
  | [] => []
  | kv :: kvs => if kv.1 ∈ kvs.map Prod.fst then lasts kvs else kv :: lasts kvs

theorem mem_of_mem_lasts {kvs : List (α × β)} {kv : α × β} (h : kv ∈ lasts kvs) : kv ∈ kvs := by
  induction kvs with
  | nil => exact h
  | cons kv' kvs ih =>
    rw [lasts] at h
    split_ifs at h
    · exact List.mem_cons_of_mem _ (ih h)
    · rcases List.mem_cons.mp h with rfl | h
      · exact List.mem_cons_self
      · exact List.mem_cons_of_mem _ (ih h)

/-- **The last pair of a key counts**. -/
theorem lookup_insertAll_eq_some_iff {m : AList fun _ : α => β} {kvs : List (α × β)} {k : α}
    {v : β} :
    (insertAll m kvs).lookup k = some v ↔
      (k, v) ∈ lasts kvs ∨ k ∉ kvs.map Prod.fst ∧ m.lookup k = some v := by
  induction kvs generalizing m with
  | nil => simp [lasts]
  | cons kv kvs ih =>
    rw [insertAll_cons, ih, lasts, List.map_cons, List.mem_cons, not_or]
    by_cases hk : k = kv.1
    · subst hk
      rw [AList.lookup_insert]
      split_ifs with hlater
      · simp [hlater]
      · have hnot : (kv.1, v) ∉ lasts kvs := by
          intro hmem
          exact hlater (List.mem_map.mpr ⟨_, mem_of_mem_lasts hmem, rfl⟩)
        simp [hlater, hnot, Prod.ext_iff, eq_comm]
    · have hne : ∀ v, (k, v) ≠ kv := by
        rintro v rfl
        exact hk rfl
      rw [AList.lookup_insert_ne hk, and_iff_right hk]
      split_ifs
      · rfl
      · rw [List.mem_cons, or_iff_right (hne v)]

/-- Pairs of different keys may be inserted apart. -/
theorem lookup_insertAll_append {kvs kvs' : List (α × β)}
    (hnodup : ((kvs ++ kvs').map Prod.fst).Nodup) (k : α) :
    (insertAll ∅ (kvs ++ kvs')).lookup k =
      ((insertAll ∅ kvs).lookup k).or ((insertAll ∅ kvs').lookup k) := by
  have happend : insertAll ∅ (kvs ++ kvs') = insertAll (insertAll ∅ kvs) kvs' :=
    List.foldl_append ..
  rw [List.map_append, List.nodup_append] at hnodup
  obtain ⟨-, hnodup', hdisjoint⟩ := hnodup
  by_cases hk : k ∈ kvs'.map Prod.fst
  · obtain ⟨kv, hkv, rfl⟩ := List.mem_map.mp hk
    have hnone : (insertAll ∅ kvs).lookup kv.1 = none := by
      rw [lookup_insertAll_of_not_mem, AList.lookup_empty]
      exact fun hmem => hdisjoint _ hmem _ hk rfl
    rw [happend, lookup_insertAll_of_mem hnodup' hkv, lookup_insertAll_of_mem hnodup' hkv, hnone,
      Option.none_or]
  · rw [happend, lookup_insertAll_of_not_mem hk, lookup_insertAll_of_not_mem hk,
      AList.lookup_empty, Option.or_none]

/-- The map has at most as many keys as pairs have been inserted. -/
theorem length_keys_insertAll (m : AList fun _ : α => β) (kvs : List (α × β)) :
    (insertAll m kvs).keys.length ≤ m.keys.length + kvs.length := by
  induction kvs generalizing m with
  | nil => rw [insertAll_nil, List.length_nil, Nat.add_zero]
  | cons kv kvs ih =>
    have hinsert : (m.insert kv.1 kv.2).keys.length ≤ m.keys.length + 1 := by
      rw [AList.keys_insert, List.length_cons]
      exact Nat.succ_le_succ (List.length_erase_le ..)
    have htail := ih (m.insert kv.1 kv.2)
    rw [insertAll_cons, List.length_cons]
    omega

/-! ### Iteration -/

/-- The pairs of a map in an order in which it may be iterated. -/
def Iterates (m : AList fun _ : α => β) (order : List (α × β)) : Prop :=
  order.Perm (m.entries.map fun e => (e.1, e.2))

variable {m : AList fun _ : α => β} {order : List (α × β)}

theorem Iterates.mem_iff (h : Iterates m order) {kv : α × β} :
    kv ∈ order ↔ m.lookup kv.1 = some kv.2 := by
  rw [List.Perm.mem_iff h, List.mem_map, ← Option.mem_def, AList.mem_lookup_iff]
  constructor
  · rintro ⟨e, he, rfl⟩
    exact he
  · intro he
    exact ⟨_, he, rfl⟩

omit [DecidableEq α] in
/-- The keys of a map are iterated once each. -/
theorem Iterates.keys_perm (h : Iterates m order) : (order.map Prod.fst).Perm m.keys := by
  refine (h.map Prod.fst).trans (.of_eq ?_)
  rw [List.map_map]
  rfl

omit [DecidableEq α] in
theorem Iterates.nodup (h : Iterates m order) : (order.map Prod.fst).Nodup :=
  h.keys_perm.nodup_iff.mpr m.keys_nodup

/-- A map filled from what another is iterated over is the same map. -/
theorem Iterates.lookup_insertAll (h : Iterates m order) (k : α) :
    (insertAll ∅ order).lookup k = m.lookup k := by
  by_cases hk : k ∈ order.map Prod.fst
  · obtain ⟨kv, hkv, rfl⟩ := List.mem_map.mp hk
    rw [lookup_insertAll_of_mem h.nodup hkv, h.mem_iff.mp hkv]
  · have hm : k ∉ m := fun hmem => hk (h.keys_perm.mem_iff.mpr (AList.mem_keys.mp hmem))
    rw [lookup_insertAll_of_not_mem hk, AList.lookup_empty, AList.lookup_eq_none.mpr hm]

/-! ### Functions that are written to -/

/-- A function after some writes, from the first to the last. -/
def writeAll (f : α → β) (ws : List (α × β)) : α → β :=
  ws.foldl (fun f w => Function.update f w.1 w.2) f

/-- What the last of the writes to a place has left there. -/
def lastWritten (ws : List (α × β)) (a : α) : Option β :=
  (ws.filter fun w => w.1 = a).getLast?.map Prod.snd

/-- **The last write to a place counts**, and the places do not share anything. -/
theorem writeAll_apply (f : α → β) (ws : List (α × β)) (a : α) :
    writeAll f ws a = (lastWritten ws a).getD (f a) := by
  induction ws using List.reverseRecOn with
  | nil => rfl
  | append_singleton ws w ih =>
    rw [writeAll, List.foldl_append, List.foldl_cons, List.foldl_nil, lastWritten,
      List.filter_append]
    by_cases hw : w.1 = a
    · subst hw
      simp
    · have hother : [w].filter (fun w => decide (w.1 = a)) = [] := by simp [hw]
      rw [Function.update_of_ne (Ne.symm hw), hother, List.append_nil]
      exact ih

end Attender.Library
