import Mathlib.Data.List.Induction
import Mathlib.Data.List.Sort
import Mathlib.Order.Basic

/-!
# Multimaps

A multimap that is iterated from its greatest key to its least. A pair is put
behind those that have the same key, so pairs of one key are iterated in the
order in which they have been put in, and the first pair that a search finds is
the one of the greatest key that was put in first.
-/

namespace Attender.Library

variable {κ α : Type*} [LinearOrder κ]

/-- `std::multimap` with `std::greater`. -/
structure Multimap (κ α : Type*) [LinearOrder κ] where
  entries : List (κ × α)
  sorted : entries.Pairwise fun x y => y.1 ≤ x.1

/-- What an insertion into a list keeps. -/
theorem pairwise_orderedInsert {γ : Type*} {r S : γ → γ → Prop} [DecidableRel r] {a : γ}
    {l : List γ} (hl : l.Pairwise S) (hfront : ∀ b ∈ l, r a b → S a b)
    (htail : ∀ b c, r a b → S b c → S a c) (hback : ∀ b ∈ l, ¬ r a b → S b a) :
    (l.orderedInsert r a).Pairwise S := by
  induction l with
  | nil => exact List.pairwise_singleton S a
  | cons b l ih =>
    obtain ⟨hb, hl'⟩ := List.pairwise_cons.mp hl
    by_cases hab : r a b
    · rw [List.orderedInsert_cons, if_pos hab]
      refine List.pairwise_cons.mpr ⟨?_, hl⟩
      intro c hc
      rcases List.mem_cons.mp hc with rfl | hc
      · exact hfront c List.mem_cons_self hab
      · exact htail b c hab (hb c hc)
    · rw [List.orderedInsert_cons, if_neg hab]
      refine List.pairwise_cons.mpr ⟨?_, ?_⟩
      · intro c hc
        rcases (List.mem_orderedInsert r).mp hc with rfl | hc
        · exact hback b List.mem_cons_self hab
        · exact hb c hc
      · exact ih hl' (fun c hc => hfront c (List.mem_cons_of_mem b hc))
          (fun c hc => hback c (List.mem_cons_of_mem b hc))

namespace Multimap

/-- A multimap without entries. -/
def empty : Multimap κ α := ⟨[], List.Pairwise.nil⟩

/-- `multimap::emplace`: the pair is put behind those whose key is not less. -/
def emplace (m : Multimap κ α) (kv : κ × α) : Multimap κ α where
  entries := m.entries.orderedInsert (fun x y => y.1 < x.1) kv
  sorted := pairwise_orderedInsert m.sorted (fun _ _ h => le_of_lt h)
    (fun _ _ hab hbc => hbc.trans (le_of_lt hab)) (fun _ _ h => not_lt.mp h)

@[simp] theorem entries_emplace (m : Multimap κ α) (kv : κ × α) :
    (m.emplace kv).entries = m.entries.orderedInsert (fun x y => y.1 < x.1) kv := rfl

/-- The multimap of pairs put in one after another. -/
def ofList (kvs : List (κ × α)) : Multimap κ α := kvs.foldl emplace empty

theorem ofList_concat (kvs : List (κ × α)) (kv : κ × α) :
    ofList (kvs ++ [kv]) = (ofList kvs).emplace kv := by
  rw [ofList, ofList, List.foldl_append, List.foldl_cons, List.foldl_nil]

/-- A pair with the time at which it was put in comes before another. -/
def Before (x y : (κ × α) × Nat) : Prop := y.1.1 < x.1.1 ∨ y.1.1 = x.1.1 ∧ x.2 < y.2

/-- The order of the entries: by key, and under one key by time. -/
theorem exists_timed (kvs : List (κ × α)) :
    ∃ l : List ((κ × α) × Nat), l.Perm kvs.zipIdx ∧ l.map Prod.fst = (ofList kvs).entries ∧
      l.Pairwise Before := by
  induction kvs using List.reverseRecOn with
  | nil => exact ⟨[], .refl _, rfl, .nil⟩
  | append_singleton kvs kv ih =>
    obtain ⟨l, hperm, hentries, hbefore⟩ := ih
    refine ⟨l.orderedInsert (fun x y => y.1.1 < x.1.1) (kv, kvs.length), ?_, ?_, ?_⟩
    · rw [List.zipIdx_append, List.zipIdx_singleton, Nat.zero_add]
      exact (List.perm_orderedInsert _ _ _).trans
        ((hperm.cons _).trans (List.perm_append_singleton _ _).symm)
    · rw [ofList_concat, entries_emplace, ← hentries]
      exact List.map_orderedInsert _ _ _ _ _ (fun _ _ => Iff.rfl) (fun _ _ => Iff.rfl)
    · refine pairwise_orderedInsert hbefore (fun _ _ h => Or.inl h) ?_ ?_
      · rintro b c hab (hbc | ⟨hbc, -⟩)
        · exact Or.inl (hbc.trans hab)
        · exact Or.inl (hbc ▸ hab)
      · intro b hb hab
        have htime : b.2 < kvs.length := by
          obtain ⟨-, h, -⟩ := List.mem_zipIdx (hperm.mem_iff.mp hb)
          simpa using h
        rcases lt_or_eq_of_le (not_lt.mp hab) with hlt | heq
        · exact Or.inl hlt
        · exact Or.inr ⟨heq, htime⟩

/-- **What a search finds first**: among the pairs that `p` accepts, one of the greatest key, and of
those the one that was put in first. -/
theorem find?_ofList_eq_some_iff {kvs : List (κ × α)} {p : κ × α → Bool} {kv : κ × α} :
    (ofList kvs).entries.find? p = some kv ↔
      ∃ i : Nat, kvs[i]? = some kv ∧ p kv ∧ ∀ (j : Nat) (kv' : κ × α), kvs[j]? = some kv' → p kv' →
        kv'.1 < kv.1 ∨ kv'.1 = kv.1 ∧ i ≤ j := by
  obtain ⟨l, hperm, hentries, hbefore⟩ := exists_timed kvs
  have hmem : ∀ {i : Nat} {kv : κ × α}, (kv, i) ∈ l ↔ kvs[i]? = some kv := by
    intro i kv
    rw [hperm.mem_iff, List.mem_zipIdx_iff_getElem?]
  have hfound : ∀ {kv : κ × α}, (ofList kvs).entries.find? p = some kv →
      ∃ i : Nat, kvs[i]? = some kv ∧ p kv ∧ ∀ (j : Nat) (kv' : κ × α), kvs[j]? = some kv' → p kv' →
        kv'.1 < kv.1 ∨ kv'.1 = kv.1 ∧ i ≤ j := by
    intro kv h
    rw [← hentries, List.find?_map, Option.map_eq_some_iff] at h
    obtain ⟨⟨kv, i⟩, h, rfl⟩ := h
    obtain ⟨hp, before, after, rfl, hrejected⟩ := List.find?_eq_some_iff_append.mp h
    refine ⟨i, hmem.mp (by simp), hp, ?_⟩
    intro j kv' hj hp'
    rcases List.mem_append.mp (hmem.mpr hj) with hfront | hback
    · have := hrejected _ hfront
      simp [hp'] at this
    · rcases List.mem_cons.mp hback with heq | hback
      · cases heq
        exact Or.inr ⟨rfl, le_refl i⟩
      · have hrest := (List.pairwise_append.mp hbefore).2.1
        rcases (List.pairwise_cons.mp hrest).1 _ hback with hlt | ⟨heq, htime⟩
        · exact Or.inl hlt
        · exact Or.inr ⟨heq, htime.le⟩
  refine ⟨hfound, ?_⟩
  rintro ⟨i, hi, hp, hbest⟩
  have hsome : ((ofList kvs).entries.find? p).isSome := by
    rw [List.find?_isSome, ← hentries]
    exact ⟨kv, List.mem_map_of_mem (hmem.mpr hi), hp⟩
  obtain ⟨kv', hkv'⟩ := Option.isSome_iff_exists.mp hsome
  obtain ⟨j, hj, hp', hbest'⟩ := hfound hkv'
  have hij : i = j := by
    rcases hbest j kv' hj hp' with hlt | ⟨heq, hle⟩ <;>
      rcases hbest' i kv hi hp with hlt' | ⟨heq', hle'⟩
    · exact absurd hlt' hlt.asymm
    · exact absurd heq'.symm hlt.ne
    · exact absurd heq.symm hlt'.ne
    · exact le_antisymm hle hle'
  subst hij
  rw [hkv', ← hj, hi]

theorem mem_entries_ofList {kvs : List (κ × α)} {kv : κ × α} :
    kv ∈ (ofList kvs).entries ↔ kv ∈ kvs := by
  obtain ⟨l, hperm, hentries, -⟩ := exists_timed kvs
  rw [← hentries, (hperm.map Prod.fst).mem_iff, List.zipIdx_map_fst]

/-- A search finds nothing exactly if nothing that was put in is accepted. -/
theorem find?_ofList_eq_none_iff {kvs : List (κ × α)} {p : κ × α → Bool} :
    (ofList kvs).entries.find? p = none ↔ ∀ kv ∈ kvs, ¬ p kv := by
  rw [List.find?_eq_none]
  exact forall_congr' fun kv => by rw [mem_entries_ofList]

end Multimap

end Attender.Library
