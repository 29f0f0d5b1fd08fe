import Attender.Http.RequestHandler
import Attender.Library.Maps

/-!
# Encoded queries

What a handler reads from a query in which every byte of the keys and values is
percent-encoded. The target is cut at its last `?` as it comes, but the query is
decoded before it is split, so a separator in a key or a value separates too.
-/

namespace Attender.Http

open Attender.Library

/-- The text of a query: the pairs as `key=value`, with `&` between every two. -/
def queryText (kvs : List (Bytes × Bytes)) : Bytes := join 38 (kvs.map fun kv => kv.1 ++ 61 :: kv.2)

/-- The pairs with every byte of their keys and values percent-encoded. -/
def EncodedPairs : List (Bytes × Bytes) → List (Bytes × Bytes) → Prop :=
  List.Forall₂ fun kv e => FullyEncoded kv.1 e.1 ∧ FullyEncoded kv.2 e.2

/-- The query holds the pairs, and nothing else but for the empty key. -/
def HoldsPairs (h : RequestHeader) (kvs : List (Bytes × Bytes)) : Prop :=
  (∀ kv ∈ kvs, h.getQuery kv.1 = some kv.2) ∧
    ∀ key, key ≠ [] → key ∉ kvs.map Prod.fst → h.getQuery key = none

/-- No key holds a separator of pairs or the one of a key and its value, and no value holds a
separator of pairs. -/
def FreeOfSeparators (kvs : List (Bytes × Bytes)) : Prop :=
  ∀ kv ∈ kvs, (∀ b ∈ kv.1, RequestHeader.isQuerySeparator b = false ∧ b ≠ 61) ∧
    ∀ b ∈ kv.2, RequestHeader.isQuerySeparator b = false

/-! ### Decoding -/

theorem decodeUrl_queryText {kvs es : List (Bytes × Bytes)} (h : EncodedPairs kvs es) :
    RequestHeader.decodeUrl (queryText es) = some (queryText kvs) := by
  have hpair : ∀ {kv e : Bytes × Bytes}, FullyEncoded kv.1 e.1 ∧ FullyEncoded kv.2 e.2 →
      ∀ encoded, RequestHeader.decodeUrl ((e.1 ++ 61 :: e.2) ++ encoded) =
        (RequestHeader.decodeUrl encoded).map fun decoded => (kv.1 ++ 61 :: kv.2) ++ decoded := by
    intro kv e he encoded
    rw [List.append_assoc, RequestHeader.decodeUrl_fullyEncoded he.1, List.cons_append,
      RequestHeader.decodeUrl_cons (by decide), RequestHeader.decodeUrl_fullyEncoded he.2,
      Option.map_map, Option.map_map]
    congr 1
    funext decoded
    simp
  induction h with
  | nil => rfl
  | @cons kv e kvs es he hes ih =>
    cases hes with
    | nil =>
      have h := hpair he []
      rw [List.append_nil] at h
      simpa [queryText, RequestHeader.decodeUrl] using h
    | cons he' hes' =>
      simp only [queryText, List.map_cons, join_cons_cons] at ih ⊢
      rw [hpair he, RequestHeader.decodeUrl_cons (by decide), ih]
      rfl

theorem not_mem_queryText {kvs es : List (Bytes × Bytes)} (h : EncodedPairs kvs es) :
    63 ∉ queryText es := by
  have hpair : ∀ {kv e : Bytes × Bytes}, FullyEncoded kv.1 e.1 ∧ FullyEncoded kv.2 e.2 →
      63 ∉ e.1 ++ 61 :: e.2 := by
    intro kv e he hmem
    rw [List.mem_append, List.mem_cons] at hmem
    rcases hmem with hmem | hmem | hmem
    · exact he.1.not_mem (by decide) (by decide) hmem
    · exact absurd hmem (by decide)
    · exact he.2.not_mem (by decide) (by decide) hmem
  induction h with
  | nil => exact List.not_mem_nil
  | cons he hes ih =>
    cases hes with
    | nil => simpa [queryText] using hpair he
    | cons he' hes' =>
      simp only [queryText, List.map_cons, join_cons_cons] at ih ⊢
      rw [List.mem_append, List.mem_cons, not_or, not_or]
      exact ⟨hpair he, by decide, ih⟩

/-- What the header of the target holds: the pairs of the decoded query. -/
theorem requestHeader_queryText {im : RequestHeaderIntermediate} {path : Bytes}
    {kvs es : List (Bytes × Bytes)} (hpath : 37 ∉ path) (henc : EncodedPairs kvs es)
    (hurl : im.url = path ++ 63 :: queryText es) :
    im.requestHeader =
      some { im.toRequestHeader.parseQuery (queryText kvs) with path := path } := by
  have hcut : cutLast 63 im.url = some (path, queryText es) :=
    cutLast_eq_some_iff.mpr ⟨hurl, not_mem_queryText henc⟩
  have hdecoded : RequestHeader.decodeUrl path = some path := by
    have h := RequestHeader.decodeUrl_append hpath []
    simpa [RequestHeader.decodeUrl] using h
  rw [RequestHeaderIntermediate.requestHeader, RequestHeader.parseUrl]
  simp only [show im.toRequestHeader.url = im.url from rfl, hcut, decodeUrl_queryText henc,
    hdecoded, Option.bind_some, Option.map_some]

/-! ### Splitting -/

/-- The key and the value of a pair, as `parse_query` finds them. -/
def queryPair (pair : Bytes) : Bytes × Bytes := (cut 61 pair).getD (pair, [])

theorem addQuery_eq (query : StringMap) (pair : Bytes) :
    RequestHeader.addQuery query pair = query.insert (queryPair pair).1 (queryPair pair).2 := by
  rw [RequestHeader.addQuery, queryPair]
  cases cut 61 pair <;> rfl

theorem parseQuery_query (h : RequestHeader) (query : Bytes) :
    (h.parseQuery query).query =
      insertAll h.query ((split RequestHeader.isQuerySeparator query).map queryPair) := by
  have hadd : RequestHeader.addQuery = fun m pair =>
      m.insert (queryPair pair).1 (queryPair pair).2 := by
    funext m pair
    exact addQuery_eq m pair
  rw [insertAll, List.foldl_map, RequestHeader.parseQuery, hadd]

/-- The key of a pair holds no `=`, and both parts come from the pair. -/
theorem queryPair_mem {pair : Bytes} {b : Byte} :
    (b ∈ (queryPair pair).1 → b ∈ pair ∧ b ≠ 61) ∧ (b ∈ (queryPair pair).2 → b ∈ pair) := by
  rw [queryPair]
  cases hc : cut 61 pair with
  | none =>
    rw [Option.getD_none]
    have hn := cut_eq_none_iff.mp hc
    exact ⟨fun hb => ⟨hb, fun h => hn (h ▸ hb)⟩, fun hb => absurd hb List.not_mem_nil⟩
  | some lr =>
    rw [Option.getD_some]
    obtain ⟨rfl, hn⟩ := cut_eq_some_iff.mp hc
    exact ⟨fun hb => ⟨by simp [hb], fun h => hn (h ▸ hb)⟩, fun hb => by simp [hb]⟩

theorem queryPair_text {kv : Bytes × Bytes} (hk : 61 ∉ kv.1) :
    queryPair (kv.1 ++ 61 :: kv.2) = kv := by
  rw [queryPair, cut_eq_some_iff.mpr ⟨rfl, hk⟩, Option.getD_some]

/-- Pairs without separators are found again. -/
theorem split_queryText {kvs : List (Bytes × Bytes)} (hne : kvs ≠ []) (h : FreeOfSeparators kvs) :
    (split RequestHeader.isQuerySeparator (queryText kvs)).map queryPair = kvs := by
  rw [queryText, split_join (by decide) (by simpa using hne)]
  · rw [List.map_map]
    refine (List.map_congr_left ?_).trans (List.map_id kvs)
    intro kv hkv
    exact queryPair_text fun hmem => ((h kv hkv).1 61 hmem).2 rfl
  · intro s hs b hb
    obtain ⟨kv, hkv, rfl⟩ := List.mem_map.mp hs
    rw [List.mem_append, List.mem_cons] at hb
    rcases hb with hb | rfl | hb
    · exact ((h kv hkv).1 b hb).1
    · decide
    · exact (h kv hkv).2 b hb

/-- What is found under a key holds no separator. -/
theorem free_of_getQuery {h : RequestHeader} (hempty : h.query = ∅) {query key value : Bytes}
    (hget : (h.parseQuery query).getQuery key = some value) :
    FreeOfSeparators [(key, value)] := by
  rw [RequestHeader.getQuery, parseQuery_query, hempty] at hget
  rcases mem_of_lookup_insertAll hget with hnone | hmem
  · rw [AList.lookup_empty] at hnone
    cases hnone
  · obtain ⟨pair, hpair, hkv⟩ := List.mem_map.mp hmem
    rw [← hkv]
    intro kv hkv'
    rw [List.mem_singleton] at hkv'
    subst hkv'
    refine ⟨?_, ?_⟩
    · intro b hb
      obtain ⟨hb, hne⟩ := queryPair_mem.1 hb
      exact ⟨(mem_of_mem_split hpair hb).2, hne⟩
    · intro b hb
      exact (mem_of_mem_split hpair (queryPair_mem.2 hb)).2

/-! ### Encoded queries -/

/-- **What becomes of an encoded query**: the pairs are found again exactly if no separator is
among their bytes. -/
theorem encoded_query_iff (im : RequestHeaderIntermediate) (path : Bytes)
    (kvs es : List (Bytes × Bytes)) (hpath : 63 ∉ path ∧ 37 ∉ path)
    (hdistinct : (kvs.map Prod.fst).Nodup) (henc : EncodedPairs kvs es)
    (hurl : im.url = path ++ 63 :: queryText es) :
    (∃ h, im.requestHeader = some h ∧ HoldsPairs h kvs) ↔ FreeOfSeparators kvs := by
  rw [requestHeader_queryText hpath.2 henc hurl]
  simp only [Option.some.injEq, exists_eq_left']
  have hempty : im.toRequestHeader.query = ∅ := rfl
  constructor
  · rintro ⟨hpairs, -⟩
    intro kv hkv
    exact free_of_getQuery hempty (hpairs kv hkv) kv (List.mem_singleton_self kv)
  · intro hfree
    have hquery : ∀ key, RequestHeader.getQuery
        { im.toRequestHeader.parseQuery (queryText kvs) with path := path } key =
          (insertAll ∅
            ((split RequestHeader.isQuerySeparator (queryText kvs)).map queryPair)).lookup key := by
      intro key
      rw [← hempty, ← parseQuery_query]
      rfl
    by_cases hne : kvs = []
    · subst hne
      refine ⟨fun kv hkv => absurd hkv List.not_mem_nil, ?_⟩
      intro key hkey _
      rw [hquery, lookup_insertAll_of_not_mem, AList.lookup_empty]
      simpa [queryText, split, queryPair, cut] using hkey
    · simp only [HoldsPairs, hquery, split_queryText hne hfree]
      refine ⟨fun kv hkv => lookup_insertAll_of_mem hdistinct hkv, ?_⟩
      intro key _ hkey
      rw [lookup_insertAll_of_not_mem hkey, AList.lookup_empty]

/-- The request for `/a?x=1`, with the key and the value encoded. -/
theorem encoded_query_iff_x :
    (∃ h, RequestHeaderIntermediate.requestHeader { url := bytes "/a?%78=%31" } = some h ∧
      HoldsPairs h [(bytes "x", bytes "1")]) ↔ FreeOfSeparators [(bytes "x", bytes "1")] := by
  refine encoded_query_iff { url := bytes "/a?%78=%31" } (bytes "/a") _
    [(bytes "%78", bytes "%31")] (by decide) (by decide) ?_ (by decide)
  refine .cons ⟨?_, ?_⟩ .nil
  · exact .escaped (x := 7) (y := 8) (by decide) (by decide) (by decide) .nil
  · exact .escaped (x := 3) (y := 1) (by decide) (by decide) (by decide) .nil

/-- A key `&` with the value `1`: the handler does not find it. -/
theorem not_encoded_query_ampersand :
    ¬ ∀ (im : RequestHeaderIntermediate) (path : Bytes) (kvs es : List (Bytes × Bytes)),
      63 ∉ path ∧ 37 ∉ path → (∀ kv ∈ kvs, kv.1 ≠ [] ∧ kv.2 ≠ []) → (kvs.map Prod.fst).Nodup →
      EncodedPairs kvs es → im.url = path ++ 63 :: queryText es →
      ∃ h, im.requestHeader = some h ∧ HoldsPairs h kvs := by
  intro hall
  have henc : EncodedPairs [(bytes "&", bytes "1")] [(bytes "%26", bytes "%31")] := by
    refine .cons ⟨?_, ?_⟩ .nil
    · exact .escaped (x := 2) (y := 6) (by decide) (by decide) (by decide) .nil
    · exact .escaped (x := 3) (y := 1) (by decide) (by decide) (by decide) .nil
  obtain ⟨h, he, hpairs, -⟩ := hall { url := bytes "/a?%26=%31" } (bytes "/a")
    [(bytes "&", bytes "1")] _ (by decide) (by decide) (by decide) henc (by decide)
  have hnone : (RequestHeaderIntermediate.requestHeader { url := bytes "/a?%26=%31" }).map
      (fun h => h.getQuery (bytes "&")) = some none := by decide
  rw [he, Option.map_some, hpairs _ (List.mem_singleton_self _)] at hnone
  cases hnone

end Attender.Http
