import Attender.Http.FieldCase

/-!
# Cookie lines

What a request keeps of its cookies. They are written as pairs, on as many lines
as one likes and between other fields. A line is cut at its colon, the value
loses its leading blanks and is split at the semicolons, and every token loses
its leading blanks and is cut at its first `=`; the pairs of the lines are merged.
-/

namespace Attender.Http

open Attender.Library HeaderSection

/-! ### The text of cookies -/

/-- A name and a value that can be written as a cookie. -/
structure IsCookiePair (c : Bytes × Bytes) : Prop where
  noEquals : 61 ∉ c.1
  nameNoSemicolon : 59 ∉ c.1
  nameUnbroken : ¬ CRLF <:+: c.1
  start : ∀ b ∈ c.1.head?, isSpace b = false
  valueNoSemicolon : 59 ∉ c.2
  valueUnbroken : ¬ CRLF <:+: c.2

/-- A cookie as it is written. -/
def pairText (c : Bytes × Bytes) : Bytes := c.1 ++ 61 :: c.2

/-- Cookies joined by `;` or `; `. -/
inductive PairsText : List (Bytes × Bytes) → Bytes → Prop where
  | single (c : Bytes × Bytes) : PairsText [c] (pairText c)
  | cons (c : Bytes × Bytes) {cs : List (Bytes × Bytes)} {sep text : Bytes}
      (hsep : sep = bytes ";" ∨ sep = bytes "; ") (h : PairsText cs text) :
      PairsText (c :: cs) (pairText c ++ sep ++ text)

/-- A line of cookies, with any letters in its name and any blanks behind the colon. -/
def CookieLine (cs : List (Bytes × Bytes)) (l : Bytes) : Prop :=
  ∃ name blanks text, toLowerCopy name = bytes "cookie" ∧
    ((∀ b ∈ blanks, isSpace b = true) ∧ ¬ CRLF <:+: blanks) ∧ PairsText cs text ∧
      l = name ++ 58 :: (blanks ++ text)

/-- The cookies on some lines, in order, and the other lines. -/
inductive Arranged : List (Bytes × Bytes) → List Bytes → List Bytes → Prop where
  | nil : Arranged [] [] []
  | cookies {cs cs' : List (Bytes × Bytes)} {l : Bytes} {others lines : List Bytes}
      (hl : CookieLine cs l) (h : Arranged cs' others lines) :
      Arranged (cs ++ cs') others (l :: lines)
  | field {cs : List (Bytes × Bytes)} {l : Bytes} {others lines : List Bytes}
      (hl : IsFieldLine l) (hcookie : ¬ IsCookieLine l) (h : Arranged cs others lines) :
      Arranged cs (l :: others) (l :: lines)

section Pairs

variable {c : Bytes × Bytes} {cs : List (Bytes × Bytes)} {text : Bytes}

/-- A cookie does not begin with a blank or a semicolon. -/
theorem IsCookiePair.pairText_eq_cons (h : IsCookiePair c) :
    ∃ b t, pairText c = b :: t ∧ isSpace b = false ∧ b ≠ 59 := by
  have hstart := h.start
  have hsemicolon := h.nameNoSemicolon
  rw [pairText]
  cases hname : c.1 with
  | nil => exact ⟨61, c.2, rfl, by decide, by decide⟩
  | cons b t =>
    rw [hname] at hstart hsemicolon
    exact ⟨b, t ++ 61 :: c.2, rfl, hstart b rfl, fun hb => hsemicolon (hb ▸ List.mem_cons_self ..)⟩

theorem PairsText.eq_cons (h : PairsText cs text) (hcs : ∀ c ∈ cs, IsCookiePair c) :
    ∃ b t, text = b :: t ∧ isSpace b = false ∧ b ≠ 59 := by
  cases h with
  | single c => exact (hcs c (List.mem_singleton_self c)).pairText_eq_cons
  | @cons c cs sep text hsep h =>
    obtain ⟨b, t, hpair, hb⟩ := (hcs c (List.mem_cons_self ..)).pairText_eq_cons
    exact ⟨b, t ++ sep ++ text, by rw [hpair]; rfl, hb⟩

theorem IsCookiePair.pairText_unbroken (h : IsCookiePair c) : ¬ CRLF <:+: pairText c := by
  rw [pairText, pair_infix_append_cons (by decide) (by decide)]
  exact not_or.mpr ⟨h.nameUnbroken, h.valueUnbroken⟩

theorem IsCookiePair.not_mem_pairText (h : IsCookiePair c) : 59 ∉ pairText c := by
  rw [pairText, List.mem_append, List.mem_cons]
  rintro (hname | hequals | hvalue)
  · exact h.nameNoSemicolon hname
  · exact absurd hequals (by decide)
  · exact h.valueNoSemicolon hvalue

theorem PairsText.unbroken (h : PairsText cs text) (hcs : ∀ c ∈ cs, IsCookiePair c) :
    ¬ CRLF <:+: text := by
  induction h with
  | single c => exact (hcs c (List.mem_singleton_self c)).pairText_unbroken
  | @cons c cs sep text hsep h ih =>
    obtain ⟨hc, htail⟩ := List.forall_mem_cons.mp hcs
    have hplain : sep ≠ [] ∧ CR ∉ sep ∧ LF ∉ sep := by
      rcases hsep with rfl | rfl
      · decide
      · decide
    rw [List.append_assoc, pair_infix_append_append hplain.1 hplain.2.1 hplain.2.2]
    exact not_or.mpr ⟨hc.pairText_unbroken, ih htail⟩

/-! ### The cookies of a line -/

/-- The first cookie of a line, behind the blanks that the token may begin with. -/
theorem parsePairs_cons (hc : IsCookiePair c) {blanks : Bytes}
    (hblanks : ∀ b ∈ blanks, isSpace b = true) (pairs : List Bytes) (m : StringMap) :
    parsePairs ((blanks ++ pairText c) :: pairs) m = parsePairs pairs (m.insert c.1 c.2) := by
  have hcut : cut 61 (blanks ++ pairText c) = some (blanks ++ c.1, c.2) := by
    rw [cut_eq_some_iff, pairText, List.append_assoc]
    refine ⟨rfl, ?_⟩
    intro hmem
    rcases List.mem_append.mp hmem with hblank | hname
    · exact absurd (hblanks 61 hblank) (by decide)
    · exact hc.noEquals hname
  have htrim : trimLeft (blanks ++ c.1) = c.1 := trimLeft_append hblanks hc.start
  simp only [parsePairs, hcut, htrim]

theorem IsCookiePair.token (hc : IsCookiePair c) {blanks : Bytes}
    (hblanks : ∀ b ∈ blanks, isSpace b = true) :
    ∀ b ∈ blanks ++ pairText c, (b == 59) = false := by
  intro b hb
  rw [beq_eq_false_iff_ne]
  rintro rfl
  rcases List.mem_append.mp hb with hblank | hpair
  · exact absurd (hblanks 59 hblank) (by decide)
  · exact hc.not_mem_pairText hpair

/-- **The pairs of a text** are parsed again. -/
theorem parsePairs_pairsText (h : PairsText cs text) (hcs : ∀ c ∈ cs, IsCookiePair c)
    {blanks : Bytes} (hblanks : ∀ b ∈ blanks, isSpace b = true) (m : StringMap) :
    parsePairs (splitCompress (· == 59) (blanks ++ text)) m = .ok (insertAll m cs) := by
  induction h generalizing blanks m with
  | single c =>
    have hc := hcs c (List.mem_singleton_self c)
    rw [splitCompress_of_forall (hc.token hblanks), parsePairs_cons hc hblanks]
    rfl
  | @cons c cs sep text hsep h ih =>
    obtain ⟨hc, htail⟩ := List.forall_mem_cons.mp hcs
    -- a semicolon, and the blanks that the next token begins with
    obtain ⟨blanks', hsep, hblanks'⟩ :
        ∃ blanks', sep = 59 :: blanks' ∧ ∀ b ∈ blanks', isSpace b = true := by
      rcases hsep with rfl | rfl
      · exact ⟨[], rfl, List.forall_mem_nil _⟩
      · exact ⟨[SP], rfl, List.forall_mem_singleton.mpr (by decide)⟩
    obtain ⟨b, t, hnext, hb⟩ : ∃ b t, blanks' ++ text = b :: t ∧ (b == 59) = false := by
      obtain ⟨b, t, rfl, -, hb⟩ := h.eq_cons htail
      cases blanks' with
      | nil => exact ⟨b, t, rfl, beq_eq_false_iff_ne.mpr hb⟩
      | cons b' blanks' =>
        refine ⟨b', blanks' ++ b :: t, rfl, beq_eq_false_iff_ne.mpr ?_⟩
        rintro rfl
        exact absurd (hblanks' 59 (List.mem_cons_self ..)) (by decide)
    have htext : blanks ++ (pairText c ++ sep ++ text) =
        (blanks ++ pairText c) ++ 59 :: (blanks' ++ text) := by
      simp [hsep]
    rw [htext, hnext, splitCompress_append_cons (hc.token hblanks) rfl hb, ← hnext,
      parsePairs_cons hc hblanks, ih htail hblanks', insertAll_cons]

/-- A line of cookies, cut at its colon. -/
theorem CookieLine.parts {l : Bytes} (h : CookieLine cs l) (hcs : ∀ c ∈ cs, IsCookiePair c) :
    IsCookieLine l ∧ parseCookies (fieldValue l) = .ok (insertAll ∅ cs) := by
  obtain ⟨name, blanks, text, hname, ⟨hblanks, -⟩, htext, rfl⟩ := h
  have hcolon : 58 ∉ name := by
    intro hmem
    have hlower : toLower 58 ∈ toLowerCopy name := List.mem_map_of_mem hmem
    rw [hname] at hlower
    exact absurd hlower (by decide)
  have hparts := colonParts_of_cut (cut_eq_some_iff.mpr ⟨rfl, hcolon⟩ :
    cut 58 (name ++ 58 :: (blanks ++ text)) = some (name, blanks ++ text))
  obtain ⟨b, t, htext', hb, -⟩ := htext.eq_cons hcs
  have hvalue : fieldValue (name ++ 58 :: (blanks ++ text)) = text := by
    rw [fieldValue, hparts]
    refine trimLeft_append hblanks ?_
    rw [htext']
    rintro _ ⟨⟩
    exact hb
  constructor
  · have hlower : toLowerCopy (trimRight name) = trimRight (toLowerCopy name) :=
      (trimRight_map isSpace_toLower name).symm
    rw [IsCookieLine, fieldName, hparts, hlower, hname]
    decide
  · have hparse : parsePairs (splitCompress (· == 59) ([] ++ text)) ∅ = .ok (insertAll ∅ cs) :=
      parsePairs_pairsText htext hcs (by simp) ∅
    rw [hvalue, parseCookies, if_neg (by simp [htext'])]
    exact hparse

/-- **A line of cookies is a line of a header.** -/
theorem CookieLine.isFieldLine {l : Bytes} (h : CookieLine cs l)
    (hcs : ∀ c ∈ cs, IsCookiePair c) : IsFieldLine l := by
  have hcookies := (h.parts hcs).2
  obtain ⟨name, blanks, text, hname, ⟨hblanks, hunbroken⟩, htext, rfl⟩ := h
  refine ⟨?_, ?_, by simp, fun _ => ⟨_, hcookies⟩⟩
  · obtain ⟨c, name, rfl, hc, -⟩ := map_toLower_eq_cons (b := 99) (t := bytes "ookie") (hname.trans
      (by decide))
    refine ⟨c, name ++ 58 :: (blanks ++ text), rfl, ?_⟩
    rw [← isAlnum_toLower, hc]
    decide
  · obtain ⟨b, t, htext', hb, -⟩ := htext.eq_cons hcs
    rw [pair_infix_append_cons (by decide) (by decide), pair_infix_append]
    rintro (hbroken | hbroken | hbroken | ⟨-, hhead⟩)
    · have hlower : toLowerCopy name = toLowerCopy (bytes "cookie") := hname.trans (by decide)
      exact absurd (crlf_infix_of_toLowerCopy hlower hbroken) (by decide)
    · exact hunbroken hbroken
    · exact htext.unbroken hcs hbroken
    · -- the text does not begin with a line feed, which is a blank
      rw [htext', List.head?_cons, Option.some.injEq] at hhead
      rw [hhead] at hb
      exact absurd hb (by decide)

end Pairs

/-! ### The cookies of a request -/

theorem lookup_insertNew (m : StringMap) (k v key : Bytes) :
    (insertNew m k v).lookup key = (m.lookup key).or (if key = k then some v else none) := by
  rw [insertNew]
  by_cases hkey : key = k
  · rw [hkey, if_pos rfl]
    split_ifs with hmem
    · obtain ⟨v', hv'⟩ := Option.isSome_iff_exists.mp (AList.lookup_isSome.mpr hmem)
      rw [hv', Option.some_or]
    · rw [AList.lookup_insert, AList.lookup_eq_none.mpr hmem, Option.none_or]
  · rw [if_neg hkey, Option.or_none]
    split_ifs
    · rfl
    · exact AList.lookup_insert_ne hkey

/-- What is there stays, and the rest is added. -/
theorem lookup_merge (m cookies : StringMap) (key : Bytes) :
    (cookies.entries.foldl (fun m c => insertNew m c.1 c.2) m).lookup key =
      (m.lookup key).or (cookies.lookup key) := by
  have hlookup : cookies.lookup key = cookies.entries.dlookup key := rfl
  rw [hlookup]
  induction cookies.entries generalizing m with
  | nil => rw [List.foldl_nil, List.dlookup_nil, Option.or_none]
  | cons c entries ih =>
    rw [List.foldl_cons, ih, lookup_insertNew, Option.or_assoc]
    by_cases hkey : key = c.1
    · rw [hkey, if_pos rfl, List.dlookup_cons_eq, Option.some_or]
    · rw [if_neg hkey, Option.none_or, List.dlookup_cons_ne _ _ hkey]

/-- What a line of cookies adds to the cookies. -/
theorem CookieLine.lookup_storeLine {cs : List (Bytes × Bytes)} {l : Bytes} (h : CookieLine cs l)
    (hcs : ∀ c ∈ cs, IsCookiePair c) (g : RequestHeaderIntermediate) (key : Bytes) :
    (storeLine g l).cookies.lookup key =
      (g.cookies.lookup key).or ((insertAll ∅ cs).lookup key) := by
  obtain ⟨hcookie, hparse⟩ := h.parts hcs
  rw [storeLine, if_pos hcookie, hparse]
  exact lookup_merge g.cookies _ key

theorem cookies_storeLine {l : Bytes} (hcookie : ¬ IsCookieLine l) (g : RequestHeaderIntermediate) :
    (storeLine g l).cookies = g.cookies := by
  rw [storeLine, if_neg hcookie]

namespace Arranged

variable {cs : List (Bytes × Bytes)} {others lines : List Bytes}

theorem isFieldLine (h : Arranged cs others lines) (hcs : ∀ c ∈ cs, IsCookiePair c) :
    ∀ l ∈ lines, IsFieldLine l := by
  induction h with
  | nil => simp
  | cookies hl h ih =>
    obtain ⟨hhead, htail⟩ := List.forall_mem_append.mp hcs
    exact List.forall_mem_cons.mpr ⟨hl.isFieldLine hhead, ih htail⟩
  | field hl hcookie h ih => exact List.forall_mem_cons.mpr ⟨hl, ih hcs⟩

theorem fieldPairs (h : Arranged cs others lines) (hcs : ∀ c ∈ cs, IsCookiePair c) :
    fieldPairs lines = others.map fun l => (fieldName l, fieldValue l) := by
  induction h with
  | nil => rfl
  | cookies hl h ih =>
    obtain ⟨hhead, htail⟩ := List.forall_mem_append.mp hcs
    rw [← ih htail, HeaderSection.fieldPairs, List.filter_cons_of_neg
      (by simpa using (hl.parts hhead).1)]
    rfl
  | field hl hcookie h ih =>
    rw [List.map_cons, ← ih hcs, HeaderSection.fieldPairs, List.filter_cons_of_pos
      (by simpa using hcookie)]
    rfl

/-- **The lines of cookies are merged**: the cookies are those of all of them. -/
theorem lookup_cookies (h : Arranged cs others lines) (hcs : ∀ c ∈ cs, IsCookiePair c)
    (hnodup : (cs.map Prod.fst).Nodup) (g : RequestHeaderIntermediate) (key : Bytes) :
    (lines.foldl storeLine g).cookies.lookup key =
      (g.cookies.lookup key).or ((insertAll ∅ cs).lookup key) := by
  induction h generalizing g with
  | nil => rw [insertAll_nil, AList.lookup_empty, Option.or_none]; rfl
  | @cookies cs cs' l others lines hl h ih =>
    obtain ⟨hhead, htail⟩ := List.forall_mem_append.mp hcs
    have hnodup' : (cs'.map Prod.fst).Nodup := by
      rw [List.map_append] at hnodup
      exact (List.nodup_append.mp hnodup).2.1
    rw [List.foldl_cons, ih htail hnodup', hl.lookup_storeLine hhead,
      lookup_insertAll_append hnodup, Option.or_assoc]
  | field hl hcookie h ih => rw [List.foldl_cons, ih hcs hnodup, cookies_storeLine hcookie]

end Arranged

/-- **The cookies of a request**: pairs of different names that are written on lines of cookies, in
any distribution and between any other lines, are the cookies of the finished request, and the
other lines its fields. -/
theorem cookie_codec (cfg : Config) (cs : List (Bytes × Bytes)) (others : List Bytes)
    (s : HeaderSection) (chunks : List Bytes) (r : Bytes) (hcs : ∀ c ∈ cs, IsCookiePair c)
    (hnodup : (cs.map Prod.fst).Nodup) (hlines : Arranged cs others s.lines)
    (hstart : { s with lines := [] }.Valid cfg) (hcount : s.lines.length ≤ cfg.headerFieldMax)
    (htext : chunks.flatten = s.text ++ r)
    (hlimit : (feedAll (feed cfg) {} chunks).1 ≠ .rejected .headerBuffer) :
    ∃ p rest, feedAll (feed cfg) {} chunks = (.done p, rest) ∧
      p.headerBuffer ++ rest.flatten = r ∧
      ∀ h, p.header.requestHeader = some h →
        (∀ c ∈ cs, h.getCookie c.1 = some c.2) ∧
        (∀ name, name ∉ cs.map Prod.fst → h.getCookie name = none) ∧
        ∀ key, h.getField key =
          lastWins (others.map fun l => (fieldName l, fieldValue l)) key := by
  have hvalid : s.Valid cfg :=
    { hstart with count := hcount, lines := hlines.isFieldLine hcs }
  obtain ⟨p, rest, hrun, hp, hrest⟩ := (finishes_iff hlimit).mpr ⟨s, hvalid, htext, rfl⟩
  refine ⟨p, rest, hrun, hrest, ?_⟩
  intro h hh
  rw [hp, requestHeader_finished] at hh
  obtain ⟨t, -, rfl⟩ := Option.map_eq_some_iff.mp hh
  -- what the lines leave under a name
  have hcookie : ∀ name, RequestHeader.getCookie
      ((finishedParser s r).header.toRequestHeader.withTarget t) name =
        (insertAll ∅ cs).lookup name := by
    intro name
    refine (hlines.lookup_cookies hcs hnodup _ name).trans ?_
    rw [AList.lookup_empty, Option.none_or]
  refine ⟨?_, ?_, ?_⟩
  · intro c hc
    rw [hcookie, lookup_insertAll_of_mem hnodup hc]
  · intro name hname
    rw [hcookie, lookup_insertAll_of_not_mem hname, AList.lookup_empty]
  · intro key
    refine (lookup_foldl_storeLine s.lines _ key).trans ?_
    rw [hlines.fieldPairs hcs, AList.lookup_empty, Option.or_none]

/-- Two lines of cookies around a field, one of them with two cookies, in two reads. -/
theorem cookie_codec_three :
    ∃ p rest h, feedAll (feed {}) {}
        [bytes "GET / HTTP/1.1\r\nCOOKIE: a=b; c==\r\nHo", bytes "st: x\r\ncookie:d=\r\n\r\n"] =
          (.done p, rest) ∧
      p.header.requestHeader = some h ∧ h.getCookie (bytes "c") = some (bytes "=") ∧
        h.getCookie (bytes "d") = some [] ∧ h.getCookie (bytes "e") = none := by
  let cs : List (Bytes × Bytes) :=
    [(bytes "a", bytes "b"), (bytes "c", bytes "="), (bytes "d", [])]
  let s : HeaderSection :=
    ⟨bytes "GET", bytes "/", bytes "HTTP", bytes "1.1",
      [bytes "COOKIE: a=b; c==", bytes "Host: x", bytes "cookie:d="]⟩
  have hcs : ∀ c ∈ cs, IsCookiePair c := by
    simp only [cs, List.forall_mem_cons, List.not_mem_nil, false_implies, implies_true, and_true]
    exact ⟨⟨by decide, by decide, by decide, by rintro _ ⟨⟩; decide, by decide, by decide⟩,
      ⟨by decide, by decide, by decide, by rintro _ ⟨⟩; decide, by decide, by decide⟩,
      ⟨by decide, by decide, by decide, by rintro _ ⟨⟩; decide, by decide, by decide⟩⟩
  have hlines : Arranged cs [bytes "Host: x"] s.lines := by
    have hfirst : CookieLine [(bytes "a", bytes "b"), (bytes "c", bytes "=")]
        (bytes "COOKIE: a=b; c==") :=
      ⟨bytes "COOKIE", [SP], bytes "a=b; c==", by decide,
        ⟨List.forall_mem_singleton.mpr (by decide), by decide⟩,
        .cons _ (.inr rfl) (.single _), by decide⟩
    have hsecond : CookieLine [(bytes "d", [])] (bytes "cookie:d=") :=
      ⟨bytes "cookie", [], bytes "d=", by decide, ⟨List.forall_mem_nil _, by decide⟩, .single _,
        by decide⟩
    exact .cookies hfirst (.field ⟨⟨_, _, rfl, by decide⟩, by decide, by decide,
      fun h => absurd h (by decide)⟩ (by decide) (.cookies hsecond .nil))
  have hstart : { s with lines := [] }.Valid {} :=
    ⟨by decide, by decide, by decide, by decide, by decide, by decide, by simp⟩
  obtain ⟨p, rest, hrun, -, hp⟩ := cookie_codec {} cs [bytes "Host: x"] s
    [bytes "GET / HTTP/1.1\r\nCOOKIE: a=b; c==\r\nHo", bytes "st: x\r\ncookie:d=\r\n\r\n"] []
    hcs (by decide) hlines hstart (by decide) (by decide) (by decide +kernel)
  have htarget : Verdict.casesOn (motive := fun _ => Bool) (feedAll (feed {}) {}
      [bytes "GET / HTTP/1.1\r\nCOOKIE: a=b; c==\r\nHo", bytes "st: x\r\ncookie:d=\r\n\r\n"]).1
      (fun p => p.header.requestHeader.isSome) (fun _ => false) (fun _ => false) = true := by
    decide +kernel
  rw [hrun] at htarget
  obtain ⟨h, hh⟩ := Option.isSome_iff_exists.mp htarget
  obtain ⟨hcookies, hnone, -⟩ := hp h hh
  exact ⟨p, rest, h, hrun, hh, hcookies (bytes "c", bytes "=") (by simp [cs]),
    hcookies (bytes "d", []) (by simp [cs]), hnone (bytes "e") (by decide)⟩

end Attender.Http
