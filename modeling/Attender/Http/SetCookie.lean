import Attender.Http.ResponseText

/-!
# What a client reads of a cookie

A client takes the text of a cookie apart at its semicolons and equals signs. It
gets back the name, the value and the attributes that the server has put in
exactly if the texts that user code supplies are clean: none of them holds a
semicolon or has blanks around it, and the name is one (`setCookie_reads_back_iff`).
Then it also finds the cookies of a response in the text of its header
(`readCookies_toString`).
-/

namespace Attender.Http

open Attender.Library Attender.Utility

/-! ### The reading of a client -/

/-- A blank or a tabulator. -/
def isBlank (b : Byte) : Bool := b == 32 || b == 9

/-- A text without the blanks around it. -/
def trim (s : Bytes) : Bytes := (s.dropWhile isBlank).rdropWhile isBlank

/-- One attribute of a cookie: its name, and its value if it has one. -/
def readAttribute (av : Bytes) : Bytes × Bytes :=
  match cut 61 av with
  | none => (trim av, [])
  | some (name, value) => (trim name, trim value)

/-- The name, the value and the attributes of a cookie. -/
abbrev ReadCookie := Bytes × Bytes × List (Bytes × Bytes)

/-- What a client takes from the value of a `Set-Cookie` field, if it is a cookie. -/
def readSetCookie (text : Bytes) : Option ReadCookie :=
  match split (· == 59) text with
  | [] => none
  | pair :: avs =>
    (cut 61 pair).bind fun p =>
      if trim p.1 = [] then none else some (trim p.1, trim p.2, avs.map readAttribute)

/-- What a client reads of one line of a header. -/
def readCookieLine (line : Bytes) : Option ReadCookie :=
  match cutPair 58 SP line with
  | some (name, value) => if name = bytes "Set-Cookie" then readSetCookie value else none
  | none => none

/-- The cookies that a client finds in the text of a header. -/
def readCookies (text : Bytes) : List ReadCookie := (splitPair CR LF text).filterMap readCookieLine

/-! ### Clean texts -/

/-- A text that a client leaves as it is. -/
structure CleanText (s : Bytes) : Prop where
  noSemicolon : 59 ∉ s
  trimmed : trim s = s

/-- A text that neither starts nor ends with a blank. -/
theorem trim_of_ends {s : Bytes} (hhead : ∀ b ∈ s.head?, isBlank b = false)
    (hlast : ∀ b ∈ s.getLast?, isBlank b = false) : trim s = s := by
  have hstart : s.dropWhile isBlank = s := by
    cases s with
    | nil => rfl
    | cons b s => rw [List.dropWhile_cons, if_neg (by simp [hhead b rfl])]
  rw [trim, hstart, List.rdropWhile_eq_self_iff]
  intro hne
  rw [hlast _ (List.getLast?_eq_some_getLast hne)]
  exact Bool.false_ne_true

theorem trim_trim (s : Bytes) : trim (trim s) = trim s := by
  refine trim_of_ends ?_ ?_
  · intro b hb
    obtain ⟨t, ht⟩ := List.rdropWhile_prefix isBlank (s.dropWhile isBlank)
    have hstart : (s.dropWhile isBlank).head? = some b := by
      rw [← ht, List.head?_append]
      exact Option.or_eq_some_iff.mpr (Or.inl hb)
    have hnot := List.head?_dropWhile_not isBlank s
    rwa [hstart] at hnot
  · intro b hb
    obtain ⟨hne, rfl⟩ := List.mem_getLast?_eq_getLast hb
    exact Bool.eq_false_of_not_eq_true (List.rdropWhile_last_not _ _ hne)

/-- A blank in front is taken off. -/
theorem trim_cons_blank (s : Bytes) : trim (SP :: s) = trim s := rfl

theorem mem_of_mem_trim {s : Bytes} {b : Byte} (h : b ∈ trim s) : b ∈ s :=
  (List.dropWhile_sublist _).mem ((List.rdropWhile_prefix _ _).mem h)

/-- What a client reads of a part without semicolons is clean. -/
theorem cleanText_trim {s : Bytes} (h : 59 ∉ s) : CleanText (trim s) :=
  ⟨fun hmem => h (mem_of_mem_trim hmem), trim_trim s⟩

/-! ### The text of a cookie -/

/-- An attribute as it is written. -/
def attributeText (a : Bytes × Bytes) : Bytes :=
  SP :: a.1 ++ if a.2 = [] then [] else 61 :: a.2

namespace Cookie

/-- The attributes of a cookie, the flags without a value. -/
def attributes (c : Cookie) : List (Bytes × Bytes) :=
  (if c.domain ≠ [] then [(bytes "Domain", c.domain)] else []) ++
    (if c.path ≠ [] then [(bytes "Path", c.path)] else []) ++
    (if c.sameSite ≠ [] then [(bytes "SameSite", c.sameSite)] else []) ++
    (if c.maxAge > 0 then [(bytes "Max-Age", toDecimal c.maxAge)] else []) ++
    (c.expires.map fun expires => (bytes "Expires", toGmtString expires)).toList ++
    (if c.secure then [(bytes "Secure", [])] else []) ++
    (if c.httpOnly then [(bytes "HttpOnly", [])] else [])

/-- What a client is to read. -/
def read (c : Cookie) : ReadCookie := (c.name, c.value, c.attributes)

/-- The texts of user code are clean, and there is a name. -/
structure Clean (c : Cookie) : Prop where
  named : c.name ≠ []
  noEquals : 61 ∉ c.name
  texts : ∀ text ∈ c.texts, CleanText text

end Cookie

section Text

variable {c : Cookie}

theorem toGmtString_ends (timePoint : Int) :
    (∃ b s, toGmtString timePoint = b :: s ∧ isBlank b = false) ∧
      (toGmtString timePoint).getLast? = some 84 := by
  constructor
  · have hday : ∀ i < 7, ∃ b s, weekdays.getD i [] = b :: s ∧ isBlank b = false := by
      intro i hi
      have hall : ∀ i < 7, ((weekdays.getD i []).head?.map isBlank) = some false := by decide
      have h := hall i hi
      cases hname : weekdays.getD i [] with
      | nil =>
        rw [hname] at h
        cases h
      | cons b s =>
        rw [hname] at h
        exact ⟨b, s, rfl, Option.some.inj h⟩
    have hwday : (gmtime (timePoint.tdiv 1000000000)).wday < 7 := by
      simp only [gmtime]
      omega
    obtain ⟨b, s, hname, hb⟩ := hday _ hwday
    simp only [toGmtString, tmFormatter, hname, List.cons_append]
    exact ⟨b, _, rfl, hb⟩
  · rw [toGmtString, tmFormatter, List.getLast?_append]
    rfl

/-- Numbers hold neither semicolons nor blanks. -/
theorem not_mem_toDecimal {b : Byte} (hb : isDigit b = false) (hminus : b ≠ 45) (n : Int) :
    b ∉ toDecimal n := by
  intro h
  rcases mem_toDecimal h with h | h
  · rw [h] at hb
    cases hb
  · exact hminus h

theorem cleanText_toDecimal (n : Int) : CleanText (toDecimal n) where
  noSemicolon := not_mem_toDecimal (by decide) (by decide) n
  trimmed := by
    have hnone : ∀ b ∈ toDecimal n, isBlank b = false := by
      intro b hb
      rw [isBlank, Bool.or_eq_false_iff, beq_eq_false_iff_ne, beq_eq_false_iff_ne]
      constructor
      · rintro rfl
        exact not_mem_toDecimal (by decide) (by decide) n hb
      · rintro rfl
        exact not_mem_toDecimal (by decide) (by decide) n hb
    exact trim_of_ends (fun b hb => hnone b (List.mem_of_mem_head? hb))
      fun b hb => hnone b (List.mem_of_mem_getLast? hb)

theorem cleanText_toGmtString (timePoint : Int) : CleanText (toGmtString timePoint) where
  noSemicolon := by
    have hweekday := not_mem_getD weekdays (b := 59) (by decide)
    have hmonth := not_mem_getD months (b := 59) (by decide)
    have hnumber := not_mem_toDecimal (b := 59) (by decide) (by decide)
    have htwo : ∀ n, 59 ∉ twoDigits n := by
      intro n
      rw [twoDigits]
      split_ifs
      · rw [List.mem_cons, not_or]
        exact ⟨by decide, hnumber n⟩
      · exact hnumber n
    simp only [toGmtString, tmFormatter, List.mem_append, not_or]
    simp only [hweekday, hmonth, hnumber, htwo, not_false_iff, and_true, true_and]
    decide
  trimmed := by
    obtain ⟨⟨b, s, hs, hb⟩, hlast⟩ := toGmtString_ends timePoint
    refine trim_of_ends ?_ ?_
    · intro b' hb'
      rw [hs, List.head?_cons, Option.mem_some_iff] at hb'
      exact hb' ▸ hb
    · intro b' hb'
      rw [hlast, Option.mem_some_iff] at hb'
      rw [← hb']
      rfl

/-- The name of an attribute. -/
structure IsAttributeName (name : Bytes) : Prop where
  noEquals : 61 ∉ name
  clean : CleanText name

theorem readAttribute_attributeText {a : Bytes × Bytes} (hname : IsAttributeName a.1)
    (hvalue : trim a.2 = a.2) : readAttribute (attributeText a) = a := by
  have hfree : 61 ∉ SP :: a.1 := by
    rw [List.mem_cons, not_or]
    exact ⟨by decide, hname.noEquals⟩
  rw [readAttribute, attributeText]
  split_ifs with hempty
  · rw [List.append_nil, cut_eq_none_iff.mpr hfree]
    exact Prod.ext ((trim_cons_blank _).trans hname.clean.trimmed) hempty.symm
  · rw [cut_eq_some_iff.mpr ⟨rfl, hfree⟩]
    exact Prod.ext ((trim_cons_blank _).trans hname.clean.trimmed) hvalue

theorem isAttributeName_of_mem {a : Bytes × Bytes} (h : a ∈ c.attributes) :
    IsAttributeName a.1 := by
  have hnames : ∀ name ∈ ["Domain", "Path", "SameSite", "Max-Age", "Expires", "Secure",
      "HttpOnly"].map bytes, 61 ∉ name ∧ 59 ∉ name ∧ trim name = name := by decide
  have hname : a.1 ∈ ["Domain", "Path", "SameSite", "Max-Age", "Expires", "Secure",
      "HttpOnly"].map bytes := by
    simp only [Cookie.attributes, List.mem_append, List.mem_ite_nil_right, Option.mem_toList,
      Option.map_eq_some_iff, List.mem_singleton] at h
    simp only [List.map_cons, List.map_nil, List.mem_cons, List.not_mem_nil, or_false]
    rcases h with (((((⟨-, rfl⟩ | ⟨-, rfl⟩) | ⟨-, rfl⟩) | ⟨-, rfl⟩) | ⟨_, -, rfl⟩) | ⟨-, rfl⟩) |
      ⟨-, rfl⟩ <;> simp
  obtain ⟨hequals, hsemicolon, htrim⟩ := hnames a.1 hname
  exact ⟨hequals, hsemicolon, htrim⟩

theorem cleanText_nil : CleanText [] := ⟨List.not_mem_nil, rfl⟩

/-- The attributes are clean exactly if the texts are that they are made of. -/
theorem cleanText_attributes_iff :
    (∀ a ∈ c.attributes, CleanText a.2) ↔
      CleanText c.domain ∧ CleanText c.path ∧ CleanText c.sameSite := by
  have hone : ∀ {name s : Bytes},
      (∀ a ∈ if s ≠ [] then [(name, s)] else [], CleanText a.2) ↔ CleanText s := by
    intro name s
    split_ifs with hs
    · simp
    · rw [not_not.mp hs]
      exact iff_of_true (by simp) cleanText_nil
  simp only [Cookie.attributes, List.forall_mem_append, hone]
  constructor
  · rintro ⟨⟨⟨⟨⟨⟨hdomain, hpath⟩, hsite⟩, -⟩, -⟩, -⟩, -⟩
    exact ⟨hdomain, hpath, hsite⟩
  · rintro ⟨hdomain, hpath, hsite⟩
    refine ⟨⟨⟨⟨⟨⟨hdomain, hpath⟩, hsite⟩, ?_⟩, ?_⟩, ?_⟩, ?_⟩
    · simp [cleanText_toDecimal]
    · simp [cleanText_toGmtString]
    · simp [cleanText_nil]
    · simp [cleanText_nil]

theorem toDecimal_natCast_ne_nil (n : Nat) : toDecimal n ≠ [] := by
  show bytes n.repr ≠ []
  simp [bytes]

/-- An attribute with a value, as `to_set_cookie_string` writes it. -/
theorem flatMap_attribute (p : Prop) [Decidable p] {mark name s : Bytes}
    (hmark : mark = 59 :: SP :: name ++ [61]) (hs : p → s ≠ []) :
    (if p then mark ++ s else []) =
      ((if p then [(name, s)] else []).map attributeText).flatMap fun t => 59 :: t := by
  split_ifs with hp
  · simp [attributeText, hmark, hs hp]
  · rfl

/-- A flag. -/
theorem flatMap_flag (p : Prop) [Decidable p] {mark name : Bytes}
    (hmark : mark = 59 :: SP :: name) : (if p then mark else []) =
      ((if p then [(name, [])] else []).map attributeText).flatMap fun t => 59 :: t := by
  split_ifs with hp
  · simp [attributeText, hmark]
  · rfl

/-- **The text of a cookie** is its pair and its attributes, with semicolons between them. -/
theorem toSetCookieString_eq :
    c.toSetCookieString =
      join 59 ((c.name ++ 61 :: c.value) :: c.attributes.map attributeText) := by
  have hdomain : bytes "; Domain=" = 59 :: SP :: bytes "Domain" ++ [61] := rfl
  have hpath : bytes "; Path=" = 59 :: SP :: bytes "Path" ++ [61] := rfl
  have hsite : bytes "; SameSite=" = 59 :: SP :: bytes "SameSite" ++ [61] := rfl
  have hage : bytes "; Max-Age=" = 59 :: SP :: bytes "Max-Age" ++ [61] := rfl
  have hexpires : bytes "; Expires=" = 59 :: SP :: bytes "Expires" ++ [61] := rfl
  have hsecure : bytes "; Secure" = 59 :: SP :: bytes "Secure" := rfl
  have honly : bytes "; HttpOnly" = 59 :: SP :: bytes "HttpOnly" := rfl
  have hdate : (c.expires.map fun expires => bytes "; Expires=" ++ toGmtString expires).getD [] =
      ((c.expires.map fun expires => (bytes "Expires", toGmtString expires)).toList.map
        attributeText).flatMap fun t => 59 :: t := by
    cases c.expires with
    | none => rfl
    | some expires =>
      obtain ⟨⟨b, s, hs, -⟩, -⟩ := toGmtString_ends expires
      simp [attributeText, hexpires, hs]
  rw [join_cons, Cookie.attributes, Cookie.toSetCookieString, hdate,
    flatMap_attribute _ hdomain id, flatMap_attribute _ hpath id, flatMap_attribute _ hsite id,
    flatMap_attribute _ hage fun _ => toDecimal_natCast_ne_nil _, flatMap_flag _ hsecure,
    flatMap_flag _ honly]
  simp only [List.map_append, List.flatMap_append, List.append_assoc]
  rfl

end Text

/-! ### What is read back -/

/-- Whatever a client reads is clean. -/
theorem clean_of_readSetCookie {text : Bytes} {r : ReadCookie} (h : readSetCookie text = some r) :
    (r.1 ≠ [] ∧ 61 ∉ r.1) ∧ CleanText r.1 ∧ CleanText r.2.1 ∧ ∀ a ∈ r.2.2, CleanText a.2 := by
  have hfree : ∀ part ∈ split (· == 59) text, 59 ∉ part := by
    intro part hpart hmem
    exact absurd (mem_of_mem_split hpart hmem).2 (by decide)
  rw [readSetCookie] at h
  cases hsplit : split (· == 59) text with
  | nil =>
    rw [hsplit] at h
    cases h
  | cons pair avs =>
    rw [hsplit] at h hfree
    obtain ⟨hpair, havs⟩ := List.forall_mem_cons.mp hfree
    obtain ⟨p, hcut, hread⟩ := Option.bind_eq_some_iff.mp h
    obtain ⟨rfl, hequals⟩ := cut_eq_some_iff.mp hcut
    rw [List.mem_append, List.mem_cons, not_or, not_or] at hpair
    split_ifs at hread with hname
    cases hread
    refine ⟨⟨hname, fun hmem => hequals (mem_of_mem_trim hmem)⟩, cleanText_trim hpair.1,
      cleanText_trim hpair.2.2, ?_⟩
    intro a ha
    obtain ⟨av, hav, rfl⟩ := List.mem_map.mp ha
    rw [readAttribute]
    split
    · exact cleanText_nil
    · next name value hcut =>
      obtain ⟨rfl, -⟩ := cut_eq_some_iff.mp hcut
      have hav := havs _ hav
      rw [List.mem_append, List.mem_cons, not_or, not_or] at hav
      exact cleanText_trim hav.2.2

theorem Cookie.clean_iff {c : Cookie} :
    c.Clean ↔ (c.name ≠ [] ∧ 61 ∉ c.name) ∧ CleanText c.name ∧ CleanText c.value ∧
      ∀ a ∈ c.attributes, CleanText a.2 := by
  rw [cleanText_attributes_iff]
  constructor
  · intro h
    have htexts := h.texts
    simp only [texts, List.forall_mem_cons, List.not_mem_nil, false_imp_iff, implies_true,
      and_true] at htexts
    exact ⟨⟨h.named, h.noEquals⟩, htexts⟩
  · rintro ⟨⟨hnamed, hequals⟩, htexts⟩
    refine ⟨hnamed, hequals, ?_⟩
    simpa only [texts, List.forall_mem_cons, List.not_mem_nil, false_imp_iff, implies_true,
      and_true] using htexts

/-- Clean texts are read back. -/
theorem readSetCookie_of_clean {c : Cookie} (h : c.Clean) :
    readSetCookie c.toSetCookieString = some c.read := by
  obtain ⟨⟨hnamed, hequals⟩, hname, hvalue, hattributes⟩ := Cookie.clean_iff.mp h
  have hparts : ∀ part ∈ (c.name ++ 61 :: c.value) :: c.attributes.map attributeText,
      ∀ b ∈ part, (b == 59) = false := by
    intro part hpart b hb
    rw [beq_eq_false_iff_ne]
    rintro rfl
    rcases List.mem_cons.mp hpart with rfl | hpart
    · rcases List.mem_append.mp hb with hb | hb
      · exact hname.noSemicolon hb
      · exact hvalue.noSemicolon ((List.mem_cons.mp hb).resolve_left (by decide))
    · obtain ⟨a, ha, rfl⟩ := List.mem_map.mp hpart
      rw [attributeText, List.mem_append, List.mem_cons] at hb
      rcases hb with (hb | hb) | hb
      · exact absurd hb (by decide)
      · exact (isAttributeName_of_mem ha).clean.noSemicolon hb
      · split_ifs at hb
        · cases hb
        · exact (hattributes a ha).noSemicolon ((List.mem_cons.mp hb).resolve_left (by decide))
  have hread : (c.attributes.map attributeText).map readAttribute = c.attributes := by
    rw [List.map_map]
    refine (List.map_congr_left ?_).trans (List.map_id _)
    intro a ha
    exact readAttribute_attributeText (isAttributeName_of_mem ha) (hattributes a ha).trimmed
  rw [readSetCookie, toSetCookieString_eq, split_join (by decide) (List.cons_ne_nil _ _) hparts]
  simp only [cut_eq_some_iff.mpr ⟨rfl, hequals⟩, Option.bind_some, hname.trimmed,
    hvalue.trimmed, if_neg hnamed, hread]
  rfl

/-- **The codec of cookies**: a client reads from the text of a cookie its name, its value and its
attributes exactly if the texts of user code are clean. -/
theorem setCookie_reads_back_iff (c : Cookie) :
    readSetCookie c.toSetCookieString = some c.read ↔ c.Clean := by
  constructor
  · intro h
    exact Cookie.clean_iff.mpr (clean_of_readSetCookie h)
  · intro h
    exact readSetCookie_of_clean h

example : readSetCookie (bytes "sid=1=2; Path=/ ;Secure") =
    some (bytes "sid", bytes "1=2", [(bytes "Path", bytes "/"), (bytes "Secure", [])]) := by decide

/-! ### The cookies of a response -/

theorem readCookieLine_statusLine {h : ResponseHeader} (hh : h.Untouched) :
    readCookieLine h.statusLine = none := by
  rw [readCookieLine]
  cases hcut : cutPair 58 SP h.statusLine with
  | none => rfl
  | some p =>
    refine if_neg ?_
    intro hname
    have hline := ((cutPair_eq_some_iff (by decide)).mp hcut).1
    rw [ResponseHeader.statusLine, hh.protocol, hname] at hline
    exact absurd (List.cons.inj hline).1 (by decide)

/-- The line of a cookie is that of a field. -/
theorem cutPair_cookieLine (c : Cookie) :
    cutPair 58 SP (cookieLine c) = some (bytes "Set-Cookie", c.toSetCookieString) := by
  have hfree : ¬ bytes ": " <:+: bytes "Set-Cookie" := by decide
  show cutPair 58 SP (fieldLine (bytes "Set-Cookie", c.toSetCookieString)) = _
  exact cutPair_fieldLine_iff.mpr hfree

theorem readCookieLine_cookieLine (c : Cookie) :
    readCookieLine (cookieLine c) = readSetCookie c.toSetCookieString := by
  rw [readCookieLine, cutPair_cookieLine]
  exact if_pos rfl

/-- **The cookies of a response**: a client finds them in the text of its header in their order,
behind what user code has written into fields. -/
theorem readCookies_toString {h : ResponseHeader} (hh : h.Untouched) (hsafe : h.LineSafe)
    {order : List (Bytes × Bytes)} (horder : Iterates h.fields order) :
    readCookies (h.toString order) = (order.filterMap fun kv => readCookieLine (fieldLine kv)) ++
      h.cookies.filterMap fun c => readSetCookie c.toSetCookieString := by
  have hlines := ((hh.readsBack_iff horder).mpr hsafe).lines
  rw [readCookies, hlines, ResponseHeader.lines]
  show ((h.statusLine :: (order.map fieldLine ++ h.cookies.map cookieLine)) ++
    [[], []]).filterMap readCookieLine = _
  have hend : [[], []].filterMap readCookieLine = [] := rfl
  rw [List.filterMap_append, List.filterMap_cons_none (readCookieLine_statusLine hh),
    List.filterMap_append, List.filterMap_map, List.filterMap_map, hend, List.append_nil]
  simp only [Function.comp_def, readCookieLine_cookieLine]

/-- A clean cookie is found. -/
theorem mem_readCookies {h : ResponseHeader} (hh : h.Untouched) (hsafe : h.LineSafe)
    {order : List (Bytes × Bytes)} (horder : Iterates h.fields order) {c : Cookie}
    (hc : c ∈ h.cookies) (hclean : c.Clean) : c.read ∈ readCookies (h.toString order) := by
  rw [readCookies_toString hh hsafe horder]
  exact List.mem_append_right _ (List.mem_filterMap.mpr ⟨c, hc, readSetCookie_of_clean hclean⟩)

end Attender.Http
