import Mathlib.Algebra.Order.BigOperators.Group.List
import Mathlib.Algebra.Order.Ring.Nat
import Mathlib.Data.List.DropRight
import NewsApi.Http.Conditional

/-! # Entity-tag lists as HTTP defines them

`If-None-Match` is `*` or a list of entity tags. Between the quotes of a tag
every character stands for itself. `parseEntityTags` reads a backslash as an
escape there, so a tag that ends in one runs on into the rest of the header. -/
namespace NewsApi.Http
open NewsApi.Text

/-! ## The header -/

/-- `etagc`: what may stand between the quotes. -/
def isEtagc (c : CodeUnit) : Bool :=
  c == 0x21 || (0x23 ≤ c && c ≤ 0x7E) || (0x80 ≤ c && c ≤ 0xFF)

/-- `OWS` -/
def isOptionalSpace (c : CodeUnit) : Bool := c == 0x20 || c == 0x09

structure EntityTag where
  weak : Bool
  chars : JsString
  isEtagc : chars.all isEtagc = true

/-- The opaque part with its quotes. -/
def EntityTag.quoted (tag : EntityTag) : JsString := 0x22 :: (tag.chars ++ [0x22])

def EntityTag.text (tag : EntityTag) : JsString :=
  (if tag.weak then js "W/" else []) ++ tag.quoted

/-- What stands between two commas; an element may be empty. -/
structure ListElement where
  before : JsString
  tag : Option EntityTag
  after : JsString
  isSpace : (before ++ after).all isOptionalSpace = true

def ListElement.text (element : ListElement) : JsString :=
  element.before ++ ((element.tag.map EntityTag.text).getD [] ++ element.after)

def listText (elements : List ListElement) : JsString := joinHeader (elements.map ListElement.text)

/-- A well-formed `If-None-Match`; a list may come in several values. -/
inductive IfNoneMatch where
  | star
  | list (elements : List ListElement)
  | lists (values : List (List ListElement))

namespace IfNoneMatch

def header : IfNoneMatch → HeaderValue
  | star => .str (js "*")
  | list elements => .str (listText elements)
  | lists values => .arr (values.map listText)

def elements : IfNoneMatch → List ListElement
  | star => []
  | list elements => elements
  | lists values => values.flatten

def tags (field : IfNoneMatch) : List EntityTag := field.elements.filterMap ListElement.tag

/-- `*`, or some listed tag matches `current` by weak comparison. -/
def Names (field : IfNoneMatch) (current : EntityTag) : Prop :=
  field = star ∨ ∃ tag ∈ field.tags, tag.chars = current.chars

end IfNoneMatch

def trailingBackslashes (s : JsString) : Nat := (s.rtakeWhile (· == 0x5C)).length

/-! ## Quoted strings with escapes -/

/-- What is read after an opening quote, the closing one included, when a
backslash escapes the character after it. -/
inductive QuotedRest : JsString → Prop
  | closing : QuotedRest [0x22]
  | escaped (c : CodeUnit) {s : JsString} (h : QuotedRest s) : QuotedRest (0x5C :: c :: s)
  | plain {c : CodeUnit} {s : JsString} (hq : c ≠ 0x22) (hb : c ≠ 0x5C) (h : QuotedRest s) :
      QuotedRest (c :: s)

theorem readOpaque_cons {c : CodeUnit} (s : JsString) (hq : c ≠ 0x22) (hb : c ≠ 0x5C) :
    readOpaque (c :: s) = (readOpaque s).map fun (text, rest) => (c :: text, rest) := by
  rw [readOpaque]
  · exact fun h _ => hb h
  · exact fun _ _ h _ => hb h
  · exact hq

theorem QuotedRest.read {text : JsString} (h : QuotedRest text) (rest : JsString) :
    readOpaque (text ++ rest) = some (text, rest) := by
  induction h with
  | closing => rw [List.singleton_append, readOpaque]
  | escaped c _ ih =>
    rw [List.cons_append, List.cons_append, readOpaque, ih]
    rfl
  | plain hq hb _ ih =>
    rw [List.cons_append, readOpaque_cons _ hq hb, ih]
    rfl

theorem quotedRest_of_read {s text rest : JsString} (h : readOpaque s = some (text, rest)) :
    s = text ++ rest ∧ QuotedRest text := by
  induction s using readOpaque.induct generalizing text with
  | case1 => cases h
  | case2 => cases h
  | case3 c s ih =>
    simp only [readOpaque, Option.map_eq_some_iff, Prod.exists, Prod.mk.injEq] at h
    obtain ⟨text', rest', hread, rfl, rfl⟩ := h
    obtain ⟨rfl, hq⟩ := ih hread
    exact ⟨rfl, .escaped c hq⟩
  | case4 s => cases h; exact ⟨rfl, .closing⟩
  | case5 c s h1 h2 hquote ih =>
    have hb : c ≠ 0x5C := by
      rintro rfl
      cases s with
      | nil => exact h1 rfl rfl
      | cons d s => exact h2 d s rfl rfl
    rw [readOpaque_cons s hquote hb] at h
    simp only [Option.map_eq_some_iff, Prod.exists, Prod.mk.injEq] at h
    obtain ⟨text', rest', hread, rfl, rfl⟩ := h
    obtain ⟨rfl, hq⟩ := ih hread
    exact ⟨rfl, .plain hquote hb hq⟩

theorem trailingBackslashes_cons (c : CodeUnit) (s : JsString) :
    trailingBackslashes (c :: s) = if trailingBackslashes s = s.length ∧ c = 0x5C then s.length + 1
      else trailingBackslashes s := by
  unfold trailingBackslashes List.rtakeWhile
  rw [List.reverse_cons, List.takeWhile_append]
  simp only [List.length_reverse]
  by_cases hall : (List.takeWhile (fun x => x == 0x5C) s.reverse).length = s.length
  · by_cases hc : c = 0x5C
    · simp [hall, hc]
    · simp [hall, hc]
  · simp [hall]

/-- The quotes close a text without quotes unless its last character is an
escape that nothing escapes. -/
theorem quotedRest_iff {s : JsString} (h : ∀ c ∈ s, c ≠ 0x22) :
    QuotedRest (s ++ [0x22]) ↔ trailingBackslashes s % 2 = 0 := by
  induction s using readOpaque.induct with
  | case1 => exact ⟨fun _ => rfl, fun _ => .closing⟩
  | case2 =>
    refine ⟨fun hq => ?_, fun hodd => absurd hodd (by decide)⟩
    cases hq with
    | escaped c hq => cases hq
    | plain hq hb _ => exact absurd rfl hb
  | case3 c s ih =>
    have hlen : trailingBackslashes s ≤ s.length := by
      unfold trailingBackslashes
      exact (List.rtakeWhile_suffix _ _).length_le
    have hpair : trailingBackslashes (0x5C :: c :: s) % 2 = trailingBackslashes s % 2 := by
      rw [trailingBackslashes_cons, trailingBackslashes_cons, List.length_cons]
      by_cases hall : trailingBackslashes s = s.length ∧ c = 0x5C
      · rw [if_pos hall, if_pos ⟨rfl, rfl⟩]
        omega
      · rw [if_neg hall, if_neg fun hlong => by omega]
    rw [hpair, ← ih fun d hd => h d (List.mem_cons_of_mem _ (List.mem_cons_of_mem _ hd))]
    refine ⟨fun hq => ?_, fun hq => .escaped c hq⟩
    cases hq with
    | escaped _ hq => exact hq
    | plain _ hb _ => exact absurd rfl hb
  | case4 s => exact absurd rfl (h 0x22 List.mem_cons_self)
  | case5 c s h1 h2 hquote ih =>
    have hb : c ≠ 0x5C := by
      rintro rfl
      cases s with
      | nil => exact h1 rfl rfl
      | cons d s => exact h2 d s rfl rfl
    rw [trailingBackslashes_cons, if_neg fun hc => hb hc.2,
      ← ih fun d hd => h d (List.mem_cons_of_mem _ hd)]
    refine ⟨fun hq => ?_, fun hq => .plain hquote hb hq⟩
    cases hs : s with
    | nil =>
      exact .closing
    | cons d s =>
      rw [hs] at hq
      cases hq with
      | escaped _ hq => exact absurd rfl hb
      | plain _ _ hq => exact hq

/-! ## The scanner -/

section
variable {header rest : JsString} {tag : Option JsString}

theorem parseEntityTags_go (h : entityTagAt (skipSeparators header) = (tag, some rest)) :
    parseEntityTags header = tag.toList ++ parseEntityTags rest := by
  rw [parseEntityTags]
  split
  · rename_i hnext
    rw [h] at hnext
    cases hnext
  · rename_i hnext
    rw [h] at hnext
    cases hnext
    rfl

theorem parseEntityTags_stop (h : entityTagAt (skipSeparators header) = (tag, none)) :
    parseEntityTags header = tag.toList := by
  rw [parseEntityTags]
  split
  · rename_i hnext
    rw [h] at hnext
    cases hnext
    rfl
  · rename_i hnext
    rw [h] at hnext
    cases hnext

/-- What is read depends on the header from its first element on. -/
theorem parseEntityTags_congr {header' : JsString}
    (h : skipSeparators header = skipSeparators header') :
    parseEntityTags header = parseEntityTags header' := by
  cases hat : entityTagAt (skipSeparators header') with
  | mk tag next =>
    cases next with
    | none => rw [parseEntityTags_stop hat, parseEntityTags_stop (h ▸ hat)]
    | some rest => rw [parseEntityTags_go hat, parseEntityTags_go (h ▸ hat)]

theorem parseEntityTags_nil : parseEntityTags [] = [] := by
  have hend : entityTagAt (skipSeparators []) = (none, none) := rfl
  exact parseEntityTags_stop hend

theorem parseEntityTags_comma (rest : JsString) :
    parseEntityTags (0x2C :: rest) = parseEntityTags rest := parseEntityTags_congr rfl

end

/-- `W/` or nothing. -/
def weakText (weak : Bool) : JsString := if weak then js "W/" else []

theorem weakPrefix_weakText (weak : Bool) (s : JsString) :
    weakPrefix (weakText weak ++ 0x22 :: s) = weakText weak := by
  cases weak <;> rfl

theorem withoutWeakPrefix_weakText (weak : Bool) (s : JsString) :
    withoutWeakPrefix (weakText weak ++ 0x22 :: s) = 0x22 :: s := by
  rw [withoutWeakPrefix, weakPrefix_weakText, List.drop_left]

theorem entityTagAt_of_ne_star {header : JsString} (h : header.head? ≠ some 0x2A)
    (hne : header ≠ []) : entityTagAt header =
      match header.drop (weakPrefix header).length with
      | 0x22 :: rest =>
        match readOpaque rest with
        | some (text, rest) =>
          (some (weakPrefix header ++ 0x22 :: text), some (rest.dropWhile (· != 0x2C)))
        | none => (none, none)
      | rest => (none, some (rest.dropWhile (· != 0x2C))) := by
  have hstar : ∀ rest, header = 0x2A :: rest → False := by
    intro rest hheader
    rw [hheader] at h
    exact h rfl
  exact entityTagAt.eq_3 header hne hstar

/-- A tag is read up to its closing quote. -/
theorem entityTagAt_quoted (weak : Bool) {text : JsString} (h : QuotedRest text)
    (rest : JsString) : entityTagAt (weakText weak ++ 0x22 :: (text ++ rest)) =
      (some (weakText weak ++ 0x22 :: text), some (rest.dropWhile (· != 0x2C))) := by
  rw [entityTagAt_of_ne_star, weakPrefix_weakText, List.drop_left]
  · simp only [h.read]
  · cases weak <;> exact fun hstar => absurd (Option.some.inj hstar) (by decide)
  · cases weak <;> exact List.cons_ne_nil _ _

/-- What is read is a star or a tag that stands in the header. -/
inductive ReadFrom (header : JsString) : JsString → Prop
  | star : ReadFrom header [0x2A]
  | tag (weak : Bool) {text : JsString} (h : QuotedRest text)
      (hin : weakText weak ++ 0x22 :: text <:+: header) :
      ReadFrom header (weakText weak ++ 0x22 :: text)

theorem ReadFrom.mono {header header' tag : JsString} (h : ReadFrom header tag)
    (hin : header <:+: header') : ReadFrom header' tag := by
  cases h with
  | star => exact .star
  | tag weak hq ht => exact .tag weak hq (ht.trans hin)

theorem weakPrefix_append_drop (header : JsString) :
    ∃ weak, weakPrefix header = weakText weak ∧
      header = weakText weak ++ header.drop (weakPrefix header).length := by
  unfold weakPrefix
  split
  · rename_i hweak
    refine ⟨true, rfl, ?_⟩
    obtain ⟨rest, rfl⟩ := List.isPrefixOf_iff_prefix.mp hweak
    rw [List.drop_left]
    rfl
  · exact ⟨false, rfl, rfl⟩

theorem entityTagAt_readFrom {header : JsString} {tag rest : Option JsString}
    (h : entityTagAt header = (tag, rest)) :
    (∀ t ∈ tag, ReadFrom header t) ∧ ∀ r ∈ rest, r <:+ header := by
  by_cases hnil : header = []
  · subst hnil
    cases h
    exact ⟨by simp, by simp⟩
  by_cases hstar : header.head? = some 0x2A
  · obtain ⟨after, rfl⟩ : ∃ after, header = 0x2A :: after := by
      cases header with
      | nil => exact absurd rfl hnil
      | cons c after => exact ⟨after, by rw [Option.some.inj hstar]⟩
    cases h
    refine ⟨fun t ht => ?_, fun r hr => ?_⟩
    · cases ht
      exact .star
    · cases hr
      exact List.suffix_cons _ _
  · rw [entityTagAt_of_ne_star hstar hnil] at h
    obtain ⟨weak, hweak, hheader⟩ := weakPrefix_append_drop header
    split at h
    · rename_i after hafter
      rw [hafter] at hheader
      split at h
      · rename_i text after' hread
        obtain ⟨rfl, hq⟩ := quotedRest_of_read hread
        cases h
        refine ⟨fun t ht => ?_, fun r hr => ?_⟩
        · cases ht
          rw [hweak]
          refine .tag weak hq ⟨[], after', ?_⟩
          simp only [List.nil_append, List.append_assoc, List.cons_append]
          exact hheader.symm
        · cases hr
          refine (List.dropWhile_suffix _).trans ⟨weakText weak ++ 0x22 :: text, ?_⟩
          simp only [List.append_assoc, List.cons_append]
          exact hheader.symm
      · cases h
        exact ⟨by simp, by simp⟩
    · cases h
      refine ⟨by simp, fun r hr => ?_⟩
      cases hr
      exact (List.dropWhile_suffix _).trans (List.drop_suffix _ _)

theorem mem_parseEntityTags {header tag : JsString} (h : tag ∈ parseEntityTags header) :
    ReadFrom header tag := by
  induction header using parseEntityTags.induct with
  | case1 header tag' hat =>
    rw [parseEntityTags_stop hat] at h
    exact ((entityTagAt_readFrom hat).1 tag (by simpa using h)).mono
      (List.dropWhile_suffix _).isInfix
  | case2 header tag' rest hat ih =>
    rw [parseEntityTags_go hat] at h
    have hskip : skipSeparators header <:+: header := (List.dropWhile_suffix _).isInfix
    rcases List.mem_append.mp h with h | h
    · exact ((entityTagAt_readFrom hat).1 tag (by simpa using h)).mono hskip
    · exact (ih h).mono (((entityTagAt_readFrom hat).2 rest rfl).isInfix.trans hskip)

/-! ## Reading a list -/

/-- The end of the header, or the comma before the next element. -/
def AtComma (tail : JsString) : Prop := tail = [] ∨ ∃ rest, tail = 0x2C :: rest

theorem skipSeparators_space {space : JsString} (h : space.all isOptionalSpace = true)
    (s : JsString) : skipSeparators (space ++ s) = skipSeparators s := by
  have hseparator : ∀ c, isOptionalSpace c = true → (c == 0x2C || isWhitespace c) = true := by
    intro c hc
    rcases Bool.or_eq_true_iff.mp hc with hc | hc <;> rw [beq_iff_eq.mp hc] <;> rfl
  refine List.dropWhile_append_of_pos fun c hc => hseparator c ?_
  exact List.all_eq_true.mp h c hc

theorem dropWhile_space {space tail : JsString} (h : space.all isOptionalSpace = true)
    (ht : AtComma tail) : (space ++ tail).dropWhile (· != 0x2C) = tail := by
  have hcomma : ∀ c, isOptionalSpace c = true → (c != 0x2C) = true := by
    intro c hc
    rcases Bool.or_eq_true_iff.mp hc with hc | hc <;> rw [beq_iff_eq.mp hc] <;> rfl
  rw [List.dropWhile_append_of_pos fun c hc => hcomma c (List.all_eq_true.mp h c hc)]
  rcases ht with rfl | ⟨rest, rfl⟩ <;> rfl

theorem EntityTag.quotedRest_iff (tag : EntityTag) :
    QuotedRest (tag.chars ++ [0x22]) ↔ trailingBackslashes tag.chars % 2 = 0 := by
  refine Http.quotedRest_iff fun c hc => ?_
  rintro rfl
  exact absurd (List.all_eq_true.mp tag.isEtagc _ hc) (by decide)

theorem parseEntityTags_element {element : ListElement} {tail : JsString}
    (h : ∀ tag ∈ element.tag, trailingBackslashes tag.chars % 2 = 0) (ht : AtComma tail) :
    parseEntityTags (element.text ++ tail) =
      (element.tag.map EntityTag.text).toList ++ parseEntityTags tail := by
  have hspace := element.isSpace
  rw [List.all_append, Bool.and_eq_true] at hspace
  obtain ⟨hbefore, hafter⟩ := hspace
  have htext : element.text ++ tail = element.before ++
      ((element.tag.map EntityTag.text).getD [] ++ (element.after ++ tail)) := by
    rw [ListElement.text, List.append_assoc, List.append_assoc]
  rw [htext, parseEntityTags_congr (skipSeparators_space hbefore _)]
  cases htag : element.tag with
  | none => exact parseEntityTags_congr (skipSeparators_space hafter _)
  | some tag =>
    have hskip : ∀ s, skipSeparators (tag.text ++ s) = tag.text ++ s := by
      intro s
      rw [EntityTag.text, EntityTag.quoted]
      cases tag.weak <;> rfl
    have hat : entityTagAt (skipSeparators (tag.text ++ (element.after ++ tail))) =
        (some tag.text, some tail) := by
      have hquoted := entityTagAt_quoted tag.weak (tag.quotedRest_iff.mpr (h tag htag))
        (element.after ++ tail)
      rw [dropWhile_space hafter ht] at hquoted
      rw [hskip]
      simpa [EntityTag.text, EntityTag.quoted, weakText] using hquoted
    exact parseEntityTags_go hat

theorem joinHeader_append_cons (s t : JsString) (values : List JsString) (tail : JsString) :
    joinHeader (s :: t :: values) ++ tail = s ++ 0x2C :: (joinHeader (t :: values) ++ tail) := by
  rw [joinHeader, List.append_assoc, List.cons_append]
  exact List.cons_ne_nil _ _

/-- Joined values are read one after the other. -/
theorem parseEntityTags_join {α : Type} {text : α → JsString} {tags : α → List JsString}
    {values : List α} (h : ∀ a ∈ values, ∀ tail, AtComma tail →
      parseEntityTags (text a ++ tail) = tags a ++ parseEntityTags tail)
    {tail : JsString} (ht : AtComma tail) :
    parseEntityTags (joinHeader (values.map text) ++ tail) =
      values.flatMap tags ++ parseEntityTags tail := by
  induction values with
  | nil => rfl
  | cons a values ih =>
    have hrest := ih fun b hb => h b (List.mem_cons_of_mem a hb)
    rw [List.flatMap_cons, List.append_assoc, ← hrest]
    cases values with
    | nil => exact h a List.mem_cons_self tail ht
    | cons b values =>
      rw [List.map_cons, List.map_cons, joinHeader_append_cons,
        h a List.mem_cons_self _ (.inr ⟨_, rfl⟩), parseEntityTags_comma]

/-! ## Matching -/

/-- `Array.isArray(header) ? header.join(",") : header` -/
def HeaderValue.joined : HeaderValue → JsString
  | .str value => value
  | .arr values => joinHeader values

theorem matchesIfNoneMatch_iff (header : HeaderValue) (currentTag : JsString) :
    matchesIfNoneMatch (some header) currentTag = true ↔
      ∃ tag ∈ parseEntityTags header.joined,
        tag = [0x2A] ∨ withoutWeakPrefix tag = withoutWeakPrefix currentTag := by
  have hany : matchesIfNoneMatch (some header) currentTag =
      (parseEntityTags header.joined).any fun tag =>
        tag == [0x2A] || withoutWeakPrefix tag == withoutWeakPrefix currentTag := by
    cases header with
    | arr values => rfl
    | str value =>
      cases value with
      | nil =>
        rw [HeaderValue.joined, parseEntityTags_nil]
        rfl
      | cons c value => rfl
  simp [hany]

theorem withoutWeakPrefix_text (tag : EntityTag) : withoutWeakPrefix tag.text = tag.quoted :=
  withoutWeakPrefix_weakText tag.weak _

theorem EntityTag.text_ne_star (tag : EntityTag) : tag.text ≠ [0x2A] := by
  intro hstar
  have hhead : tag.text.head? = if tag.weak then some 0x57 else some 0x22 := by
    rw [EntityTag.text, EntityTag.quoted]
    cases tag.weak <;> rfl
  rw [hstar] at hhead
  cases hweak : tag.weak <;> rw [hweak] at hhead <;> exact absurd (Option.some.inj hhead) (by decide)

namespace IfNoneMatch
variable {field : IfNoneMatch}

theorem filterMap_text (elements : List ListElement) :
    elements.flatMap (fun element => (element.tag.map EntityTag.text).toList) =
      (elements.filterMap ListElement.tag).map EntityTag.text := by
  induction elements with
  | nil => rfl
  | cons element elements ih =>
    rw [List.flatMap_cons, List.filterMap_cons, ih]
    cases element.tag <;> rfl

theorem parse_list {elements : List ListElement}
    (h : ∀ tag ∈ elements.filterMap ListElement.tag, trailingBackslashes tag.chars % 2 = 0)
    {tail : JsString} (ht : AtComma tail) : parseEntityTags (listText elements ++ tail) =
      (elements.filterMap ListElement.tag).map EntityTag.text ++ parseEntityTags tail := by
  rw [← filterMap_text]
  refine parseEntityTags_join (fun element helement tail ht => ?_) ht
  exact parseEntityTags_element
    (fun tag htag => h tag (List.mem_filterMap.mpr ⟨element, helement, htag⟩)) ht

/-- Without a tag that runs on, exactly the listed tags are read. -/
theorem parse_header (hne : field ≠ star)
    (h : ∀ tag ∈ field.tags, trailingBackslashes tag.chars % 2 = 0) :
    parseEntityTags field.header.joined = field.tags.map EntityTag.text := by
  cases field with
  | star => exact absurd rfl hne
  | list elements =>
    have := parse_list h (.inl rfl)
    rwa [List.append_nil, parseEntityTags_nil, List.append_nil] at this
  | lists values =>
    have hvalues : ∀ elements ∈ values, ∀ tail, AtComma tail →
        parseEntityTags (listText elements ++ tail) =
          (elements.filterMap ListElement.tag).map EntityTag.text ++ parseEntityTags tail := by
      intro elements helements tail ht
      refine parse_list (fun tag htag => h tag ?_) ht
      rw [tags, IfNoneMatch.elements, List.filterMap_flatten]
      exact List.mem_flatten.mpr ⟨_, List.mem_map_of_mem helements, htag⟩
    have hjoin := parseEntityTags_join hvalues (.inl rfl)
    rw [List.append_nil, parseEntityTags_nil, List.append_nil] at hjoin
    rw [header, HeaderValue.joined, hjoin, tags, IfNoneMatch.elements, List.filterMap_flatten,
      List.map_flatten, List.flatMap, List.map_map]
    rfl

/-- A tag that the header does not list. -/
def unlisted (field : IfNoneMatch) : EntityTag where
  weak := false
  chars := List.replicate ((field.tags.map fun tag => tag.chars.length).sum + 1) 0x21
  isEtagc := by rw [List.all_replicate]; rfl

theorem unlisted_not_named (hne : field ≠ star) : ¬field.Names field.unlisted := by
  rintro (hstar | ⟨tag, htag, hchars⟩)
  · exact hne hstar
  · have hle := List.le_sum_of_mem (List.mem_map_of_mem (f := fun tag => tag.chars.length) htag)
    rw [hchars, unlisted, List.length_replicate] at hle
    omega

/-- The header is read as HTTP defines it, for all current tags, exactly when
no listed tag ends in an odd number of backslashes. -/
theorem read_as_defined (field : IfNoneMatch) :
    (∀ current : EntityTag, matchesIfNoneMatch (some field.header) current.text = true ↔
      field.Names current) ↔
    ∀ tag ∈ field.tags, trailingBackslashes tag.chars % 2 = 0 := by
  by_cases hne : field = star
  · subst hne
    refine ⟨fun _ _ htag => absurd htag List.not_mem_nil, fun _ current => ?_⟩
    have hread : parseEntityTags (star.header).joined = [[0x2A]] := by
      have hat : entityTagAt (skipSeparators (js "*")) = (some [0x2A], some []) := rfl
      have := parseEntityTags_go hat
      rwa [parseEntityTags_nil] at this
    rw [matchesIfNoneMatch_iff, hread]
    exact ⟨fun _ => .inl rfl, fun _ => ⟨[0x2A], List.mem_singleton_self _, .inl rfl⟩⟩
  constructor
  · intro hall tag htag
    obtain ⟨read, hread, hmatch⟩ :=
      (matchesIfNoneMatch_iff _ _).mp ((hall tag).mpr (.inr ⟨tag, htag, rfl⟩))
    -- a star that was read would match every tag, listed or not
    have hnostar : read ≠ [0x2A] := by
      intro hstar
      refine unlisted_not_named hne ((hall field.unlisted).mp ?_)
      exact (matchesIfNoneMatch_iff _ _).mpr ⟨read, hread, .inl hstar⟩
    cases mem_parseEntityTags hread with
    | star => exact absurd rfl hnostar
    | tag weak hq hin =>
      have hsame := hmatch.resolve_left hnostar
      rw [withoutWeakPrefix_weakText, withoutWeakPrefix_text] at hsame
      rw [(List.cons.inj hsame).2] at hq
      exact tag.quotedRest_iff.mp hq
  · intro heven current
    rw [matchesIfNoneMatch_iff, parse_header hne heven]
    constructor
    · rintro ⟨read, hread, hmatch⟩
      obtain ⟨tag, htag, rfl⟩ := List.mem_map.mp hread
      refine .inr ⟨tag, htag, ?_⟩
      have hsame := hmatch.resolve_left tag.text_ne_star
      rw [withoutWeakPrefix_text, withoutWeakPrefix_text] at hsame
      exact List.append_cancel_right (List.cons.inj hsame).2
    · rintro (hstar | ⟨tag, htag, hchars⟩)
      · exact absurd hstar hne
      · refine ⟨tag.text, List.mem_map_of_mem htag, .inr ?_⟩
        rw [withoutWeakPrefix_text, withoutWeakPrefix_text, EntityTag.quoted, EntityTag.quoted,
          hchars]

def abc : EntityTag := ⟨false, js "abc", rfl⟩

/-- `"a\", "abc"` -/
def runsOn : IfNoneMatch :=
  list [⟨[], some ⟨false, js "a\\", rfl⟩, [], rfl⟩, ⟨js " ", some abc, [], rfl⟩]

/-- A listed tag is missed where the tag before it ends in a backslash. -/
theorem runsOn_misses_abc : matchesIfNoneMatch (some runsOn.header) abc.text = false ∧
    runsOn.Names abc ∧
    ¬∀ (field : IfNoneMatch) (current : EntityTag),
      matchesIfNoneMatch (some field.header) current.text = true ↔ field.Names current := by
  have hnames : runsOn.Names abc := .inr ⟨abc, by simp [runsOn, tags, elements], rfl⟩
  -- up to the quote that opens the second tag, all is one tag
  have hat : entityTagAt (skipSeparators runsOn.header.joined) =
      (some (js "\"a\\\", \""), some []) := rfl
  have hread : parseEntityTags runsOn.header.joined = [js "\"a\\\", \""] := by
    rw [parseEntityTags_go hat, parseEntityTags_nil]
    rfl
  have hmiss : matchesIfNoneMatch (some runsOn.header) abc.text = false := by
    rw [← Bool.not_eq_true, matchesIfNoneMatch_iff, hread]
    rintro ⟨tag, htag, hmatch⟩
    rw [List.mem_singleton] at htag
    subst htag
    revert hmatch
    decide
  refine ⟨hmiss, hnames, fun hall => ?_⟩
  rw [(hall runsOn abc).mpr hnames] at hmiss
  cases hmiss

end IfNoneMatch

end NewsApi.Http
