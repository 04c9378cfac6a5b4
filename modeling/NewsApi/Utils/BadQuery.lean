import Mathlib.Algebra.Order.Ring.Rat
import Mathlib.Data.List.DropRight
import Mathlib.Data.List.TakeWhile
import NewsApi.Utils.Validation

/-! # Bad queries

Which queries are normalized or rejected with 400, and which escape. -/
namespace NewsApi.Utils
open NewsApi.Text NewsApi.Types NewsApi.Config NewsApi.Errors NewsApi.Http

/-! ## Values without a text -/

/-- An object that hides its `toString`, or an array that contains one, at any
depth of nested arrays. -/
inductive Unprintable : QueryValue → Prop
  | obj {members : List (JsString × QueryValue)} {value : QueryValue}
      (h : (js "toString", value) ∈ members) : Unprintable (.obj members)
  | arr {items : List QueryValue} {item : QueryValue} (hmem : item ∈ items)
      (h : Unprintable item) : Unprintable (.arr items)

theorem unprintable_obj {members : List (JsString × QueryValue)} :
    Unprintable (.obj members) ↔ members.any (·.1 == js "toString") = true := by
  rw [List.any_eq_true]
  constructor
  · rintro ⟨hmem⟩
    exact ⟨_, hmem, by simp⟩
  · rintro ⟨⟨name, value⟩, hmem, hname⟩
    rw [beq_iff_eq] at hname
    subst hname
    exact .obj hmem

theorem unprintable_arr {items : List QueryValue} :
    Unprintable (.arr items) ↔ ∃ item ∈ items, Unprintable item := by
  constructor
  · rintro (_ | ⟨hmem, h⟩)
    exact ⟨_, hmem, h⟩
  · rintro ⟨item, hmem, h⟩
    exact .arr hmem h

mutual

theorem textOf_cases : ∀ value, (Unprintable value ∧ textOf value = .error conversionError) ∨
    ¬Unprintable value ∧ ∃ text, textOf value = .ok text
  | .str value => .inr ⟨nofun, value, rfl⟩
  | .flag => .inr ⟨nofun, js "true", rfl⟩
  | .obj members => by
    rw [unprintable_obj, textOf]
    cases members.any (·.1 == js "toString") <;> simp
  | .arr items => by
    rw [unprintable_arr, textOf]
    exact joinTexts_cases items

theorem joinTexts_cases : ∀ items : List QueryValue,
    ((∃ item ∈ items, Unprintable item) ∧ joinTexts items = .error conversionError) ∨
      (¬∃ item ∈ items, Unprintable item) ∧ ∃ text, joinTexts items = .ok text
  | [] => .inr ⟨by simp, [], rfl⟩
  | [item] => by
    simpa [joinTexts] using textOf_cases item
  | item :: next :: items => by
    obtain ⟨h, htext⟩ | ⟨h, text, htext⟩ := textOf_cases item
    · refine .inl ⟨⟨item, List.mem_cons_self, h⟩, ?_⟩
      rw [joinTexts, htext]
      rfl
    · rw [joinTexts, htext]
      obtain ⟨⟨other, hmem, hother⟩, hrest⟩ | ⟨hnone, rest, hrest⟩ :=
        joinTexts_cases (next :: items)
      · refine .inl ⟨⟨other, List.mem_cons_of_mem _ hmem, hother⟩, ?_⟩
        rw [hrest]
        rfl
      · refine .inr ⟨?_, text ++ 0x2C :: rest, by rw [hrest]; rfl⟩
        rintro ⟨other, hmem, hother⟩
        rcases List.mem_cons.mp hmem with rfl | hmem
        · exact h hother
        · exact hnone ⟨other, hmem, hother⟩

end

theorem numberOf_cases (value : QueryValue) :
    (Unprintable value ∧ numberOf value = .error conversionError) ∨
      ¬Unprintable value ∧ ∃ n, numberOf value = .ok n := by
  have hmap : ∀ value : QueryValue, numberOf value = (textOf value).map numberOfString →
      (Unprintable value ∧ numberOf value = .error conversionError) ∨
        ¬Unprintable value ∧ ∃ n, numberOf value = .ok n := by
    intro value hnumber
    obtain ⟨h, htext⟩ | ⟨h, text, htext⟩ := textOf_cases value
    · exact .inl ⟨h, by rw [hnumber, htext]; rfl⟩
    · exact .inr ⟨h, numberOfString text, by rw [hnumber, htext]; rfl⟩
  cases value with
  | str value => exact .inr ⟨nofun, _, rfl⟩
  | flag => exact .inr ⟨nofun, _, rfl⟩
  | arr items => exact hmap _ rfl
  | obj members => exact hmap _ rfl

/-! ## Outcomes -/

/-- A value that satisfies `P`, or an error with status 400. -/
def Normalizes {α : Type} (P : α → Prop) : Except JsError α → Prop
  | .ok a => P a
  | .error (.http error) => error.statusCode = 400
  | .error _ => False

section
variable {α β : Type} {P : α → Prop} {Q : β → Prop} {x : Except JsError α}
  {f : α → Except JsError β}

theorem Normalizes.bind (hx : Normalizes P x) (hf : ∀ a, P a → Normalizes Q (f a)) :
    Normalizes Q (x >>= f) := by
  cases x with
  | ok a => exact hf a hx
  | error e => cases e <;> exact hx

end

def Hides (value : Option QueryValue) : Prop := ∃ v, value = some v ∧ Unprintable v

theorem parsePositive_normalizes {standard maximum : Nat} (message code : String)
    (raw : Option QueryValue) (hstandard : 1 ≤ standard ∧ standard ≤ maximum) :
    Normalizes (fun n => 1 ≤ n ∧ n ≤ maximum)
      (parsePositive standard maximum (badRequest message code) raw) ↔ ¬Hides raw := by
  unfold parsePositive
  split
  · refine iff_of_true hstandard ?_
    rintro ⟨v, hv, -⟩
    cases hv
  · refine iff_of_true hstandard ?_
    rintro ⟨v, hv, h⟩
    cases hv
    cases h
  · rename_i value _
    obtain ⟨h, herror⟩ | ⟨h, n, hn⟩ := numberOf_cases value
    · rw [herror]
      exact iff_of_false id fun hhides => hhides ⟨value, rfl, h⟩
    · rw [hn]
      have hshown : ¬Hides (some value) := by
        rintro ⟨v, hv, hhides⟩
        exact h (Option.some.inj hv ▸ hhides)
      refine iff_of_true ?_ hshown
      cases n with
      | nan => rfl
      | infinity negative => rfl
      | finite q =>
        show Normalizes _ (if q.den ≠ 1 ∨ q < 1 then _ else _)
        split
        · rfl
        · rename_i hq
          rw [not_or, Decidable.not_not, not_lt] at hq
          have hnum : 0 < q.num := Rat.num_pos.mpr (zero_lt_one.trans_le hq.2)
          exact ⟨by omega, by omega⟩

/-- At most 256 code units, not empty, without white space around it. -/
def NormalText (s : JsString) : Prop := trim s = s ∧ s ≠ [] ∧ s.length ≤ MAX_SEARCH_TEXT_LENGTH

theorem trim_trim (s : JsString) : trim (trim s) = trim s := by
  have hbegin : ∀ l : JsString, List.dropWhile isWhitespace l = l →
      List.dropWhile isWhitespace (List.rdropWhile isWhitespace l) =
        List.rdropWhile isWhitespace l := by
    intro l hl
    rw [List.dropWhile_eq_self_iff] at hl ⊢
    intro hpos
    have hpre := List.rdropWhile_prefix isWhitespace l
    rw [hpre.getElem hpos]
    exact hl (hpos.trans_le hpre.length_le)
  show List.rdropWhile isWhitespace (List.dropWhile isWhitespace
    (List.rdropWhile isWhitespace (List.dropWhile isWhitespace s))) = _
  rw [hbegin _ (List.dropWhile_idempotent isWhitespace s), List.rdropWhile_idempotent]
  rfl

theorem requireQueryString_normalizes (value : Option QueryValue) (fieldName : String) :
    Normalizes NormalText (requireQueryString value fieldName) := by
  have h : ∀ s, trim s = s → Normalizes NormalText (if s.isEmpty then
      .error (badRequest ("Missing or empty query parameter: " ++ fieldName)
        "missing_query_parameter")
    else if MAX_SEARCH_TEXT_LENGTH < s.length then
      .error (badRequest
        (fieldName ++ " must be at most " ++ toString MAX_SEARCH_TEXT_LENGTH ++ " characters")
        ("invalid_" ++ fieldName ++ "_length"))
    else .ok s) := by
    intro s hs
    split
    · rfl
    · split
      · rfl
      · rename_i hne hlen
        exact ⟨hs, by simpa using hne, by omega⟩
  unfold requireQueryString
  split
  · exact h _ (trim_trim _)
  · exact h _ rfl

/-- Two lower-case letters. -/
def IsCode (s : JsString) : Prop :=
  ∃ a b, s = [a, b] ∧ isLowerCase a = true ∧ isLowerCase b = true

/-- A date as the service writes it. -/
def IsDate (s : JsString) : Prop := ∃ time, toISOString time = .ok s

structure NormalFilters (filters : ArticleSearchFilters) : Prop where
  lang : ∀ s, filters.lang = some s → IsCode s
  country : ∀ s, filters.country = some s → IsCode s
  «from» : ∀ s, filters.from = some s → IsDate s
  «to» : ∀ s, filters.to = some s → IsDate s
  range : ∀ s t, filters.from = some s → filters.to = some t →
    ∃ a b, toISOString a = .ok s ∧ toISOString b = .ok t ∧ a ≤ b

/-- What is documented of `Date.parse`: its results are time values, and it
reads `toISOString` back. -/
structure ParsesDates (platform : Platform) : Prop where
  inRange : ∀ s time, platform.dateParse s = some time → time.natAbs ≤ MAX_TIME
  reads : ∀ s time text, platform.dateParse s = some time → toISOString time = .ok text →
    platform.dateParse text = some time

theorem optionalString_normalizes (value : Option QueryValue) (fieldName : String) :
    Normalizes (fun _ => True) (optionalString value fieldName) := by
  unfold optionalString
  split <;> trivial

theorem isLowerCase_toLowerCase {c : CodeUnit} (h : (isUpperCase c || isLowerCase c) = true) :
    isLowerCase (if isUpperCase c then c + 0x20 else c) = true := by
  cases hc : isUpperCase c with
  | false => simpa [hc] using h
  | true =>
    simp only [isUpperCase, isLowerCase, Bool.and_eq_true, decide_eq_true_eq, if_true,
      UInt16.le_iff_toNat_le, UInt16.toNat_add] at hc ⊢
    simp at hc ⊢
    omega

theorem parseTwoLetterCode_normalizes (value : Option QueryValue) (fieldName : String) :
    Normalizes (fun result => ∀ s, result = some s → IsCode s)
      (parseTwoLetterCode value fieldName) := by
  refine (optionalString_normalizes value fieldName).bind ?_
  rintro (_ | s) -
  · exact nofun
  · show Normalizes _ (do
      if !isTwoLetterCode s then
        throw (badRequest (fieldName ++ " must be a two-letter code") ("invalid_" ++ fieldName))
      return some (toLowerCase s))
    cases hcode : isTwoLetterCode s with
    | false => rfl
    | true =>
      rintro _ ⟨⟩
      unfold isTwoLetterCode at hcode
      split at hcode
      · rename_i a b
        rw [Bool.and_eq_true] at hcode
        exact ⟨_, _, rfl, isLowerCase_toLowerCase hcode.1, isLowerCase_toLowerCase hcode.2⟩
      · cases hcode

section
variable {platform : Platform}

theorem toISOString_ok {time : Int} (h : time.natAbs ≤ MAX_TIME) :
    ∃ text, toISOString time = .ok text := by
  rw [toISOString, if_neg (by omega)]
  exact ⟨_, rfl⟩

/-- A date that was read, and the text the filters carry. -/
def ReadsAs (platform : Platform) (s : JsString) : Prop :=
  ∃ time, toISOString time = .ok s ∧ platform.dateParse s = some time

theorem parseIsoDate_normalizes (h : ParsesDates platform) (value : Option QueryValue)
    (fieldName : String) :
    Normalizes (fun result => ∀ s, result = some s → ReadsAs platform s)
      (parseIsoDate platform value fieldName) := by
  refine (optionalString_normalizes value fieldName).bind ?_
  rintro (_ | s) -
  · exact nofun
  · dsimp only
    cases hparse : platform.dateParse s with
    | none => rfl
    | some time =>
      obtain ⟨text, htext⟩ := toISOString_ok (h.inRange s time hparse)
      show Normalizes _ (do return some (← toISOString time))
      rw [htext]
      rintro _ ⟨⟩
      exact ⟨time, htext, h.reads s time text hparse htext⟩

theorem parseSortBy_normalizes (value : Option QueryValue) :
    Normalizes (fun _ => True) (parseSortBy value) := by
  refine (optionalString_normalizes value "sortBy").bind ?_
  rintro (_ | s) -
  · trivial
  · show Normalizes _ (if _ then _ else _)
    split
    · trivial
    · split <;> trivial

/-- The range check compares the dates as times. -/
theorem isAfter_readsAs {s t : JsString} (hs : ReadsAs platform s) (ht : ReadsAs platform t)
    (h : isAfter platform s t = false) :
    ∃ a b, toISOString a = .ok s ∧ toISOString b = .ok t ∧ a ≤ b := by
  obtain ⟨a, ha, hsa⟩ := hs
  obtain ⟨b, hb, htb⟩ := ht
  refine ⟨a, b, ha, hb, ?_⟩
  simpa [isAfter, hsa, htb] using h

theorem parseArticleSearchFilters_normalizes (h : ParsesDates platform) (query : Query) :
    Normalizes NormalFilters (parseArticleSearchFilters platform query) := by
  refine (parseIsoDate_normalizes h _ "from").bind fun f hf => ?_
  refine (parseIsoDate_normalizes h _ "to").bind fun t ht => ?_
  have hrest : (∀ s u, f = some s → t = some u →
      ∃ a b, toISOString a = .ok s ∧ toISOString b = .ok u ∧ a ≤ b) →
      Normalizes NormalFilters (do
        let sortBy ← parseSortBy ((query.lookup (js "sortBy")).or (query.lookup (js "sortby")))
        let lang ← parseTwoLetterCode (query.lookup (js "lang")) "lang"
        let country ← parseTwoLetterCode (query.lookup (js "country")) "country"
        return ⟨lang, country, f, t, sortBy⟩) := by
    intro hrange
    refine (parseSortBy_normalizes _).bind fun sortBy _ => ?_
    refine (parseTwoLetterCode_normalizes _ "lang").bind fun lang hlang => ?_
    refine (parseTwoLetterCode_normalizes _ "country").bind fun country hcountry => ?_
    refine ⟨hlang, hcountry, fun s hs => ?_, fun s hs => ?_, hrange⟩
    · obtain ⟨time, htime, -⟩ := hf s hs
      exact ⟨time, htime⟩
    · obtain ⟨time, htime, -⟩ := ht s hs
      exact ⟨time, htime⟩
  cases f with
  | none => exact hrest nofun
  | some f =>
    cases t with
    | none => exact hrest nofun
    | some t =>
      cases hafter : isAfter platform f t with
      | true => simp only [hafter]; rfl
      | false =>
        simp only [hafter]
        refine hrest ?_
        rintro _ _ ⟨⟩ ⟨⟩
        exact isAfter_readsAs (hf f rfl) (ht t rfl) hafter

end

/-- Every way the validation of a query can end. -/
structure BadQueryIs400 (platform : Platform) (query : Query) : Prop where
  text : ∀ name fieldName, Normalizes NormalText (requireQueryString (query.lookup name) fieldName)
  count : Normalizes (fun n => 1 ≤ n ∧ n ≤ 100) (parseArticleCount (query.lookup (js "count")))
  page : Normalizes (fun n => 1 ≤ n ∧ n ≤ 100) (parseArticlePage (query.lookup (js "page")))
  filters : Normalizes NormalFilters (parseArticleSearchFilters platform query)

/-- A query is normalized or rejected with 400 if and only if neither its count
nor its page hides a `toString`. -/
theorem badQueryIs400_iff {platform : Platform} (hdates : ParsesDates platform) (query : Query) :
    BadQueryIs400 platform query ↔
      ¬Hides (query.lookup (js "count")) ∧ ¬Hides (query.lookup (js "page")) := by
  have hcount := @parsePositive_normalizes DEFAULT_ARTICLE_COUNT MAX_ARTICLE_COUNT
    "count must be a positive integer" "invalid_count" (query.lookup (js "count")) (by decide)
  have hpage := @parsePositive_normalizes DEFAULT_ARTICLE_PAGE MAX_ARTICLE_PAGE
    "page must be a positive integer" "invalid_page" (query.lookup (js "page")) (by decide)
  constructor
  · intro h
    exact ⟨hcount.mp h.count, hpage.mp h.page⟩
  · rintro ⟨hc, hp⟩
    exact ⟨fun name fieldName => requireQueryString_normalizes _ fieldName, hcount.mpr hc,
      hpage.mpr hp, parseArticleSearchFilters_normalizes hdates query⟩

/-- New Year 2026, with and without its milliseconds. -/
def samplePlatform : Platform where
  sha256Hex s := s
  dateParse s :=
    if s = js "2026-01-01T00:00:00Z" ∨ s = js "2026-01-01T00:00:00.000Z" then some 1767225600000
    else none

theorem samplePlatform_dates : ParsesDates samplePlatform := by
  have htime : ∀ s time, samplePlatform.dateParse s = some time → time = 1767225600000 := by
    intro s time h
    simp only [samplePlatform] at h
    split at h
    · exact (Option.some.inj h).symm
    · cases h
  refine ⟨fun s time h => ?_, fun s time text h htext => ?_⟩
  · rw [htime s time h]
    decide
  · rw [htime s time h] at htext ⊢
    have : text = js "2026-01-01T00:00:00.000Z" := by
      have : toISOString 1767225600000 = .ok (js "2026-01-01T00:00:00.000Z") := rfl
      exact Except.ok.inj (htext.symm.trans this)
    rw [this]
    rfl

/-- An array of one count, and a page that is an object. -/
theorem badQueryIs400_mixed : BadQueryIs400 samplePlatform
    [(js "query", .str (js " tech ")), (js "count", .arr [.str (js "5")]),
      (js "page", .obj [(js "valueOf", .str (js "2"))]), (js "lang", .str (js "EN")),
      (js "from", .str (js "2026-01-01T00:00:00Z"))] := by
  refine (badQueryIs400_iff samplePlatform_dates _).mpr ⟨?_, ?_⟩
  · rintro ⟨_, ⟨⟩, h⟩
    obtain ⟨item, hmem, hitem⟩ := unprintable_arr.mp h
    rw [List.mem_singleton.mp hmem] at hitem
    cases hitem
  · rintro ⟨_, ⟨⟩, h⟩
    exact absurd (unprintable_obj.mp h) (by decide)

/-- `?count[toString]=x` escapes as a `TypeError`. -/
theorem toString_escapes : ¬∀ platform query, ParsesDates platform →
    BadQueryIs400 platform query := by
  intro h
  exact (h .plain [(js "count", .obj [(js "toString", .str (js "x"))])] ⟨nofun, nofun⟩).count

end NewsApi.Utils
