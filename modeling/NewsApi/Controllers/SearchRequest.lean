import NewsApi.Services.SearchKey
import NewsApi.Utils.BadQuery

/-! # Search requests

The options that the controllers read off a query, and the query that says the
same options in their normal form. -/
namespace NewsApi.Controllers
open NewsApi.Text NewsApi.Types NewsApi.Config NewsApi.Errors NewsApi.Http NewsApi.Utils
open NewsApi.Services

variable (platform : Platform)

/-- The validation with which `searchArticlesV1` and `getArticles` begin. -/
def searchOptions (query : Query) : Except JsError ArticleSearchOptions := do
  let text ← requireQueryString (query.lookup (js "query")) "query"
  let count ← parseArticleCount (query.lookup (js "count"))
  let page ← parseArticlePage (query.lookup (js "page"))
  let filters ← parseArticleSearchFilters platform query
  return ⟨text, count, page, filters.lang, filters.country, filters.from, filters.to,
    filters.sortBy⟩

/-- A parameter, which is left out when it has no value. -/
def parameter (name : String) : Option JsString → Query
  | some value => [(js name, .str value)]
  | none => []

/-- The options as parameters again. -/
def renderQuery (options : ArticleSearchOptions) : Query :=
  parameter "query" (some options.query) ++ parameter "count" (some (decimal options.count)) ++
  parameter "page" (some (decimal options.page)) ++ parameter "lang" options.lang ++
  parameter "country" options.country ++ parameter "from" options.from ++
  parameter "to" options.to ++ parameter "sortBy" (options.sortBy.map ArticleSortBy.text)

/-- `Date.parse` reads back what `toISOString` writes of a date it has read. -/
def ReadsBack : Prop :=
  ∀ s time text, platform.dateParse s = some time → toISOString time = .ok text →
    platform.dateParse text = some time

variable {platform}

/-! ## Parameters -/

theorem parameter_lookup (name key : String) (value : Option JsString) :
    (parameter name value).lookup (js key) =
      if js key = js name then value.map .str else none := by
  cases value with
  | none => simp [parameter]
  | some value =>
    by_cases h : js key = js name
    · simp [parameter, h]
    · simp [parameter, List.lookup_cons, beq_eq_false_iff_ne.mpr h, h]

/-- Each option is found under its own name. -/
theorem renderQuery_lookup (options : ArticleSearchOptions) :
    (renderQuery options).lookup (js "query") = some (.str options.query) ∧
    (renderQuery options).lookup (js "count") = some (.str (decimal options.count)) ∧
    (renderQuery options).lookup (js "page") = some (.str (decimal options.page)) ∧
    (renderQuery options).lookup (js "lang") = options.lang.map .str ∧
    (renderQuery options).lookup (js "country") = options.country.map .str ∧
    (renderQuery options).lookup (js "from") = options.from.map .str ∧
    (renderQuery options).lookup (js "to") = options.to.map .str ∧
    (renderQuery options).lookup (js "sortBy") =
      (options.sortBy.map ArticleSortBy.text).map .str ∧
    (renderQuery options).lookup (js "sortby") = none := by
  unfold renderQuery
  simp only [List.lookup_append, parameter_lookup]
  refine ⟨?_, ?_, ?_, ?_, ?_, ?_, ?_, ?_, ?_⟩
  all_goals simp +decide

/-! ## Normal values are read as they are -/

/-- No white space, nor anything else that is not printed as one ASCII character. -/
def IsVisible (s : JsString) : Prop := ∀ c ∈ s, 0x20 < c.toNat ∧ c.toNat < 0x7F

theorem IsVisible.append {s t : JsString} (hs : IsVisible s) (ht : IsVisible t) :
    IsVisible (s ++ t) := by
  intro c hc
  rcases List.mem_append.mp hc with hc | hc
  · exact hs c hc
  · exact ht c hc

theorem IsVisible.cons {c : CodeUnit} {s : JsString} (hc : 0x20 < c.toNat ∧ c.toNat < 0x7F)
    (hs : IsVisible s) : IsVisible (c :: s) := List.forall_mem_cons.mpr ⟨hc, hs⟩

theorem visible_plain {c : CodeUnit} (h : 0x20 < c.toNat ∧ c.toNat < 0x7F) :
    isWhitespace c = false := by
  simp only [isWhitespace, Bool.or_eq_false_iff, Bool.and_eq_false_iff, decide_eq_false_iff_not,
    beq_eq_false_iff_ne, UInt16.le_iff_toNat_le, ne_eq, ← UInt16.toNat_inj]
  simp
  omega

theorem IsVisible.trim_eq {s : JsString} (h : IsVisible s) : trim s = s := by
  have hhead : ∀ l : JsString, IsVisible l → l.dropWhile isWhitespace = l := by
    intro l hl
    cases l with
    | nil => rfl
    | cons c l =>
      have hplain := visible_plain (hl c List.mem_cons_self)
      rw [List.dropWhile_cons_of_neg (by simp [hplain])]
  have hreverse : IsVisible s.reverse := by
    intro c hc
    exact h c (List.mem_reverse.mp hc)
  rw [trim, hhead s h, hhead s.reverse hreverse, List.reverse_reverse]

theorem optionalString_normal {s : JsString} (hne : s ≠ []) (htrim : trim s = s)
    (fieldName : String) : optionalString (some (.str s)) fieldName = .ok (some s) := by
  obtain ⟨c, rest, rfl⟩ := List.exists_cons_of_ne_nil hne
  simp [optionalString, htrim]

theorem requireQueryString_normal {s : JsString} (h : NormalText s) (fieldName : String) :
    requireQueryString (some (.str s)) fieldName = .ok s := by
  obtain ⟨htrim, hne, hlength⟩ := h
  simp only [requireQueryString, htrim]
  rw [if_neg (by simpa using hne), if_neg (by omega)]

/-- The numbers up to both maxima. -/
theorem numberOfString_decimal {n : Nat} (h : n ≤ 100) :
    numberOfString (decimal n) = .finite n := by
  have hall : ∀ n : Fin 101, numberOfString (decimal n) = .finite n := by
    decide +kernel
  exact hall ⟨n, by omega⟩

theorem decimal_ne_nil (n : Nat) : decimal n ≠ [] := by
  simp [decimal, Nat.toDigits_ne_nil]

theorem parsePositive_normal {standard maximum n : Nat} {error : JsError} (hmaximum : maximum ≤ 100)
    (h : 1 ≤ n ∧ n ≤ maximum) :
    parsePositive standard maximum error (some (.str (decimal n))) = .ok n := by
  have hnumber := numberOfString_decimal (h.2.trans hmaximum)
  obtain ⟨c, rest, hdecimal⟩ := List.exists_cons_of_ne_nil (decimal_ne_nil n)
  rw [hdecimal] at hnumber ⊢
  have hone : ¬(n : Rat) < 1 := by
    have hcast : (1 : Rat) ≤ n := by exact_mod_cast h.1
    exact not_lt.mpr hcast
  simp only [parsePositive, numberOf, hnumber, bind, Except.bind]
  rw [if_neg (by simp [hone])]
  simp [h.2]
  rfl

theorem isLowerCase_bounds {c : CodeUnit} (h : isLowerCase c = true) :
    0x60 < c.toNat ∧ c.toNat < 0x7B := by
  simp only [isLowerCase, Bool.and_eq_true, decide_eq_true_eq, UInt16.le_iff_toNat_le] at h
  simp at h
  omega

theorem isUpperCase_of_lower {c : CodeUnit} (h : isLowerCase c = true) : isUpperCase c = false := by
  have hbounds := isLowerCase_bounds h
  simp only [isUpperCase, Bool.and_eq_false_iff, decide_eq_false_iff_not, UInt16.le_iff_toNat_le]
  simp
  omega

theorem parseTwoLetterCode_normal {s : JsString} (h : IsCode s) (fieldName : String) :
    parseTwoLetterCode (some (.str s)) fieldName = .ok (some s) := by
  obtain ⟨a, b, rfl, ha, hb⟩ := h
  have hvisible : IsVisible [a, b] := by
    have hleft := isLowerCase_bounds ha
    have hright := isLowerCase_bounds hb
    refine IsVisible.cons (by omega) (IsVisible.cons (by omega) ?_)
    simp [IsVisible]
  have hcode : isTwoLetterCode [a, b] = true := by simp [isTwoLetterCode, ha, hb]
  have hlower : toLowerCase [a, b] = [a, b] := by
    simp [toLowerCase, isUpperCase_of_lower ha, isUpperCase_of_lower hb]
  rw [parseTwoLetterCode, optionalString_normal (by simp) hvisible.trim_eq]
  show (do
    if !isTwoLetterCode [a, b] then
      throw (badRequest (fieldName ++ " must be a two-letter code") ("invalid_" ++ fieldName))
    return some (toLowerCase [a, b]) : Except JsError (Option JsString)) = _
  rw [hcode, hlower]
  rfl

theorem decimal_visible (n : Nat) : IsVisible (decimal n) := by
  intro c hc
  have hdigit := decimal_digits hc
  simp only [isDigit, Bool.and_eq_true, decide_eq_true_eq, UInt16.le_iff_toNat_le] at hdigit
  simp at hdigit
  omega

theorem padded_visible (width n : Nat) : IsVisible (padded width n) := by
  refine IsVisible.append ?_ (decimal_visible n)
  intro c hc
  rw [List.eq_of_mem_replicate hc]
  decide

theorem yearText_visible (year : Int) : IsVisible (yearText year) := by
  unfold yearText
  split
  · exact padded_visible _ _
  · refine IsVisible.cons ?_ (padded_visible _ _)
    split <;> decide

theorem toISOString_visible {time : Int} {text : JsString} (h : toISOString time = .ok text) :
    IsVisible text ∧ text ≠ [] := by
  unfold toISOString at h
  split at h
  · cases h
  · have htext := (Except.ok.inj h).symm
    subst htext
    refine ⟨?_, by simp⟩
    refine (yearText_visible _).append (.cons (by decide) ?_)
    refine (padded_visible _ _).append (.cons (by decide) ?_)
    refine (padded_visible _ _).append (.cons (by decide) ?_)
    refine (padded_visible _ _).append (.cons (by decide) ?_)
    refine (padded_visible _ _).append (.cons (by decide) ?_)
    refine (padded_visible _ _).append (.cons (by decide) ?_)
    refine (padded_visible _ _).append (.cons (by decide) ?_)
    simp [IsVisible]

theorem parseIsoDate_normal {s : JsString} (h : ReadsAs platform s) (fieldName : String) :
    parseIsoDate platform (some (.str s)) fieldName = .ok (some s) := by
  obtain ⟨time, htext, hparse⟩ := h
  obtain ⟨hvisible, hne⟩ := toISOString_visible htext
  rw [parseIsoDate, optionalString_normal hne hvisible.trim_eq]
  simp only [bind, Except.bind, hparse, htext]
  rfl

theorem parseSortBy_normal (sortBy : ArticleSortBy) :
    parseSortBy (some (.str sortBy.text)) = .ok (some sortBy) := by
  cases sortBy with
  | publishedAt => rfl
  | relevance => rfl

/-! ## What is accepted is normal -/

/-- Options that are read as they are. -/
structure NormalOptions (platform : Platform) (options : ArticleSearchOptions) : Prop where
  query : NormalText options.query
  count : 1 ≤ options.count ∧ options.count ≤ MAX_ARTICLE_COUNT
  page : 1 ≤ options.page ∧ options.page ≤ MAX_ARTICLE_PAGE
  lang : ∀ s, options.lang = some s → IsCode s
  country : ∀ s, options.country = some s → IsCode s
  «from» : ∀ s, options.from = some s → ReadsAs platform s
  «to» : ∀ s, options.to = some s → ReadsAs platform s
  range : ∀ s t, options.from = some s → options.to = some t → isAfter platform s t = false

section
variable {α β : Type} {x : Except JsError α} {f : α → Except JsError β}

theorem bind_eq_ok {b : β} (h : x >>= f = .ok b) : ∃ a, x = .ok a ∧ f a = .ok b := by
  cases x with
  | ok a => exact ⟨a, rfl, h⟩
  | error e => cases h

theorem normalizes_ok {P : α → Prop} (h : Normalizes P x) {a : α} (ha : x = .ok a) : P a := by
  subst ha
  exact h

end

theorem parsePositive_ok {standard maximum n : Nat} {error : JsError} {raw : Option QueryValue}
    (hstandard : 1 ≤ standard ∧ standard ≤ maximum)
    (h : parsePositive standard maximum error raw = .ok n) : 1 ≤ n ∧ n ≤ maximum := by
  unfold parsePositive at h
  split at h
  · cases h
    exact hstandard
  · cases h
    exact hstandard
  · obtain ⟨number, -, hnumber⟩ := bind_eq_ok h
    split at hnumber
    · rename_i q
      split at hnumber
      · cases hnumber
      · rename_i hq
        cases hnumber
        rw [not_or, Decidable.not_not, not_lt] at hq
        have hpos : 0 < q.num := Rat.num_pos.mpr (zero_lt_one.trans_le hq.2)
        omega
    · cases hnumber

theorem parseIsoDate_ok (hdates : ReadsBack platform) {value : Option QueryValue}
    {fieldName : String} {result : Option JsString}
    (h : parseIsoDate platform value fieldName = .ok result) :
    ∀ s, result = some s → ReadsAs platform s := by
  obtain ⟨s, -, hrest⟩ := bind_eq_ok h
  cases s with
  | none =>
    cases hrest
    simp
  | some s =>
    cases hparse : platform.dateParse s with
    | none =>
      simp only [hparse] at hrest
      cases hrest
    | some time =>
      simp only [hparse] at hrest
      obtain ⟨text, htext, hresult⟩ := bind_eq_ok hrest
      cases hresult
      intro s' hs'
      cases hs'
      exact ⟨time, htext, hdates s time text hparse htext⟩

/-- What the filters of an accepted query are, and where each comes from. -/
theorem parseArticleSearchFilters_ok {query : Query} {filters : ArticleSearchFilters}
    (h : parseArticleSearchFilters platform query = .ok filters) :
    parseIsoDate platform (query.lookup (js "from")) "from" = .ok filters.from ∧
    parseIsoDate platform (query.lookup (js "to")) "to" = .ok filters.to ∧
    (∀ s t, filters.from = some s → filters.to = some t → isAfter platform s t = false) ∧
    parseSortBy ((query.lookup (js "sortBy")).or (query.lookup (js "sortby"))) =
      .ok filters.sortBy ∧
    parseTwoLetterCode (query.lookup (js "lang")) "lang" = .ok filters.lang ∧
    parseTwoLetterCode (query.lookup (js "country")) "country" = .ok filters.country := by
  obtain ⟨f, hfrom, h⟩ := bind_eq_ok h
  obtain ⟨t, hto, h⟩ := bind_eq_ok h
  have hrest : (do
      let sortBy ← parseSortBy ((query.lookup (js "sortBy")).or (query.lookup (js "sortby")))
      let lang ← parseTwoLetterCode (query.lookup (js "lang")) "lang"
      let country ← parseTwoLetterCode (query.lookup (js "country")) "country"
      return (⟨lang, country, f, t, sortBy⟩ : ArticleSearchFilters)) = Except.ok filters ∧
      (∀ s u, f = some s → t = some u → isAfter platform s u = false) := by
    cases f with
    | none => exact ⟨h, by simp⟩
    | some f =>
      cases t with
      | none => exact ⟨h, by simp⟩
      | some t =>
        cases hafter : isAfter platform f t with
        | true =>
          simp only [hafter] at h
          cases h
        | false =>
          simp only [hafter] at h
          refine ⟨h, ?_⟩
          intro s u hs hu
          cases hs
          cases hu
          exact hafter
  obtain ⟨hrest, hrange⟩ := hrest
  obtain ⟨sortBy, hsort, hrest⟩ := bind_eq_ok hrest
  obtain ⟨lang, hlang, hrest⟩ := bind_eq_ok hrest
  obtain ⟨country, hcountry, hrest⟩ := bind_eq_ok hrest
  cases hrest
  exact ⟨hfrom, hto, hrange, hsort, hlang, hcountry⟩

theorem searchOptions_normal (hdates : ReadsBack platform) {query : Query}
    {options : ArticleSearchOptions} (h : searchOptions platform query = .ok options) :
    NormalOptions platform options := by
  obtain ⟨text, htext, h⟩ := bind_eq_ok h
  obtain ⟨count, hcount, h⟩ := bind_eq_ok h
  obtain ⟨page, hpage, h⟩ := bind_eq_ok h
  obtain ⟨filters, hfilters, h⟩ := bind_eq_ok h
  cases h
  obtain ⟨hfrom, hto, hrange, -, hlang, hcountry⟩ := parseArticleSearchFilters_ok hfilters
  exact {
    query := normalizes_ok (requireQueryString_normalizes _ _) htext
    count := parsePositive_ok (by decide) hcount
    page := parsePositive_ok (by decide) hpage
    lang := normalizes_ok (parseTwoLetterCode_normalizes _ _) hlang
    country := normalizes_ok (parseTwoLetterCode_normalizes _ _) hcountry
    «from» := parseIsoDate_ok hdates hfrom
    «to» := parseIsoDate_ok hdates hto
    range := hrange }

/-! ## Validating what was rendered -/

/-- An optional filter is read back if each of its values is. -/
theorem optional_normal {α : Type} (parse : Option QueryValue → Except JsError (Option α))
    (hnone : parse none = .ok none) {render : α → QueryValue} {value : Option α}
    (h : ∀ a, value = some a → parse (some (render a)) = .ok (some a)) :
    parse (value.map render) = .ok value := by
  cases value with
  | none => exact hnone
  | some a => exact h a rfl

theorem parseArticleSearchFilters_render {options : ArticleSearchOptions}
    (h : NormalOptions platform options) :
    parseArticleSearchFilters platform (renderQuery options) =
      .ok ⟨options.lang, options.country, options.from, options.to, options.sortBy⟩ := by
  obtain ⟨-, -, -, hlang, hcountry, hfrom, hto, hsort, hsortLower⟩ := renderQuery_lookup options
  have hdate : ∀ value name, (∀ s, value = some s → ReadsAs platform s) →
      parseIsoDate platform (value.map .str) name = .ok value := by
    intro value name hreads
    exact optional_normal (parseIsoDate platform · name) rfl fun s hs =>
      parseIsoDate_normal (hreads s hs) name
  have hcode : ∀ value name, (∀ s, value = some s → IsCode s) →
      parseTwoLetterCode (value.map .str) name = .ok value := by
    intro value name hcodes
    exact optional_normal (parseTwoLetterCode · name) rfl fun s hs =>
      parseTwoLetterCode_normal (hcodes s hs) name
  have hsortBy : parseSortBy (((options.sortBy.map ArticleSortBy.text).map .str).or none) =
      .ok options.sortBy := by
    rw [Option.or_none, Option.map_map]
    exact optional_normal parseSortBy rfl fun sortBy _ => parseSortBy_normal sortBy
  rw [parseArticleSearchFilters, hfrom, hto, hsort, hsortLower, hlang, hcountry,
    hdate _ _ h.from, hdate _ _ h.to, hsortBy, hcode _ _ h.lang, hcode _ _ h.country]
  have hrange := h.range
  cases hf : options.from with
  | none => rfl
  | some f =>
    cases ht : options.to with
    | none => rfl
    | some t =>
      have hafter := hrange f t hf ht
      simp only [bind, Except.bind, hafter]
      rfl

theorem searchOptions_render {options : ArticleSearchOptions} (h : NormalOptions platform options) :
    searchOptions platform (renderQuery options) = .ok options := by
  obtain ⟨hquery, hcount, hpage, -⟩ := renderQuery_lookup options
  rw [searchOptions, hquery, hcount, hpage, requireQueryString_normal h.query, parseArticleCount,
    parseArticlePage, parsePositive_normal (by decide) h.count,
    parsePositive_normal (by decide) h.page, parseArticleSearchFilters_render h]
  rfl

/-- **Normal forms**: the options of an accepted query, rendered as a query, are
accepted with the same options and so the same key, and two accepted queries
have one key exactly if they have the same options. -/
theorem canonical_request (hdates : ReadsBack platform) :
    (∀ query options, searchOptions platform query = .ok options →
      searchOptions platform (renderQuery options) = .ok options) ∧
    ∀ query query' options options', searchOptions platform query = .ok options →
      searchOptions platform query' = .ok options' →
      (searchCacheKey options = searchCacheKey options' ↔ options = options') := by
  constructor
  · intro query options h
    exact searchOptions_render (searchOptions_normal hdates h)
  · intro query query' options options' _ _
    exact ⟨searchCacheKey_injective, congrArg searchCacheKey⟩

/-- White space, letter case, a count above the maximum and a date without milliseconds. -/
def sampleQuery : Query :=
  [(js "query", .str (js " tech ")), (js "count", .str (js " 1e3")), (js "lang", .str (js "EN")),
    (js "from", .str (js " 2026-01-01T00:00:00Z"))]

def sampleOptions : ArticleSearchOptions :=
  ⟨js "tech", 100, 1, some (js "en"), none, some (js "2026-01-01T00:00:00.000Z"), none, none⟩

theorem sampleQuery_options : searchOptions samplePlatform sampleQuery = .ok sampleOptions := by
  have hoption : (searchOptions samplePlatform sampleQuery).toOption = some sampleOptions := by
    decide +kernel
  cases hresult : searchOptions samplePlatform sampleQuery with
  | ok options =>
    rw [hresult] at hoption
    exact congrArg Except.ok (Option.some.inj hoption)
  | error error =>
    rw [hresult] at hoption
    cases hoption

theorem canonical_request_sample :
    searchOptions samplePlatform (renderQuery sampleOptions) = .ok sampleOptions :=
  (canonical_request samplePlatform_dates.reads).1 sampleQuery sampleOptions sampleQuery_options

end NewsApi.Controllers
