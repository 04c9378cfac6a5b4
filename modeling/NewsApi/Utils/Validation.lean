import NewsApi.Types.Search
import NewsApi.Utils.Coercion

/-! # Query validation -/
namespace NewsApi.Utils
open NewsApi.Text NewsApi.Types NewsApi.Config NewsApi.Errors NewsApi.Http

/-- The parsed query, by its own members. -/
abbrev Query := List (JsString × QueryValue)

structure ArticleSearchFilters where
  lang : Option JsString
  country : Option JsString
  «from» : Option JsString
  «to» : Option JsString
  sortBy : Option ArticleSortBy

def badRequest (message code : String) : JsError :=
  .http { statusCode := 400, message := message, code := code, retryAfter := none }

/-- An absent or empty parameter has a default, a number is capped. -/
def parsePositive (standard maximum : Nat) (error : JsError) :
    Option QueryValue → Except JsError Nat
  | none | some (.str []) => .ok standard
  | some raw => do
    match ← numberOf raw with
    | .finite n => if n.den ≠ 1 ∨ n < 1 then throw error else return min n.num.toNat maximum
    | _ => throw error

def parseArticleCount (raw : Option QueryValue) : Except JsError Nat :=
  parsePositive DEFAULT_ARTICLE_COUNT MAX_ARTICLE_COUNT
    (badRequest "count must be a positive integer" "invalid_count") raw

def parseArticlePage (raw : Option QueryValue) : Except JsError Nat :=
  parsePositive DEFAULT_ARTICLE_PAGE MAX_ARTICLE_PAGE
    (badRequest "page must be a positive integer" "invalid_page") raw

def requireQueryString (value : Option QueryValue) (fieldName : String) :
    Except JsError JsString :=
  let s := match value with
    | some (.str value) => trim value
    | _ => []
  if s.isEmpty then
    .error (badRequest ("Missing or empty query parameter: " ++ fieldName)
      "missing_query_parameter")
  else if MAX_SEARCH_TEXT_LENGTH < s.length then
    .error (badRequest
      (fieldName ++ " must be at most " ++ toString MAX_SEARCH_TEXT_LENGTH ++ " characters")
      ("invalid_" ++ fieldName ++ "_length"))
  else .ok s

def optionalString (value : Option QueryValue) (fieldName : String) :
    Except JsError (Option JsString) :=
  match value with
  | none | some (.str []) => .ok none
  | some (.str value) => .ok (if (trim value).isEmpty then none else some (trim value))
  | some _ => .error (badRequest (fieldName ++ " must be a string") "invalid_query_parameter")

def isUpperCase (c : CodeUnit) : Bool := 0x41 ≤ c && c ≤ 0x5A
def isLowerCase (c : CodeUnit) : Bool := 0x61 ≤ c && c ≤ 0x7A

/-- `/^[a-z]{2}$/i`: no other character folds to a letter of this class. -/
def isTwoLetterCode : JsString → Bool
  | [a, b] => (isUpperCase a || isLowerCase a) && (isUpperCase b || isLowerCase b)
  | _ => false

/-- `toLowerCase` of a string of letters -/
def toLowerCase (s : JsString) : JsString := s.map fun c => if isUpperCase c then c + 0x20 else c

def parseTwoLetterCode (value : Option QueryValue) (fieldName : String) :
    Except JsError (Option JsString) := do
  match ← optionalString value fieldName with
  | none => return none
  | some s =>
    if !isTwoLetterCode s then
      throw (badRequest (fieldName ++ " must be a two-letter code") ("invalid_" ++ fieldName))
    return some (toLowerCase s)

variable (platform : Platform)

def parseIsoDate (value : Option QueryValue) (fieldName : String) :
    Except JsError (Option JsString) := do
  match ← optionalString value fieldName with
  | none => return none
  | some s =>
    match platform.dateParse s with
    | none =>
      throw (badRequest (fieldName ++ " must be an ISO 8601 date") ("invalid_" ++ fieldName))
    | some timestamp => return some (← toISOString timestamp)

def parseSortBy (value : Option QueryValue) : Except JsError (Option ArticleSortBy) := do
  match ← optionalString value "sortBy" with
  | none => return none
  | some s =>
    if s = ArticleSortBy.publishedAt.text then return some .publishedAt
    else if s = ArticleSortBy.relevance.text then return some .relevance
    else throw (badRequest "sortBy must be one of: publishedAt, relevance" "invalid_sort_by")

/-- `Date.parse(from) > Date.parse(to)`, which `NaN` never satisfies. -/
def isAfter («from» «to» : JsString) : Bool :=
  match platform.dateParse «from», platform.dateParse «to» with
  | some a, some b => b < a
  | _, _ => false

def parseArticleSearchFilters (query : Query) : Except JsError ArticleSearchFilters := do
  let «from» ← parseIsoDate platform (query.lookup (js "from")) "from"
  let «to» ← parseIsoDate platform (query.lookup (js "to")) "to"
  if let some f := «from» then
    if let some t := «to» then
      if isAfter platform f t then
        throw (badRequest "from must be before or equal to to" "invalid_date_range")
  let sortBy ← parseSortBy ((query.lookup (js "sortBy")).or (query.lookup (js "sortby")))
  let lang ← parseTwoLetterCode (query.lookup (js "lang")) "lang"
  let country ← parseTwoLetterCode (query.lookup (js "country")) "country"
  return ⟨lang, country, «from», «to», sortBy⟩

end NewsApi.Utils
