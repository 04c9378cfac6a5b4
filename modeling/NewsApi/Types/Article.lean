import NewsApi.Text.JsString

/-! # Parsed JSON values and articles

Cache entries and provider payloads are parsed JSON values. An article list is
such a value that `isArticleList` accepts, so a list that failed the check
cannot be built. -/
namespace NewsApi.Types
open NewsApi.Text

/-- A number of the runtime; the two zeros are one. -/
inductive JsNumber where
  | nan
  | infinity (negative : Bool)
  | finite (value : Rat)
  deriving DecidableEq

/-- A parsed JSON value. A number that is too large for a double was parsed as an
infinity. Object members keep their order; names are looked up from the front. -/
inductive Json where
  | null
  | bool (b : Bool)
  | num (n : JsNumber)
  | str (s : JsString)
  | arr (items : List Json)
  | obj (members : List (JsString × Json))

/-- `value[name]`; `none` is `undefined`. -/
def Json.get : Json → JsString → Option Json
  | .obj members, name => members.lookup name
  | _, _ => none

/-- `value !== null && typeof value === "object"`, which arrays satisfy too. -/
def isRecord : Json → Bool
  | .obj _ => true
  | .arr _ => true
  | _ => false

/-- `typeof value === "string"` -/
def isString : Option Json → Bool
  | some (.str _) => true
  | _ => false

def isStringOrNull : Option Json → Bool
  | some .null => true
  | value => isString value

def isArticleSource (value : Option Json) : Bool :=
  match value with
  | some v => isRecord v && isString (v.get (js "name")) && isString (v.get (js "url"))
  | none => false

def isArticle (value : Json) : Bool :=
  isRecord value && isString (value.get (js "title")) &&
    isStringOrNull (value.get (js "description")) && isStringOrNull (value.get (js "content")) &&
    isString (value.get (js "url")) && isStringOrNull (value.get (js "image")) &&
    isString (value.get (js "publishedAt")) && isArticleSource (value.get (js "source"))

def isArticleList : Json → Bool
  | .arr items => items.all isArticle
  | _ => false

/-- `Article[]` -/
structure ArticleList where
  value : Json
  isList : isArticleList value = true

def ArticleList.length (articles : ArticleList) : Nat :=
  match articles.value with
  | .arr items => items.length
  | _ => 0

/-- The type guard `isArticleList(value)`. -/
def asArticleList (value : Json) : Option ArticleList :=
  if h : isArticleList value = true then some ⟨value, h⟩ else none

theorem asArticleList_value {value : Json} {articles : ArticleList}
    (h : asArticleList value = some articles) : articles.value = value := by
  unfold asArticleList at h
  split at h
  · exact Option.some.inj h ▸ rfl
  · cases h

theorem ArticleList.ext {a b : ArticleList} (h : a.value = b.value) : a = b := by
  cases a; cases b; cases h; rfl

end NewsApi.Types
