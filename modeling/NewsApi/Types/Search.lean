import NewsApi.Text.JsString

/-! # Search options -/
namespace NewsApi.Types
open NewsApi.Text

inductive ArticleSortBy where
  | publishedAt
  | relevance
  deriving DecidableEq

def ArticleSortBy.text : ArticleSortBy → JsString
  | .publishedAt => js "publishedAt"
  | .relevance => js "relevance"

/-- A normalized search; an absent filter is `none`. -/
structure ArticleSearchOptions where
  query : JsString
  count : Nat
  page : Nat
  lang : Option JsString
  country : Option JsString
  «from» : Option JsString
  «to» : Option JsString
  sortBy : Option ArticleSortBy
  deriving DecidableEq

theorem ArticleSortBy.text_injective {a b : ArticleSortBy} (h : a.text = b.text) : a = b := by
  revert h; cases a <;> cases b <;> decide

end NewsApi.Types
