import NewsApi.Http.Responses
import NewsApi.Services.NewsService

/-! # The versioned responses -/
namespace NewsApi.Controllers
open NewsApi.Text NewsApi.Types NewsApi.Errors NewsApi.Http NewsApi.Services

def ArticleSearchCacheStatus.text : ArticleSearchCacheStatus → JsString
  | .hit => js "hit"
  | .miss => js "miss"
  | .coalesced => js "coalesced"
  | .stale => js "stale"

def orUndefined : Option JsString → JsonValue
  | some value => .str value
  | none => .undefined

/-- `...(value ? { name: value } : {})` -/
def optionalMember (name : JsString) : Option JsString → Meta
  | some value => [(name, .str value)]
  | none => []

/-- `lang` and `country` are there even when they are `undefined`. -/
def filtersOf (options : ArticleSearchOptions) : JsonValue :=
  .obj ([(js "lang", orUndefined options.lang), (js "country", orUndefined options.country)] ++
    optionalMember (js "from") options.from ++ optionalMember (js "to") options.to ++
    optionalMember (js "sortBy") (options.sortBy.map ArticleSortBy.text))

variable (sha256 : List UInt8 → Digest) (fresh : Request → JsString → Bool)

/-- `searchArticlesV1` once the search has settled. -/
def searchArticlesV1 (req : Request) (options : ArticleSearchOptions)
    (result : ArticleSearchResult) : Except JsError Response :=
  sendEnvelope sha256 fresh req (ofJson result.articles.value)
    [(js "query", .str options.query), (js "count", .num options.count),
      (js "page", .num options.page), (js "filters", filtersOf options),
      (js "cache", .str (ArticleSearchCacheStatus.text result.cache))]

variable {sha256 fresh}

/-- A search has one tag for its articles, whether they are a provider's, from
either cache, or another search's. -/
theorem searchArticlesV1_etag (req req' : Request) (options : ArticleSearchOptions)
    {result result' : ArticleSearchResult} (h : result.articles = result'.articles) :
    ∃ res res', searchArticlesV1 sha256 fresh req options result = .ok res ∧
      searchArticlesV1 sha256 fresh req' options result' = .ok res' ∧ res.etag = res'.etag := by
  obtain ⟨text, res, htext, -, hres, hetag, -⟩ := @sendEnvelope_ok sha256 fresh req
    (ofJson result.articles.value)
    [(js "query", .str options.query), (js "count", .num options.count),
      (js "page", .num options.page), (js "filters", filtersOf options),
      (js "cache", .str (ArticleSearchCacheStatus.text result.cache))]
  obtain ⟨text', res', htext', -, hres', hetag', -⟩ := @sendEnvelope_ok sha256 fresh req'
    (ofJson result'.articles.value)
    [(js "query", .str options.query), (js "count", .num options.count),
      (js "page", .num options.page), (js "filters", filtersOf options),
      (js "cache", .str (ArticleSearchCacheStatus.text result'.cache))]
  have hstable : some text = some text' := by
    rw [← htext, ← htext', h]
    rfl
  rw [Option.some.inj hstable] at hetag
  exact ⟨res, res', hres, hres', hetag.trans hetag'.symm⟩

end NewsApi.Controllers
