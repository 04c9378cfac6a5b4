import NewsApi.Controllers.NewsController
import NewsApi.Controllers.SearchRequest
import NewsApi.Http.Routes

/-! # The controllers

Each controller validates its request, asks for a search, and answers once the
search has settled. The service's own functions over a search are here too: an
article of one title, and the articles of one source. -/
namespace NewsApi.Services
open NewsApi.Text NewsApi.Types NewsApi.Config

def itemsOf (articles : ArticleList) : List Json :=
  match articles.value with
  | .arr items => items
  | _ => []

/-- A member that is a string; `[]` for none, which no article has. -/
def stringMember (name : String) (value : Json) : JsString :=
  match value.get (js name) with
  | some (.str text) => text
  | _ => []

def sourceName (article : Json) : JsString :=
  ((article.get (js "source")).map (stringMember "name")).getD []

/-- `fetchArticlesByTitle`, once its search has settled -/
def findByTitle (title : JsString) (articles : ArticleList) : Option Json :=
  (itemsOf articles).find? fun article => stringMember "title" article == title

/-- `fetchArticlesBySource`, once its search has settled -/
def filterBySource (lowerCase : JsString → JsString) (name : JsString) (articles : ArticleList) :
    List Json :=
  (itemsOf articles).filter fun article => lowerCase (sourceName article) == lowerCase name

/-- The search of `fetchArticlesByTitle`. -/
def titleOptions (title : JsString) : ArticleSearchOptions where
  query := title
  count := 10
  page := 1
  lang := none
  country := none
  «from» := none
  «to» := none
  sortBy := none

end NewsApi.Services

namespace NewsApi.Controllers
open NewsApi.Text NewsApi.Types NewsApi.Config NewsApi.Errors NewsApi.Http NewsApi.Utils
open NewsApi.Services
open NewsApi.Routes (Handler Params)

/-- What the runtime and the framework do themselves. -/
structure Framework where
  sha256 : List UInt8 → Digest
  /-- a request against the entity tag of its response -/
  fresh : Request → JsString → Bool
  /-- the tag of a text that has been given none -/
  etag : JsString → JsString
  parseQuery : JsString → Query
  lowerCase : JsString → JsString

/-- A controller that waits for its search. -/
structure Pending where
  options : ArticleSearchOptions
  settled : ArticleSearchResult → Except JsError Response

variable (framework : Framework) (platform : Platform)

/-- `res.status(status).json(body)`. The framework looks at `fresh` for a status
of success only. -/
def sendJson (req : Request) (status : Nat) (body : JsonValue) : Response :=
  let text := (stringify body).getD []
  let entityTag := framework.etag text
  if status = 200 && framework.fresh req entityTag then ⟨304, [("ETag", entityTag)], none⟩
  else ⟨status, [("ETag", entityTag)], some text⟩

def getArticles (req : Request) (query : Query) : Except JsError Pending := do
  let options ← searchOptions platform query
  return ⟨options, fun result => .ok (sendJson framework req 200 (ofJson result.articles.value))⟩

/-- `searchArticlesV1` up to its search, and what it does then. -/
def beginSearchArticlesV1 (req : Request) (query : Query) : Except JsError Pending := do
  let options ← searchOptions platform query
  return ⟨options, searchArticlesV1 framework.sha256 framework.fresh req options⟩

def requireParam (params : Params) (name : String) : Except JsError JsString :=
  requireQueryString ((params.lookup (js name)).map .str) name

def getArticlesByTitle (req : Request) (params : Params) : Except JsError Pending := do
  let title ← requireParam params "title"
  return ⟨titleOptions title, fun result => .ok (match findByTitle title result.articles with
    | some article => sendJson framework req 200 (ofJson article)
    | none => sendJson framework req 404 (.obj [(js "error", .str (js "Article not found"))]))⟩

def articleNotFound : HttpError where
  statusCode := 404
  message := "Article not found"
  code := "article_not_found"
  retryAfter := none

def getArticlesByTitleV1 (req : Request) (params : Params) : Except JsError Pending := do
  let title ← requireParam params "title"
  return ⟨titleOptions title, fun result => match findByTitle title result.articles with
    | some article => sendEnvelope framework.sha256 framework.fresh req (ofJson article)
      [(js "title", .str title)]
    | none => .error (.http articleNotFound)⟩

/-- The search of `fetchArticlesBySource`, whose name has been validated. -/
def sourceOptions (source : JsString) (query : Query) : Except JsError ArticleSearchOptions := do
  let count ← parseArticleCount (query.lookup (js "count"))
  let page ← parseArticlePage (query.lookup (js "page"))
  let filters ← parseArticleSearchFilters platform query
  return ⟨source, count, page, filters.lang, filters.country, filters.from, filters.to,
    filters.sortBy⟩

def getArticlesBySource (req : Request) (query : Query) : Except JsError Pending := do
  let source ← requireQueryString (query.lookup (js "source")) "source"
  let options ← sourceOptions platform source query
  return ⟨options, fun result => .ok (sendJson framework req 200
    (ofJson (.arr (filterBySource framework.lowerCase source result.articles))))⟩

def getArticlesBySourceV1 (req : Request) (params : Params) (query : Query) :
    Except JsError Pending := do
  let source ← requireParam params "source"
  let options ← sourceOptions platform source query
  return ⟨options, fun result => sendEnvelope framework.sha256 framework.fresh req
    (ofJson (.arr (filterBySource framework.lowerCase source result.articles)))
    [(js "source", .str source), (js "count", .num options.count), (js "page", .num options.page),
      (js "filters", filtersOf options)]⟩

/-- The handlers that are controllers. -/
def controller (req : Request) (params : Params) (query : Query) :
    Handler → Option (Except JsError Pending)
  | .searchArticlesV1 => some (beginSearchArticlesV1 framework platform req query)
  | .getArticlesByTitleV1 => some (getArticlesByTitleV1 framework req params)
  | .getArticlesBySourceV1 => some (getArticlesBySourceV1 framework platform req params query)
  | .getArticles => some (getArticles framework platform req query)
  | .getArticlesByTitle => some (getArticlesByTitle framework req params)
  | .getArticlesBySource => some (getArticlesBySource framework platform req query)
  | _ => none

end NewsApi.Controllers
