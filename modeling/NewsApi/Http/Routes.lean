import NewsApi.Http.Url

/-! # Routes

The routes of the application, matched as the router matches them: segment by
segment, ASCII letters in either case, with or without a slash at the end. -/
namespace NewsApi.Routes
open Text Utils Http

inductive Method where
  | get
  | head
  | options
  | other
deriving DecidableEq, Repr

inductive Handler where
  | health
  | ready
  | openApiYaml
  | metrics
  | root
  | searchArticlesV1
  | getArticlesByTitleV1
  | getArticlesBySourceV1
  | getArticles
  | getArticlesByTitle
  | getArticlesBySource
  | methodNotAllowed
deriving DecidableEq, Repr

/-- Names and values. -/
abbrev Params := List (JsString × JsString)

/-- `:name` stands for one segment. -/
inductive Piece where
  | literal (text : JsString)
  | param (name : JsString)
deriving DecidableEq, Repr

def readPiece : JsString → Piece
  | 0x3A :: name => .param name
  | text => .literal text

def readPieces (path : String) : List Piece :=
  (((js path).splitOn 0x2F).filter fun piece => !piece.isEmpty).map readPiece

def sameLiteral (text segment : JsString) : Bool := toLowerCase text == toLowerCase segment

/-- The segments that the parameters stand for, still encoded. -/
def matchPieces : List Piece → List JsString → Option Params
  | [], [] => some []
  | [], [[]] => some []
  | .literal text :: pieces, segment :: rest =>
    if sameLiteral text segment then matchPieces pieces rest else none
  | .param name :: pieces, segment :: rest =>
    if segment.isEmpty then none
    else (matchPieces pieces rest).map ((name, segment) :: ·)
  | _, _ => none

def decodeParams : Params → Option Params
  | [] => some []
  | (name, raw) :: rest => (decodeURIComponent raw).bind fun value =>
      (decodeParams rest).map ((name, value) :: ·)

/-- `everyMethod`: added with `all`, and otherwise with `get`. -/
structure Layer where
  everyMethod : Bool
  pieces : List Piece
  handler : Handler
deriving DecidableEq, Repr

/-- A `get` route answers `HEAD` too. -/
def Layer.handles (layer : Layer) (method : Method) : Bool :=
  layer.everyMethod || method == .get || method == .head

inductive Outcome where
  | handled (handler : Handler) (params : Params)
  /-- a parameter that cannot be decoded: 400 -/
  | undecodable
deriving DecidableEq, Repr

/-- The first layer that fits. `none`: it is for what comes after these layers. -/
def dispatch (method : Method) (path : List JsString) : List Layer → Option Outcome
  | [] => none
  | layer :: layers =>
    match matchPieces layer.pieces path with
    | none => dispatch method path layers
    | some raw =>
      match decodeParams raw with
      | none => some .undecodable
      | some params =>
        if layer.handles method then some (.handled layer.handler params)
        else dispatch method path layers

def get (path : String) (handler : Handler) : Layer := ⟨false, readPieces path, handler⟩

def all (path : String) (handler : Handler) : Layer := ⟨true, readPieces path, handler⟩

def readOnlyRoute (path : String) (handler : Handler) : List Layer :=
  [get path handler, all path .methodNotAllowed]

def routes : List Layer :=
  readOnlyRoute "/v1/articles" .searchArticlesV1 ++
  readOnlyRoute "/v1/articles/search" .searchArticlesV1 ++
  readOnlyRoute "/v1/articles/title/:title" .getArticlesByTitleV1 ++
  readOnlyRoute "/v1/sources/:source/articles" .getArticlesBySourceV1 ++
  readOnlyRoute "/articles" .getArticles ++
  readOnlyRoute "/articles/title/:title" .getArticlesByTitle ++
  readOnlyRoute "/articles/source" .getArticlesBySource

/-- What the application answers itself. -/
def appRoutes : List Layer :=
  [get "/health" .health, get "/ready" .ready, get "/openapi.yaml" .openApiYaml,
    get "/metrics" .metrics, get "/" .root]

/-- The path that is left to a router at `/name`. A slash after the name is
taken with it, if another follows. -/
def mounted (name : String) : List JsString → Option (List JsString)
  | [] => none
  | segment :: rest =>
    if sameLiteral (js name) segment then
      match rest with
      | [] => some [[]]
      | [] :: next :: rest => some (next :: rest)
      | rest => some rest
    else none

/-- `none`: no route answers. The guards in front of `routes` let the request pass. -/
def servePath (method : Method) (path : List JsString) : Option Outcome :=
  match dispatch method path appRoutes with
  | some outcome => some outcome
  | none => (mounted "api" path).bind fun path => dispatch method path routes

def serve (method : Method) (target : JsString) : Option Outcome :=
  servePath method (targetPath target)

example : serve .get (js "/api/V1/articles/?query=x") = some (.handled .searchArticlesV1 []) := by
  decide +kernel

/-! ## The two routes with a parameter -/

def reached (handler : Handler) (name : String) (raw : JsString) : Option Outcome :=
  match decodeParams [(js name, raw)] with
  | none => some .undecodable
  | some params => some (.handled handler params)

theorem servePath_title {raw : JsString} (h : raw ≠ []) :
    servePath .get [js "api", js "v1", js "articles", js "title", raw] =
      reached .getArticlesByTitleV1 "title" raw := by
  obtain ⟨c, raw, rfl⟩ := List.exists_cons_of_ne_nil h
  rfl

theorem servePath_source {raw : JsString} (h : raw ≠ []) :
    servePath .get [js "api", js "v1", js "sources", raw, js "articles"] =
      reached .getArticlesBySourceV1 "source" raw := by
  obtain ⟨c, raw, rfl⟩ := List.exists_cons_of_ne_nil h
  rfl

end NewsApi.Routes
