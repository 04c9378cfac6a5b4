import Mathlib.Data.List.DropRight
import NewsApi.Http.Routes
import NewsApi.Http.RetryAfter

/-! # Client paths

A title or a source name that the client puts in a path comes out of it at the
handler as it was, unless the path takes it for a dot segment. -/
namespace NewsApi.Client
open Text Http Routes

/-! ## The client -/

/-- Query parameters by name; `none` is `undefined`. -/
abbrev QueryParams := List (JsString × Option JsString)

/-- `searchParams.set` -/
def setParam (name value : JsString) : List (JsString × JsString) → List (JsString × JsString)
  | [] => [(name, value)]
  | (other, old) :: rest =>
    if other = name then (name, value) :: rest.filter (·.1 != name)
    else (other, old) :: setParam name value rest

/-- In a form a space is a plus. -/
def copyInForm (c : CodeUnit) : Option CodeUnit :=
  if c = 0x20 then some 0x2B
  else if isAsciiAlphanumeric c || (js "*-._").contains c then some c
  else none

def formPair (pair : JsString × JsString) : JsString :=
  percentEncode copyInForm pair.1 ++ 0x3D :: percentEncode copyInForm pair.2

def formText (params : List (JsString × JsString)) : JsString :=
  List.intercalate [0x26] (params.map formPair)

/-- The parameters that are not undefined, as texts. The paths of the client
come without a query. -/
def withQuery (query : QueryParams) (url : Url) : Url :=
  let params := query.foldl
    (fun params (name, value) => value.elim params fun value => setParam name value params) []
  if params.isEmpty then url else { url with query := some (formText params) }

structure NewsApiClient where
  baseUrl : JsString
  apiKey : Option JsString
deriving DecidableEq, Repr

/-- `replace(/\/+$/, "")` -/
def NewsApiClient.new (baseUrl : JsString) (apiKey : Option JsString) : NewsApiClient :=
  ⟨baseUrl.rdropWhile (· == 0x2F), apiKey⟩

section
variable (authorityOf : JsString → JsString → Option JsString)

def buildUrl (client : NewsApiClient) (path : JsString) (query : QueryParams) : Option Url :=
  (readUrl authorityOf (client.baseUrl ++ path)).map (withQuery query)

/-- `none`: the client throws before it sends anything. -/
def getArticleByTitle (client : NewsApiClient) (title : JsString) : Option Url :=
  (encodeURIComponent title).bind fun encoded =>
    buildUrl authorityOf client (js "/api/v1/articles/title/" ++ encoded) []

def listSourceArticles (client : NewsApiClient) (source : JsString)
    (params : QueryParams) : Option Url :=
  (encodeURIComponent source).bind fun encoded =>
    buildUrl authorityOf client (js "/api/v1/sources/" ++ encoded ++ js "/articles") params

end

/-- The request gets to this handler, with these parameters. -/
def Reaches (request : Option Url) (handler : Handler) (params : Params) : Prop :=
  ∃ url, request = some url ∧ serve .get url.target = some (.handled handler params)

/-! ## What a base URL gives -/

/-- A base URL that the URL standard accepts. -/
structure Base (authorityOf : JsString → JsString → Option JsString) where
  origin : Origin
  accepted : (authorityOf origin.scheme origin.authority).isSome = true
  slashes : Nat

def Base.text {authorityOf : JsString → JsString → Option JsString} (base : Base authorityOf) :
    JsString :=
  base.origin.text ++ List.replicate base.slashes 0x2F

variable {authorityOf : JsString → JsString → Option JsString} {apiKey : Option JsString}

theorem new_baseUrl (base : Base authorityOf) :
    (NewsApiClient.new base.text apiKey).baseUrl = base.origin.text := by
  obtain ⟨origin, -, slashes⟩ := base
  induction slashes with
  | zero =>
    -- the host does not end with a slash
    obtain ⟨host, c, hlast⟩ := List.eq_nil_or_concat origin.authority |>.resolve_left origin.named
    have hbare := (origin.bare c (by simp [hlast])).2
    have hc : ¬ (c == 0x2F) = true := by
      intro hc
      rw [eq_of_beq hc] at hbare
      exact absurd hbare (by decide +kernel)
    simp only [NewsApiClient.new, Base.text, List.replicate_zero, List.append_nil, Origin.text,
      hlast, List.concat_eq_append]
    rw [← List.append_assoc, List.rdropWhile_concat_neg (· == 0x2F) _ c hc]
  | succ slashes ih =>
    simp only [NewsApiClient.new, Base.text] at ih ⊢
    rw [List.replicate_succ', ← List.append_assoc, List.rdropWhile_concat_pos _ _ _ rfl, ih]

theorem withQuery_path (query : QueryParams) (url : Url) :
    (withQuery query url).path = url.path := by
  simp only [withQuery]
  split
  · rfl
  · rfl

theorem reaches_iff {url : Url} (hne : url.path ≠ []) (h : ∀ s ∈ url.path, IsPlain s)
    (handler : Handler) (params : Params) :
    Reaches (some url) handler params ↔
      servePath .get url.path = some (.handled handler params) := by
  have hserve : serve .get url.target = servePath .get url.path := by
    rw [serve, targetPath_target hne h]
  rw [← hserve]
  constructor
  · intro hreaches
    obtain ⟨other, hother, hhandled⟩ := hreaches
    cases hother
    exact hhandled
  · intro hhandled
    exact ⟨url, rfl, hhandled⟩

/-- Where a request goes is read off the path of its text. -/
theorem reaches_slashed (base : Base authorityOf) {segments : List JsString} (hne : segments ≠ [])
    (h : ∀ s ∈ segments, IsPlain s) (query : QueryParams) (handler : Handler) (params : Params) :
    Reaches (buildUrl authorityOf (NewsApiClient.new base.text apiKey) (slashed segments) query)
      handler params ↔ servePath .get (walk [] segments) = some (.handled handler params) := by
  obtain ⟨authority, hauthority⟩ := Option.isSome_iff_exists.mp base.accepted
  rw [buildUrl, new_baseUrl, readUrl_origin authorityOf base.origin hne h, hauthority,
    Option.map_some, Option.map_some]
  have hplain : ∀ s ∈ walk [] segments, IsPlain s := walk_plain (by simp) h
  rw [reaches_iff, withQuery_path]
  · rw [withQuery_path]
    exact walk_ne_nil hne []
  · rw [withQuery_path]
    exact hplain

/-! ## Encoded names -/

theorem encoded_plain (text : JsString) : IsPlain (percentEncode copyUnreserved text) :=
  fun _ => percentEncode_chars

def IsDots (text : JsString) : Prop := text = js "." ∨ text = js ".."

instance (text : JsString) : Decidable (IsDots text) :=
  inferInstanceAs (Decidable (text = js "." ∨ text = js ".."))

theorem encoded_name {text : JsString} (hwell : isWellFormed text = true) (hdots : ¬ IsDots text) :
    IsName (percentEncode copyUnreserved text) := by
  have hdecode := decode_percentEncode hwell
  refine ⟨encoded_plain text, ?_, ?_⟩
  · refine Bool.eq_false_iff.mpr fun h => hdots (.inl ?_)
    rw [decode_singleDot h] at hdecode
    exact (Option.some.inj hdecode).symm
  · refine Bool.eq_false_iff.mpr fun h => hdots (.inr ?_)
    rw [decode_doubleDot h] at hdecode
    exact (Option.some.inj hdecode).symm

theorem encoded_ne_nil {text : JsString} (hwell : isWellFormed text = true) (hne : text ≠ []) :
    percentEncode copyUnreserved text ≠ [] := by
  intro h
  have hdecode := decode_percentEncode hwell
  rw [h, decodeURIComponent] at hdecode
  exact hne (Option.some.inj hdecode).symm

theorem reached_encoded {text : JsString} (hwell : isWellFormed text = true) (handler : Handler)
    (name : String) : reached handler name (percentEncode copyUnreserved text) =
      some (.handled handler [(js name, text)]) := by
  simp [reached, decodeParams, decode_percentEncode hwell]

/-! ## The two paths -/

def titleSegments (raw : JsString) : List JsString :=
  [js "api", js "v1", js "articles", js "title", raw]

def sourceSegments (raw : JsString) : List JsString :=
  [js "api", js "v1", js "sources", raw, js "articles"]

section
variable {P : JsString → Prop} {raw : JsString}

theorem forall_titleSegments (hraw : P raw)
    (hnames : ∀ s ∈ [js "api", js "v1", js "articles", js "title"], P s) :
    ∀ s ∈ titleSegments raw, P s :=
  List.forall_mem_append.mpr ⟨hnames, List.forall_mem_singleton.mpr hraw⟩

theorem forall_sourceSegments (hraw : P raw)
    (hnames : ∀ s ∈ [js "api", js "v1", js "sources", js "articles"], P s) :
    ∀ s ∈ sourceSegments raw, P s := by
  simp only [sourceSegments, List.forall_mem_cons] at hnames ⊢
  exact ⟨hnames.1, hnames.2.1, hnames.2.2.1, hraw, hnames.2.2.2⟩

end

theorem titleNames : ∀ s ∈ [js "api", js "v1", js "articles", js "title"], IsName s := by
  decide +kernel

theorem sourceNames : ∀ s ∈ [js "api", js "v1", js "sources", js "articles"], IsName s := by
  decide +kernel

theorem getArticleByTitle_reaches (base : Base authorityOf) {title : JsString}
    (hwell : isWellFormed title = true) (handler : Handler) (params : Params) :
    Reaches (getArticleByTitle authorityOf (NewsApiClient.new base.text apiKey) title)
      handler params ↔
      servePath .get (walk [] (titleSegments (percentEncode copyUnreserved title))) =
        some (.handled handler params) := by
  have htext : js "/api/v1/articles/title/" ++ percentEncode copyUnreserved title =
      slashed (titleSegments (percentEncode copyUnreserved title)) := by
    simp only [slashed, titleSegments, List.flatMap_cons, List.flatMap_nil, List.append_nil]
    rfl
  rw [getArticleByTitle, encodeURIComponent, if_pos hwell, Option.bind_some, htext]
  exact reaches_slashed base (List.cons_ne_nil _ _)
    (forall_titleSegments (encoded_plain title) fun s hs => (titleNames s hs).plain) [] handler
    params

theorem listSourceArticles_reaches (base : Base authorityOf) {source : JsString}
    (hwell : isWellFormed source = true) (query : QueryParams) (handler : Handler)
    (params : Params) :
    Reaches (listSourceArticles authorityOf (NewsApiClient.new base.text apiKey) source query)
      handler params ↔
      servePath .get (walk [] (sourceSegments (percentEncode copyUnreserved source))) =
        some (.handled handler params) := by
  have htext : js "/api/v1/sources/" ++ percentEncode copyUnreserved source ++ js "/articles" =
      slashed (sourceSegments (percentEncode copyUnreserved source)) := by
    simp only [slashed, sourceSegments, List.flatMap_cons, List.flatMap_nil, List.append_nil,
      List.append_assoc]
    rfl
  rw [listSourceArticles, encodeURIComponent, if_pos hwell, Option.bind_some, htext]
  exact reaches_slashed base (List.cons_ne_nil _ _)
    (forall_sourceSegments (encoded_plain source) fun s hs => (sourceNames s hs).plain) query
    handler params

theorem title_dots {title : JsString} (h : IsDots title) :
    servePath .get (walk [] (titleSegments (percentEncode copyUnreserved title))) ≠
      some (.handled .getArticlesByTitleV1 [(js "title", title)]) := by
  rcases h with rfl | rfl
  · decide +kernel
  · decide +kernel

theorem source_dots {source : JsString} (h : IsDots source) :
    servePath .get (walk [] (sourceSegments (percentEncode copyUnreserved source))) ≠
      some (.handled .getArticlesBySourceV1 [(js "source", source)]) := by
  rcases h with rfl | rfl
  · decide +kernel
  · decide +kernel

theorem title_served {title : JsString} (hwell : isWellFormed title = true) (hne : title ≠ [])
    (hdots : ¬ IsDots title) :
    servePath .get (walk [] (titleSegments (percentEncode copyUnreserved title))) =
      some (.handled .getArticlesByTitleV1 [(js "title", title)]) := by
  rw [walk_names (forall_titleSegments (encoded_name hwell hdots) titleNames), List.nil_append]
  exact (servePath_title (encoded_ne_nil hwell hne)).trans (reached_encoded hwell _ "title")

theorem source_served {source : JsString} (hwell : isWellFormed source = true)
    (hne : source ≠ []) (hdots : ¬ IsDots source) :
    servePath .get (walk [] (sourceSegments (percentEncode copyUnreserved source))) =
      some (.handled .getArticlesBySourceV1 [(js "source", source)]) := by
  rw [walk_names (forall_sourceSegments (encoded_name hwell hdots) sourceNames), List.nil_append]
  exact (servePath_source (encoded_ne_nil hwell hne)).trans (reached_encoded hwell _ "source")

/-- Every name but `.` and `..` gets to the handler that it is meant for. -/
theorem names_round_trip (base : Base authorityOf) {text : JsString}
    (hwell : isWellFormed text = true) (hblank : trim text ≠ [])
    (params : QueryParams) :
    (Reaches (getArticleByTitle authorityOf (NewsApiClient.new base.text apiKey) text)
      .getArticlesByTitleV1 [(js "title", text)] ↔ ¬ IsDots text) ∧
    (Reaches (listSourceArticles authorityOf (NewsApiClient.new base.text apiKey) text params)
      .getArticlesBySourceV1 [(js "source", text)] ↔ ¬ IsDots text) := by
  have hne : text ≠ [] := by
    intro hnil
    rw [hnil] at hblank
    exact hblank rfl
  rw [getArticleByTitle_reaches base hwell, listSourceArticles_reaches base hwell]
  exact ⟨⟨fun h hdots => title_dots hdots h, title_served hwell hne⟩,
    ⟨fun h hdots => source_dots hdots h, source_served hwell hne⟩⟩

/-! ## Samples -/

def sampleAuthority (_scheme authority : JsString) : Option JsString := some authority

def sampleBase : Base sampleAuthority where
  origin := {
    scheme := js "https"
    authority := js "news-api.example"
    isHttp := .inr rfl
    named := List.cons_ne_nil _ _
    bare := fun c hc => by
      have hall : (js "news-api.example").all (fun c => 0x20 < c && !endsAuthority c) = true := by
        decide
      simpa using List.all_eq_true.mp hall c hc }
  accepted := rfl
  slashes := 1

theorem names_round_trip_slash :
    isWellFormed (js "a/b?") = true ∧ trim (js "a/b?") ≠ [] ∧
    (Reaches (getArticleByTitle sampleAuthority (NewsApiClient.new sampleBase.text none) (js "a/b?"))
      .getArticlesByTitleV1 [(js "title", js "a/b?")] ↔ ¬ IsDots (js "a/b?")) ∧
    (Reaches (listSourceArticles sampleAuthority (NewsApiClient.new sampleBase.text none) (js "a/b?")
        [(js "count", some (js "5"))])
      .getArticlesBySourceV1 [(js "source", js "a/b?")] ↔ ¬ IsDots (js "a/b?")) :=
  ⟨by decide +kernel, by decide +kernel,
    names_round_trip sampleBase (by decide +kernel) (by decide +kernel) _⟩

/-- An article whose title is two dots is looked for with the search. -/
theorem dots_reach_search :
    isWellFormed (js "..") = true ∧ trim (js "..") ≠ [] ∧
    ¬ Reaches (getArticleByTitle sampleAuthority
        (NewsApiClient.new (js "https://news-api.example") none) (js ".."))
      .getArticlesByTitleV1 [(js "title", js "..")] ∧
    Reaches (getArticleByTitle sampleAuthority
        (NewsApiClient.new (js "https://news-api.example") none) (js ".."))
      .searchArticlesV1 [] := by
  have hurl : getArticleByTitle sampleAuthority
      (NewsApiClient.new (js "https://news-api.example") none) (js "..") =
        some ⟨js "https", js "news-api.example", [js "api", js "v1", js "articles", []], none⟩ := by
    decide +kernel
  refine ⟨by decide +kernel, by decide +kernel, ?_, _, hurl, by decide +kernel⟩
  intro h
  obtain ⟨url, hsent, hserve⟩ := h
  cases hurl.symm.trans hsent
  exact absurd hserve (by decide +kernel)

end NewsApi.Client
