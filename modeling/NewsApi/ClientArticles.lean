import NewsApi.ClientErrors
import NewsApi.Services.ParsedResults

/-! # Articles as the client has them

What a client's search resolves with is an article list that a provider search with
the request's own options returned: through the cache's texts, the response's text
and the client's parser, number for number. Only an infinity becomes `null`. -/
namespace NewsApi.App
open NewsApi.Async NewsApi.Text NewsApi.Types NewsApi.Config NewsApi.Errors NewsApi.Http
open NewsApi.Controllers NewsApi.Services NewsApi.Cache NewsApi.ErrorHandling NewsApi.JsonText
open NewsApi.Utils (IsDouble)

/-! ## The envelope -/

/-- What a client's method has resolved with. -/
def bodyOf : Client.Reply → Option JsonData
  | .body value => value
  | .fresh _ body => body
  | .notModified _ => none

/-- `body.data` -/
def dataMember (reply : Client.Reply) : Option Json :=
  match bodyOf reply with
  | some (.obj members) => (Client.memberOf (js "data") members).map valueOf
  | _ => none

theorem smallNat_double {n : Nat} (h : n ≤ 100) : IsDouble n := by
  have hall : ∀ n ∈ List.range 101, IsDouble ((n : Nat) : Rat) := by decide +kernel
  exact hall n (List.mem_range.mpr (by omega))

theorem filtersOf_numbers (options : ArticleSearchOptions) : numbersOf (filtersOf options) = [] := by
  have htext : ∀ text : Option JsString, numbersOf (orUndefined text) = [] := by
    intro text
    cases text <;> rfl
  have hmember : ∀ name (text : Option JsString),
      numbersOfMembers (optionalMember name text) = [] := by
    intro name text
    cases text <;> rfl
  have happend : ∀ members members' : List (JsString × JsonValue), numbersOfMembers members = [] →
      numbersOfMembers members' = [] → numbersOfMembers (members ++ members') = [] := by
    intro members members' h h'
    induction members with
    | nil => exact h'
    | cons member members ih =>
      obtain ⟨hvalue, hmembers⟩ := List.append_eq_nil_iff.mp h
      show numbersOf member.2 ++ numbersOfMembers (members ++ members') = []
      rw [hvalue, ih hmembers]
      rfl
  refine happend _ _ (happend _ _ (happend _ _ ?_ (hmember _ _)) (hmember _ _)) (hmember _ _)
  show numbersOf (orUndefined options.lang) ++ (numbersOf (orUndefined options.country) ++ []) = []
  rw [htext, htext]
  rfl

theorem searchOptions_bounds {platform : Platform} {query : Utils.Query}
    {options : ArticleSearchOptions} (h : searchOptions platform query = .ok options) :
    options.count ≤ 100 ∧ options.page ≤ 100 := by
  obtain ⟨text, -, h⟩ := bind_eq_ok h
  obtain ⟨count, hcount, h⟩ := bind_eq_ok h
  obtain ⟨page, hpage, h⟩ := bind_eq_ok h
  obtain ⟨filters, -, h⟩ := bind_eq_ok h
  cases h
  exact ⟨(parsePositive_ok (by decide) hcount).2, (parsePositive_ok (by decide) hpage).2⟩

/-- What `searchArticlesV1` adds to the articles. -/
def searchMeta (options : ArticleSearchOptions) (result : ArticleSearchResult) : Meta :=
  [(js "query", .str options.query), (js "count", .num options.count),
    (js "page", .num options.page), (js "filters", filtersOf options),
    (js "cache", .str (ArticleSearchCacheStatus.text result.cache))]

theorem searchMeta_numbers (req : Request) (options : ArticleSearchOptions)
    (result : ArticleSearchResult) :
    numbersOfMembers (envelopeMeta req (searchMeta options result)) =
      [(options.count : Rat), (options.page : Rat)] := by
  show [(options.count : Rat)] ++ ([(options.page : Rat)] ++ (numbersOf (filtersOf options) ++ [])) = _
  rw [filtersOf_numbers]
  rfl

/-- The text of a search's envelope is parsed to one with the same articles. -/
theorem envelope_read (req : Request) {options : ArticleSearchOptions}
    {result : ArticleSearchResult} (hbounds : options.count ≤ 100 ∧ options.page ≤ 100)
    (hparsed : ResultParsed result) : ∃ text data rest,
      stringify (envelope (ofJson result.articles.value)
        (envelopeMeta req (searchMeta options result))) = some text ∧
      parseJson text = some (.obj [(js "data", data), (js "meta", rest)]) ∧
      valueOf data = reread result.articles.value := by
  obtain ⟨hnumbers, hread⟩ := ofJson_read result.articles.value hparsed
  obtain ⟨data, hdata, hvalue⟩ := Option.map_eq_some_iff.mp hread
  have hdouble : ∀ n ∈ numbersOf (envelope (ofJson result.articles.value)
      (envelopeMeta req (searchMeta options result))), IsDouble n := by
    refine List.forall_mem_append.mpr ⟨hnumbers, List.forall_mem_append.mpr ⟨?_, ?_⟩⟩
    · show ∀ n ∈ numbersOfMembers (envelopeMeta req (searchMeta options result)), IsDouble n
      rw [searchMeta_numbers]
      exact List.forall_mem_cons.mpr ⟨smallNat_double hbounds.1,
        List.forall_mem_singleton.mpr (smallNat_double hbounds.2)⟩
    · exact List.forall_mem_nil _
  have hdataOf : ∀ members : Meta, dataOf (envelope (ofJson result.articles.value) members) =
      some (.obj [(js "data", data), (js "meta", .obj (dataOfMembers members))]) := by
    intro members
    simp only [envelope, dataOf, dataOfMembers, hdata]
  obtain ⟨text, htext, hparse⟩ :=
    Option.bind_eq_some_iff.mp ((parseJson_stringify hdouble).trans (hdataOf _))
  exact ⟨text, data, _, htext, hparse, hvalue⟩

/-! ## The client's reply -/

theorem run_read {authorityOf : JsString → JsString → Option JsString}
    {client : Client.NewsApiClient} {call : Client.Call} {req : Client.FetchRequest}
    {fetchImpl : Client.FetchRequest → Client.FetchResponse}
    (hsent : Client.request authorityOf client call = some req)
    (hstatus : (fetchImpl req).status = 200) {value : JsonData}
    (hparse : parseJson (fetchImpl req).text = some value) :
    ∃ reply, Client.run authorityOf fetchImpl client call = .ok reply ∧
      bodyOf reply = some value := by
  have hempty : (fetchImpl req).text.isEmpty = false := by
    cases htext : (fetchImpl req).text with
    | nil =>
      rw [htext] at hparse
      cases Client.parseJson_nil.symm.trans hparse
    | cons c rest => rfl
  have hread : Client.readJson (fetchImpl req) = .ok (some value) := by
    unfold Client.readJson
    rw [hempty, hparse]
    rfl
  have hok : (fetchImpl req).ok = true := by
    unfold Client.FetchResponse.ok
    rw [hstatus]
    rfl
  have hthrow : Client.throwForError (fetchImpl req) (some value) = .ok () := by
    unfold Client.throwForError
    rw [hok]
    rfl
  have h304 : (fetchImpl req).status ≠ 304 := by
    rw [hstatus]
    decide
  unfold Client.run
  rw [hsent]
  dsimp only
  split
  · refine ⟨.fresh ((fetchImpl req).headers.lookup "etag") (some value), ?_, rfl⟩
    unfold Client.getConditionalJson
    dsimp only
    rw [if_neg h304, hread]
    show (Client.throwForError (fetchImpl req) (some value) >>= fun _ => _) = _
    rw [hthrow]
    rfl
  · refine ⟨.body (some value), ?_, rfl⟩
    unfold Client.getJson
    rw [hread]
    show (Client.throwForError (fetchImpl req) (some value) >>= fun _ => _) = _
    rw [hthrow]
    rfl

/-! ## The route -/

/-- Who the router gives a request to. -/
def handlerOf (req : HttpRequest) : Option Routes.Handler :=
  match (pathSegments req.path).bind (Routes.servePath req.method) with
  | some (.handled handler _) => some handler
  | _ => none

section
variable {env : Environment} {req : HttpRequest} {id : JsString} {guards : Guards}

theorem handlerOf_routed {handler : Routes.Handler} (h : handlerOf req = some handler) :
    ∃ segments params, pathSegments req.path = some segments ∧
      Routes.servePath req.method segments = some (.handled handler params) := by
  unfold handlerOf at h
  split at h
  · rename_i found params hserve
    cases h
    obtain ⟨segments, hsegments, hserve⟩ := Option.bind_eq_some_iff.mp hserve
    exact ⟨segments, params, hsegments, hserve⟩
  · cases h

/-- A request for the search fails at one of its guards or at the validation, or asks for it. -/
theorem handle_search (h : handlerOf req = some .searchArticlesV1) :
    (∃ headers err, handle env req id guards = .failed headers err) ∨ ∃ options,
      searchOptions env.platform (env.framework.parseQuery req.queryText) = .ok options ∧
      handle env req id guards = .asked ⟨options,
        searchArticlesV1 env.framework.sha256 env.framework.fresh (req.request id) options⟩ := by
  obtain ⟨segments, params, hsegments, hserve⟩ := handlerOf_routed h
  unfold Routes.servePath at hserve
  cases happ : Routes.dispatch req.method segments Routes.appRoutes with
  | some outcome =>
    rw [happ] at hserve
    cases hserve
    obtain ⟨layer, hlayer, heq, -⟩ := dispatch_handled happ
    have hnot : ∀ layer ∈ Routes.appRoutes, layer.handler ≠ .searchArticlesV1 := by decide
    exact absurd heq (hnot layer hlayer)
  | none =>
    rw [happ] at hserve
    obtain ⟨path, hmounted, hdispatch⟩ := Option.bind_eq_some_iff.mp hserve
    unfold handle
    split
    · exact .inl ⟨_, _, rfl⟩
    · unfold serveRequest
      simp only [hsegments, happ, hmounted]
      unfold serveApi
      split
      · exact .inl ⟨_, _, rfl⟩
      · split
        · exact .inl ⟨_, _, rfl⟩
        · unfold routeApi
          simp only [hdispatch, controller, beginSearchArticlesV1]
          cases hoptions : searchOptions env.platform (env.framework.parseQuery req.queryText) with
          | error err => exact .inl ⟨_, _, rfl⟩
          | ok options => exact .inr ⟨options, rfl, rfl⟩

end

/-! ## In a deployment -/

section
variable {env : Environment} {settings : Settings} {honest : Bool} {s : Deployment} {x : Exchange}

theorem sentFor_status (req : HttpRequest) (id : JsString) (headers : List (String × JsString))
    {err : Thrown} (h : IsAnswerable err) : (sentFor req id headers err).status ≠ 200 := by
  have hsafe := (isSafe_of_answerable h).status
  show (toInt32 (reply err).statusCode).toNat ≠ 200
  omega

/-- A search's response of status 200 is the envelope of its result. -/
theorem Progress.envelope {c : Cluster} {res : Response} (h : Progress env c x)
    (hsearch : handlerOf x.request = some .searchArticlesV1) (hmethod : x.request.method ≠ .head)
    (hres : res ∈ x.responses) (hstatus : res.status = 200) :
    ∃ i pending call result, OwnCall c x i pending call ∧ call.outcome = some (.ok result) ∧
      searchOptions env.platform (env.framework.parseQuery x.request.queryText) =
        .ok pending.options ∧
      res.body = stringify (Http.envelope (ofJson result.articles.value)
        (envelopeMeta (x.request.request x.id) (searchMeta pending.options result))) := by
  have hnoError : ∀ {headers err sent}, errorResponse x.request x.id headers err = some sent →
      (x.sends sent).status ≠ 200 := by
    intro headers err sent hsent
    obtain ⟨hanswerable, rfl⟩ := errorResponse_eq_some hsent
    exact sentFor_status x.request x.id headers hanswerable
  cases h with
  | guarded _ _ _ hnone => cases hnone ▸ hres
  | searching _ _ _ _ hnone => cases hnone ▸ hres
  | @answered guards _ _ hnot _ hanswer =>
    obtain ⟨sent, hsent, rfl⟩ := mem_sent (hanswer ▸ hres)
    rcases @handle_search env x.request x.id guards hsearch with
      ⟨headers, err, hfailed⟩ | ⟨options, -, hasked⟩
    · rw [hfailed] at hsent
      exact absurd hstatus (hnoError hsent)
    · exact absurd hasked (hnot _)
  | @settled guards i pending call outcome _ hhandled hown hout _ hanswer =>
    obtain ⟨sent, hsent, rfl⟩ := mem_sent (hanswer ▸ hres)
    rcases @handle_search env x.request x.id guards hsearch with
      ⟨headers, err, hfailed⟩ | ⟨options, hoptions, hasked⟩
    · cases hhandled.symm.trans hfailed
    · obtain rfl := Routed.asked.inj (hhandled.symm.trans hasked)
      rcases settledResponse_eq_some hsent with ⟨result, rfl, hsettled⟩ | ⟨err, -, hsent⟩
      · refine ⟨i, _, call, result, hown, hout, hoptions, ?_⟩
        have hbody : (x.sends sent).body = sent.body := by
          simp only [Exchange.sends, if_neg hmethod]
        rw [hbody]
        rcases sendEnvelope_cases hsettled with hfresh | ⟨-, hsent⟩
        · cases hfresh.symm.trans hstatus
        · exact hsent
      · exact absurd hstatus (hnoError hsent)

/-- **Articles come through.** In every reachable state of a deployment whose server
had no entries, what a client's method makes of a search's response of status 200
has as its data, up to infinities, an article list that a provider search with the
request's own options returned to some replica. -/
theorem articles_come_through {replicas : Nat} {db : Lease.Db}
    (hempty : ∀ key, isEntryKey key = true → db.get key = none)
    (hs : Reachable (deploymentStep settings env honest) (.initial replicas db) s)
    (hx : x ∈ s.exchanges) (hsearch : handlerOf x.request = some .searchArticlesV1)
    (hmethod : x.request.method ≠ .head) {res : Response} (hres : res ∈ x.responses)
    (hstatus : res.status = 200) {authorityOf : JsString → JsString → Option JsString}
    {client : Client.NewsApiClient} {call : Client.Call} {req : Client.FetchRequest}
    {fetchImpl : Client.FetchRequest → Client.FetchResponse}
    (hsent : Client.request authorityOf client call = some req)
    (hfetch : fetchImpl req = fetched res) :
    ∃ options own articles reply,
      searchOptions env.platform (env.framework.parseQuery x.request.queryText) = .ok options ∧
      Returned s.cluster.replicas options own ∧ RereadOf own articles ∧
      Client.run authorityOf fetchImpl client call = .ok reply ∧
      dataMember reply = some articles.value := by
  obtain ⟨hsafe, hcluster⟩ := safe_of_reachable hs
  obtain ⟨i, pending, own, result, hown, hout, hoptions, hbody⟩ :=
    (hsafe.progress x hx).envelope hsearch hmethod hres hstatus
  obtain ⟨p, hp, hcall⟩ := Cluster.mem_calls (List.mem_of_getElem? hown.stands)
  obtain ⟨⟨articles, hreturned, hreread⟩, -⟩ :=
    (clusterKnown_of_reachable hempty hcluster).served hp hcall hout
  rw [hown.options] at hreturned
  have hparsed : ResultParsed result := results_parsed hcluster p hp own hcall result hout
  obtain ⟨text, data, rest, htext, hparse, hvalue⟩ :=
    envelope_read (x.request.request x.id) (searchOptions_bounds hoptions) hparsed
  have hread : parseJson (fetchImpl req).text =
      some (.obj [(js "data", data), (js "meta", rest)]) := by
    have hfetched : (fetchImpl req).text = text := by
      rw [hfetch]
      show res.body.getD [] = text
      rw [hbody, htext]
      rfl
    rw [hfetched, hparse]
  obtain ⟨reply, hreply, hbodyOf⟩ := run_read hsent (by rw [hfetch]; exact hstatus) hread
  refine ⟨pending.options, articles, rereadList result.articles, reply, hoptions, hreturned,
    hreread.reread, hreply, ?_⟩
  unfold dataMember
  rw [hbodyOf]
  exact congrArg some hvalue

end

/-- The search of a client that is answered with the provider's articles. -/
theorem articles_come_through_oneAdmitted : ∃ s x res options own articles reply,
    run (deploymentStep .default sampleEnvironment true) (.initial 1 emptyServer) oneAdmitted =
      some s ∧ x ∈ s.exchanges ∧ x.responses = [res] ∧ res.status = 200 ∧
      searchOptions sampleEnvironment.platform
        (sampleEnvironment.framework.parseQuery x.request.queryText) = .ok options ∧
      Returned s.cluster.replicas options own ∧ RereadOf own articles ∧
      Client.run Client.sampleAuthority (fun _ => fetched res) Client.sampleClient
        Client.sampleCall = .ok reply ∧ dataMember reply = some articles.value := by
  have hruns : ((run (deploymentStep .default sampleEnvironment true) (.initial 1 emptyServer)
      oneAdmitted).map fun s => s.exchanges.map fun x =>
        (x.responses.map (·.status), handlerOf x.request, x.request.method == .head)) =
      some [([200], some .searchArticlesV1, false), ([401], some .searchArticlesV1, false)] := by
    decide +kernel
  obtain ⟨s, hrun, hexchanges⟩ := Option.map_eq_some_iff.mp hruns
  obtain ⟨x, xs, hxs, hx, -⟩ := List.map_eq_cons_iff.mp hexchanges
  obtain ⟨hstatuses, hx⟩ := Prod.mk.inj hx
  obtain ⟨hsearch, hmethod⟩ := Prod.mk.inj hx
  obtain ⟨res, rest, hres, hstatus, hrest⟩ := List.map_eq_cons_iff.mp hstatuses
  obtain rfl := List.map_eq_nil_iff.mp hrest
  have hmem : x ∈ s.exchanges := hxs ▸ List.mem_cons_self
  have hget : x.request.method ≠ .head := by simpa using hmethod
  have hmember : res ∈ x.responses := hres ▸ List.mem_cons_self
  obtain ⟨options, own, articles, reply, hoptions, hreturned, hreread, hreply, hdata⟩ :
      ∃ options own articles reply, searchOptions sampleEnvironment.platform
          (sampleEnvironment.framework.parseQuery x.request.queryText) = .ok options ∧
        Returned s.cluster.replicas options own ∧ RereadOf own articles ∧
        Client.run Client.sampleAuthority (fun _ => fetched res) Client.sampleClient
          Client.sampleCall = .ok reply ∧ dataMember reply = some articles.value :=
    articles_come_through (fun _ _ => rfl) ⟨_, hrun⟩ hmem hsearch hget hmember hstatus
      Client.sampleCall_sent rfl
  exact ⟨s, x, res, options, own, articles, reply, hrun, hmem, hres, hstatus, hoptions, hreturned,
    hreread, hreply, hdata⟩

end NewsApi.App
