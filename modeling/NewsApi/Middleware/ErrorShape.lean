import NewsApi.Http.Routes
import NewsApi.Middleware.ErrorHandler

/-! # Versions and error shapes

The router reads the version of a request off its segments, letter case aside.
The error handler reads it off the text of the path. -/
namespace NewsApi.ErrorHandling
open NewsApi.Text NewsApi.Utils NewsApi.Http NewsApi.Routes

/-! ## Paths -/

/-- The router's segments of a path. One that does not begin with a slash is for no route. -/
def pathSegments : JsString → Option (List JsString)
  | 0x2F :: rest => some (rest.splitOn 0x2F)
  | _ => none

def isV1 : Handler → Bool
  | .searchArticlesV1 | .getArticlesByTitleV1 | .getArticlesBySourceV1 => true
  | _ => false

def isLegacy : Handler → Bool
  | .getArticles | .getArticlesByTitle | .getArticlesBySource => true
  | _ => false

/-- Some method on this path is for such a handler. -/
def Reaches (kind : Handler → Bool) (path : JsString) : Prop :=
  ∃ segments method handler params, pathSegments path = some segments ∧
    servePath method segments = some (.handled handler params) ∧ kind handler = true

/-- The two segments of the version, letter by letter and next to each other. -/
def SpellsV1 (path : JsString) : Prop :=
  (pathSegments path).map (·.take 2) = some [js "api", js "v1"]

theorem dispatch_handled {method : Method} {path : List JsString} {layers : List Layer}
    {handler : Handler} {params : Params}
    (h : dispatch method path layers = some (.handled handler params)) :
    ∃ layer ∈ layers, layer.handler = handler ∧ (matchPieces layer.pieces path).isSome = true := by
  induction layers with
  | nil => cases h
  | cons layer layers ih =>
    have hrest : dispatch method path layers = some (.handled handler params) →
        ∃ l ∈ layer :: layers, l.handler = handler ∧ (matchPieces l.pieces path).isSome = true := by
      intro h
      obtain ⟨l, hl, hmatch⟩ := ih h
      exact ⟨l, List.mem_cons_of_mem layer hl, hmatch⟩
    rw [dispatch] at h
    split at h
    · exact hrest h
    · rename_i raw hraw
      split at h
      · cases h
      · split at h
        · cases h
          exact ⟨layer, List.mem_cons_self, rfl, by simp [hraw]⟩
        · exact hrest h

/-- No article handler belongs to the application itself. -/
theorem servePath_handled {kind : Handler → Bool}
    (hkind : (appRoutes.all fun layer => !kind layer.handler) = true) {method : Method}
    {segments : List JsString} {handler : Handler} {params : Params}
    (h : servePath method segments = some (.handled handler params))
    (hhandler : kind handler = true) :
    ∃ path layer, mounted "api" segments = some path ∧ layer ∈ routes ∧
      kind layer.handler = true ∧ (matchPieces layer.pieces path).isSome = true := by
  rw [servePath] at h
  split at h
  · rename_i outcome houtcome
    cases h
    obtain ⟨layer, hlayer, rfl, -⟩ := dispatch_handled houtcome
    have hnot := List.all_eq_true.mp hkind layer hlayer
    simp [hhandler] at hnot
  · obtain ⟨path, hpath, hdispatch⟩ := Option.bind_eq_some_iff.mp h
    obtain ⟨layer, hlayer, rfl, hmatch⟩ := dispatch_handled hdispatch
    exact ⟨path, layer, hpath, hlayer, hhandler, hmatch⟩

/-- A second slash after the name is passed over. -/
theorem mounted_cases {name : String} {segments path : List JsString}
    (h : mounted name segments = some path) : ∃ segment rest, segments = segment :: rest ∧
      (rest = [] ∧ path = [[]] ∨ rest = [] :: path ∨ rest = path) := by
  unfold mounted at h
  split at h
  · cases h
  · rename_i segment rest
    split at h
    · split at h
      · cases h
        exact ⟨segment, [], rfl, .inl ⟨rfl, rfl⟩⟩
      · cases h
        exact ⟨segment, _, rfl, .inr (.inl rfl)⟩
      · cases h
        exact ⟨segment, path, rfl, .inr (.inr rfl)⟩
    · cases h

theorem matchPieces_length {pieces : List Piece} {path : List JsString}
    (h : (matchPieces pieces path).isSome = true) : pieces.length ≤ path.length := by
  induction pieces, path using matchPieces.induct with
  | case1 => simp
  | case2 => simp
  | case3 text pieces segment rest hsame ih =>
    rw [matchPieces, if_pos hsame] at h
    simpa using ih h
  | case4 text pieces segment rest hsame =>
    rw [matchPieces, if_neg hsame] at h
    cases h
  | case5 name pieces segment rest hempty =>
    rw [matchPieces, if_pos hempty] at h
    cases h
  | case6 name pieces segment rest hempty ih =>
    rw [matchPieces, if_neg hempty, Option.isSome_map] at h
    simpa using ih h
  | case7 pieces path h1 h2 h3 h4 =>
    rw [matchPieces] at h
    · cases h
    all_goals assumption

/-! ## The text of a path -/

theorem pathSegments_eq_some {path : JsString} {segments : List JsString}
    (h : pathSegments path = some segments) :
    ∃ rest, path = 0x2F :: rest ∧ segments = rest.splitOn 0x2F := by
  unfold pathSegments at h
  split at h
  · rename_i rest
    cases h
    exact ⟨rest, rfl, rfl⟩
  · cases h

theorem structured_segments {path : JsString} {segments : List JsString}
    (h : pathSegments path = some segments) (hstructured : usesStructuredErrors path = true) :
    ∃ others, segments = js "api" :: js "v1" :: others := by
  obtain ⟨rest, rfl, rfl⟩ := pathSegments_eq_some h
  obtain ⟨tail, htail⟩ := List.isPrefixOf_iff_prefix.mp hstructured
  have hrest : rest = js "api" ++ 0x2F :: (js "v1" ++ 0x2F :: tail) := (List.cons.inj htail).2.symm
  refine ⟨tail.splitOn 0x2F, ?_⟩
  rw [hrest, List.splitOn_append_cons_self_of_not_mem (by decide),
    List.splitOn_append_cons_self_of_not_mem (by decide)]

theorem usesStructuredErrors_iff {path : JsString} {segments : List JsString}
    (h : pathSegments path = some segments) (hlength : 3 ≤ segments.length) :
    usesStructuredErrors path = true ↔ segments.take 2 = [js "api", js "v1"] := by
  constructor
  · intro hstructured
    obtain ⟨others, rfl⟩ := structured_segments h hstructured
    rfl
  · intro htake
    obtain ⟨rest, rfl, rfl⟩ := pathSegments_eq_some h
    have hjoin : [0x2F].intercalate (rest.splitOn 0x2F) = rest := List.intercalate_splitOn 0x2F
    match hsplit : rest.splitOn 0x2F, hlength, htake with
    | _ :: _ :: third :: others, _, htake =>
      rw [hsplit] at hjoin
      simp only [List.take_succ_cons, List.take_zero, List.cons.injEq, and_true] at htake
      obtain ⟨rfl, rfl⟩ := htake
      refine List.isPrefixOf_iff_prefix.mpr ⟨[0x2F].intercalate (third :: others), ?_⟩
      exact congrArg (0x2F :: ·) hjoin

/-! ## Routed paths -/

theorem spellsV1_iff {path : JsString} (h : Reaches isV1 path) :
    usesStructuredErrors path = true ↔ SpellsV1 path := by
  obtain ⟨segments, method, handler, params, hsegments, hserve, hkind⟩ := h
  obtain ⟨rest, layer, hmounted, hlayer, hversion, hmatch⟩ :=
    servePath_handled (by decide) hserve hkind
  have hpieces : (routes.all fun layer => !isV1 layer.handler || 2 ≤ layer.pieces.length) = true :=
    rfl
  have htwo : 2 ≤ layer.pieces.length := by
    simpa [hversion] using List.all_eq_true.mp hpieces layer hlayer
  have hrest := matchPieces_length hmatch
  have hlength : 3 ≤ segments.length := by
    obtain ⟨segment, others, rfl, hcases⟩ := mounted_cases hmounted
    rcases hcases with ⟨rfl, rfl⟩ | rfl | rfl
    · simp at hrest
      omega
    · simp
      omega
    · simp
      omega
  rw [usesStructuredErrors_iff hsegments hlength, SpellsV1, hsegments]
  simp

/-- No legacy route is below `v1`. -/
theorem legacy_unstructured {path : JsString} (h : Reaches isLegacy path) :
    usesStructuredErrors path = false := by
  obtain ⟨segments, method, handler, params, hsegments, hserve, hkind⟩ := h
  obtain ⟨rest, layer, hmounted, hlayer, hlegacy, hmatch⟩ :=
    servePath_handled (by decide) hserve hkind
  have hpieces : (routes.all fun layer =>
      !isLegacy layer.handler || layer.pieces.head? == some (.literal (js "articles"))) = true :=
    by decide
  have hhead : layer.pieces.head? = some (.literal (js "articles")) := by
    simpa [hlegacy] using List.all_eq_true.mp hpieces layer hlayer
  rw [Bool.eq_false_iff]
  intro hstructured
  obtain ⟨others, rfl⟩ := structured_segments hsegments hstructured
  have hpath : rest = js "v1" :: others := by
    obtain ⟨segment, tail, heq, hcases⟩ := mounted_cases hmounted
    obtain ⟨-, rfl⟩ := List.cons.inj heq
    rcases hcases with ⟨hnil, -⟩ | hslash | hrest
    · cases hnil
    · exact absurd (List.cons.inj hslash).1 (by decide)
    · exact hrest.symm
  obtain ⟨pieces, hcons⟩ := List.head?_eq_some_iff.mp hhead
  rw [hcons, hpath, matchPieces, if_neg (by decide)] at hmatch
  cases hmatch

/-! ## The shape of an answer -/

section
variable (err : Thrown) (req : Request) (path : JsString) (res : ResponseState)

def IsStructuredAnswer : Prop :=
  ∃ status code message, answers err req path res =
    res.answers ++ [⟨status, structuredBody (some code) (some message) (requestId req)⟩]

def IsLegacyAnswer : Prop :=
  ∃ status message, answers err req path res = res.answers ++ [⟨status, legacyBody (some message)⟩]

end

variable {err : Thrown} {res : ResponseState} {path : JsString}

theorem legacyBody_ne {message : Option JsString} {code text : Option JsString} {id : JsString} :
    legacyBody message ≠ structuredBody code text id := by
  intro heq
  simp only [legacyBody, structuredBody, JsonValue.obj.injEq, List.cons.injEq, Prod.mk.injEq] at heq
  cases message with
  | none => cases heq.1.2
  | some message => cases heq.1.2

/-- What has been answered is an answerable error, in the body that goes with the path. -/
theorem answer_body (habort : isRequestAbortedError err = false) (hopen : res.headersSent = false)
    {req : Request} {status : Int} {body : JsonValue}
    (h : answers err req path res = res.answers ++ [⟨status, body⟩]) :
    IsAnswerable err ∧ body = errorBody req path (reply err).code (reply err).message := by
  rw [answers_eq habort hopen] at h
  split at h
  · rename_i hsend
    obtain ⟨-, hbody⟩ := Answer.mk.inj (List.cons.inj (List.append_cancel_left h)).1
    exact ⟨(isSendable_iff err).mp hsend, hbody.symm⟩
  · simp at h

theorem isStructuredAnswer_iff (habort : isRequestAbortedError err = false)
    (hopen : res.headersSent = false) (req : Request) :
    IsStructuredAnswer err req path res ↔
      usesStructuredErrors path = true ∧ IsAnswerable err := by
  constructor
  · intro hanswer
    obtain ⟨status, code, message, hsent⟩ := hanswer
    obtain ⟨hanswerable, hbody⟩ := answer_body habort hopen hsent
    refine ⟨?_, hanswerable⟩
    by_contra hlegacy
    rw [errorBody, if_neg hlegacy] at hbody
    exact legacyBody_ne hbody.symm
  · intro hboth
    obtain ⟨hstructured, hanswerable⟩ := hboth
    obtain ⟨status, code, message, -, -, hsent⟩ :=
      (isAnsweredSafely_iff habort hopen req path).mpr hanswerable
    rw [errorBody, if_pos hstructured] at hsent
    exact ⟨status, code, message, hsent⟩

theorem isLegacyAnswer_iff (habort : isRequestAbortedError err = false)
    (hopen : res.headersSent = false) (req : Request)
    (hlegacy : usesStructuredErrors path = false) :
    IsLegacyAnswer err req path res ↔ IsAnswerable err := by
  constructor
  · intro hanswer
    obtain ⟨status, message, hsent⟩ := hanswer
    exact (answer_body habort hopen hsent).1
  · intro hanswerable
    obtain ⟨status, code, message, -, -, hsent⟩ :=
      (isAnsweredSafely_iff habort hopen req path).mpr hanswerable
    rw [errorBody, if_neg (by simp [hlegacy])] at hsent
    exact ⟨status, message, hsent⟩

/-- **Routes and error shapes agree** where the version is spelled as the error
handler spells it, for the errors that are answered at all. -/
theorem error_shape (habort : isRequestAbortedError err = false) (hopen : res.headersSent = false)
    (req : Request) :
    (Reaches isV1 path →
      (IsStructuredAnswer err req path res ↔ SpellsV1 path ∧ IsAnswerable err)) ∧
    (Reaches isLegacy path → (IsLegacyAnswer err req path res ↔ IsAnswerable err)) := by
  constructor
  · intro hv1
    rw [isStructuredAnswer_iff habort hopen, spellsV1_iff hv1]
  · intro hlegacy
    exact isLegacyAnswer_iff habort hopen req (legacy_unstructured hlegacy)

theorem reaches_articles : Reaches isV1 (js "/api/v1/articles") :=
  ⟨_, .get, .searchArticlesV1, [], rfl, by decide +kernel, rfl⟩

theorem reaches_upperCase : Reaches isV1 (js "/API/v1/articles") :=
  ⟨_, .get, .searchArticlesV1, [], rfl, by decide +kernel, rfl⟩

/-- A body that is too large, on a versioned path. -/
theorem error_shape_articles : IsStructuredAnswer (parserError "entity.too.large")
    ⟨none, none, none⟩ (js "/api/v1/articles") unanswered :=
  ((error_shape rfl rfl _).1 reaches_articles).mpr ⟨rfl, tooLarge_answerable⟩

/-- `/API/v1/articles` is answered by the same handler, with the other shape. -/
theorem error_shape_upperCase : ¬∀ (err : Thrown) (req : Request) (path : JsString)
    (res : ResponseState), isRequestAbortedError err = false → res.headersSent = false →
    (Reaches isV1 path → IsStructuredAnswer err req path res) ∧
    (Reaches isLegacy path → IsLegacyAnswer err req path res) := by
  intro hall
  have hanswer := (hall .value ⟨none, none, none⟩ (js "/API/v1/articles") unanswered rfl rfl).1
    reaches_upperCase
  exact absurd ((isStructuredAnswer_iff rfl rfl _).mp hanswer).1 (by decide +kernel)

end NewsApi.ErrorHandling
