import NewsApi.Client.Paths
import NewsApi.Http.Stringify
import NewsApi.Text.JsonText

/-! # How the client reports HTTP failures

The body is parsed before the status is looked at, so a failure is only
reported as one when its body can be parsed. -/
namespace NewsApi.Client
open Text Types Http Utils JsonText

/-! ## Messages -/

def numberString : JsNumber → JsString
  | .nan => js "NaN"
  | .infinity negative => js (if negative then "-Infinity" else "Infinity")
  | .finite value => numberText value

mutual

/-- `String(value)` of parsed data. `none`: a `TypeError`, as a member
`toString` hides the method. -/
def stringOf : JsonData → Option JsString
  | .null => some (js "null")
  | .bool b => some (js (if b then "true" else "false"))
  | .num n => some (numberString n)
  | .str s => some s
  | .arr items => (itemStrings items).map (List.intercalate [0x2C])
  | .obj members =>
    if members.any (·.1 == js "toString") then none else some (js "[object Object]")

/-- An item `null` is written as nothing. -/
def itemStrings : List JsonData → Option (List JsString)
  | [] => some []
  | .null :: items => (itemStrings items).map ([] :: ·)
  | item :: items => (stringOf item).bind fun text => (itemStrings items).map (text :: ·)

end

mutual

/-- No object of which the string is made has a member `toString`. -/
def isPrintable : JsonData → Bool
  | .arr items => arePrintable items
  | .obj members => !members.any (·.1 == js "toString")
  | _ => true

def arePrintable : List JsonData → Bool
  | [] => true
  | item :: items => isPrintable item && arePrintable items

end

theorem itemStrings_cons {item : JsonData} (h : item ≠ .null) (items : List JsonData) :
    itemStrings (item :: items) =
      (stringOf item).bind fun text => (itemStrings items).map (text :: ·) := by
  rw [itemStrings]
  exact h

mutual

theorem stringOf_isSome : ∀ value : JsonData, (stringOf value).isSome = isPrintable value
  | .null => rfl
  | .bool _ => rfl
  | .num _ => rfl
  | .str _ => rfl
  | .arr items => by
    rw [stringOf, isPrintable, Option.isSome_map]
    exact itemStrings_isSome items
  | .obj members => by
    rw [stringOf, isPrintable]
    cases members.any (·.1 == js "toString") <;> rfl

theorem itemStrings_isSome : ∀ items : List JsonData,
    (itemStrings items).isSome = arePrintable items
  | [] => rfl
  | item :: items => by
    have hitem := stringOf_isSome item
    have hitems := itemStrings_isSome items
    rw [arePrintable, ← hitem, ← hitems]
    by_cases hnull : item = .null
    · subst hnull
      simp [itemStrings, stringOf]
    · rw [itemStrings_cons hnull]
      cases stringOf item <;> simp

end

/-! ## Responses -/

/-- Header names are in lower case. -/
structure FetchResponse where
  status : Nat
  headers : List (String × JsString)
  text : JsString
deriving DecidableEq, Repr

def FetchResponse.ok (res : FetchResponse) : Bool := 200 ≤ res.status && res.status ≤ 299

/-- `ErrorEnvelope["error"]`. Only that the members are there is checked. -/
structure ErrorBody where
  code : JsonData
  message : JsonData
  requestId : JsonData

/-- The member of this name that counts. -/
def memberOf (name : JsString) (members : List (JsString × JsonData)) : Option JsonData :=
  members.reverse.lookup name

/-- The type guard `isErrorEnvelope(value)`. `none` is `undefined`. -/
def asErrorEnvelope : Option JsonData → Option ErrorBody
  | some (.obj members) =>
    match memberOf (js "error") members with
    | some (.obj error) =>
      match memberOf (js "code") error, memberOf (js "message") error,
        memberOf (js "requestId") error with
      | some code, some message, some requestId => some { code, message, requestId }
      | _, _, _ => none
    | _ => none
  | _ => none

/-- What a call rejects with, or throws. -/
inductive ClientError where
  | newsApi (message : JsString) (status : Nat) (code requestId : JsonData)
      (retryAfter : Option JsString)
  /-- the generic error -/
  | generic (message : JsString)
  /-- of `JSON.parse` -/
  | syntaxError
  /-- of a message that has no string -/
  | typeError
  /-- thrown before a request is sent -/
  | unsent

def newsApiClientError (status : Nat) (error : ErrorBody) (retryAfter : Option JsString) :
    ClientError :=
  match stringOf error.message with
  | some message => .newsApi message status error.code error.requestId retryAfter
  | none => .typeError

def genericError (status : Nat) : ClientError :=
  .generic (js "news-api request failed with HTTP " ++ decimal status)

def throwForError (res : FetchResponse) (body : Option JsonData) : Except ClientError Unit :=
  if res.ok then .ok ()
  else match asErrorEnvelope body with
    | some error =>
      .error (newsApiClientError res.status error (res.headers.lookup "retry-after"))
    | none => .error (genericError res.status)

def readJson (res : FetchResponse) : Except ClientError (Option JsonData) :=
  if res.text.isEmpty then .ok none
  else match parseJson res.text with
    | some value => .ok (some value)
    | none => .error .syntaxError

/-- What a call resolves with. -/
inductive Reply where
  | body (value : Option JsonData)
  | fresh (etag : Option JsString) (body : Option JsonData)
  | notModified (etag : Option JsString)

def getJson (res : FetchResponse) : Except ClientError Reply := do
  let body ← readJson res
  throwForError res body
  return .body body

def getConditionalJson (res : FetchResponse) : Except ClientError Reply :=
  let etag := res.headers.lookup "etag"
  if res.status = 304 then .ok (.notModified etag)
  else do
    let body ← readJson res
    throwForError res body
    return .fresh etag body

/-! ## Calls -/

inductive Call where
  | searchArticles (params : QueryParams)
  | searchArticlesConditional (params : QueryParams) (etag : Option JsString)
  | getArticleByTitle (title : JsString)
  | getArticleByTitleConditional (title : JsString) (etag : Option JsString)
  | listSourceArticles (source : JsString) (params : QueryParams)
  | listSourceArticlesConditional (source : JsString) (params : QueryParams)
      (etag : Option JsString)

def Call.isConditional : Call → Bool
  | .searchArticlesConditional .. => true
  | .getArticleByTitleConditional .. => true
  | .listSourceArticlesConditional .. => true
  | _ => false

def Call.ifNoneMatch : Call → Option JsString
  | .searchArticlesConditional _ etag => etag
  | .getArticleByTitleConditional _ etag => etag
  | .listSourceArticlesConditional _ _ etag => etag
  | _ => none

structure FetchRequest where
  url : Url
  headers : List (String × JsString)
deriving DecidableEq, Repr

/-- A header is only sent with a value. -/
def headerField (name : String) : Option JsString → List (String × JsString)
  | none | some [] => []
  | some value => [(name, value)]

def requestHeaders (apiKey ifNoneMatch : Option JsString) : List (String × JsString) :=
  headerField "X-API-Key" apiKey ++ headerField "If-None-Match" ifNoneMatch

section
variable (authorityOf : JsString → JsString → Option JsString)

def Call.url (client : NewsApiClient) : Call → Option Url
  | .searchArticles params | .searchArticlesConditional params _ =>
    buildUrl authorityOf client (js "/api/v1/articles") params
  | .getArticleByTitle title | .getArticleByTitleConditional title _ =>
    NewsApi.Client.getArticleByTitle authorityOf client title
  | .listSourceArticles source params | .listSourceArticlesConditional source params _ =>
    NewsApi.Client.listSourceArticles authorityOf client source params

/-- `none`: the call throws before it sends anything. -/
def request (client : NewsApiClient) (call : Call) : Option FetchRequest :=
  (call.url authorityOf client).map fun url =>
    ⟨url, requestHeaders client.apiKey call.ifNoneMatch⟩

def run (fetchImpl : FetchRequest → FetchResponse) (client : NewsApiClient) (call : Call) :
    Except ClientError Reply :=
  match request authorityOf client call with
  | none => .error .unsent
  | some req =>
    if call.isConditional then getConditionalJson (fetchImpl req) else getJson (fetchImpl req)

end

/-! ## Failures -/

/-- The body is a structured error envelope. -/
def Structured (text : JsString) (error : ErrorBody) : Prop :=
  ∃ value, Denotes text value ∧ asErrorEnvelope (some value) = some error

/-- The failure comes out as what it is. -/
structure Reports (res : FetchResponse) (outcome : Except ClientError Reply) : Prop where
  structured : ∀ error, Structured res.text error → ∃ message, outcome =
    .error (.newsApi message res.status error.code error.requestId
      (res.headers.lookup "retry-after"))
  otherwise : (∀ error, ¬ Structured res.text error) → outcome = .error (genericError res.status)

/-- A body that is read without an error of its own. -/
def IsReadable (text : JsString) : Prop :=
  text = [] ∨ ∃ value, Denotes text value ∧
    ∀ error, asErrorEnvelope (some value) = some error → isPrintable error.message = true

/-- What the status of a failed response is turned into. -/
def statusError (res : FetchResponse) (body : Option JsonData) : ClientError :=
  match asErrorEnvelope body with
  | some error => newsApiClientError res.status error (res.headers.lookup "retry-after")
  | none => genericError res.status

theorem throwForError_failed {res : FetchResponse} (h : res.ok = false) (body : Option JsonData) :
    throwForError res body = .error (statusError res body) := by
  unfold throwForError statusError
  rw [h]
  cases asErrorEnvelope body <;> rfl

/-- An error in reading the body takes precedence. -/
def failureOf (res : FetchResponse) : ClientError :=
  match readJson res with
  | .error error => error
  | .ok body => statusError res body

theorem read_failed {res : FetchResponse} (h : res.ok = false) (reply : Option JsonData → Reply) :
    (do
      let body ← readJson res
      throwForError res body
      return reply body) = Except.error (failureOf res) := by
  unfold failureOf
  cases readJson res with
  | error error => rfl
  | ok body =>
    have hbody := throwForError_failed h body
    show (throwForError res body >>= fun _ => pure (reply body)) = _
    rw [hbody]
    rfl

section
variable {authorityOf : JsString → JsString → Option JsString}

/-- Every method that got a failed response rejects, and with the same error. -/
theorem run_failed (fetchImpl : FetchRequest → FetchResponse) {client : NewsApiClient}
    {call : Call} {req : FetchRequest} (hsent : request authorityOf client call = some req)
    (hok : (fetchImpl req).ok = false)
    (h304 : call.isConditional = true → (fetchImpl req).status ≠ 304) :
    run authorityOf fetchImpl client call = .error (failureOf (fetchImpl req)) := by
  rw [run, hsent]
  cases hcall : call.isConditional with
  | true =>
    simp only [if_true, getConditionalJson, if_neg (h304 hcall)]
    exact read_failed hok _
  | false => exact read_failed hok .body

end

theorem structured_iff {text : JsString} {error : ErrorBody} :
    Structured text error ↔ asErrorEnvelope (parseJson text) = some error := by
  constructor
  · intro h
    obtain ⟨value, hvalue, herror⟩ := h
    rwa [parseJson_iff.mpr hvalue]
  · intro h
    cases hparse : parseJson text with
    | none =>
      rw [hparse] at h
      cases h
    | some value =>
      rw [hparse] at h
      exact ⟨value, parseJson_iff.mp hparse, h⟩

theorem isReadable_iff {text : JsString} : IsReadable text ↔ text = [] ∨
    ∃ value, parseJson text = some value ∧
      ∀ error, asErrorEnvelope (some value) = some error → isPrintable error.message = true := by
  simp only [IsReadable, parseJson_iff]

/-- What the status is turned into is a report of it, if the message can be printed. -/
theorem statusError_reports {res : FetchResponse} {body : Option JsonData}
    (hbody : asErrorEnvelope (parseJson res.text) = asErrorEnvelope body) :
    Reports res (.error (statusError res body)) ↔
      ∀ error, asErrorEnvelope body = some error → isPrintable error.message = true := by
  unfold statusError
  cases henvelope : asErrorEnvelope body with
  | none =>
    have hnone : ∀ error, ¬ Structured res.text error := by
      intro error h
      rw [structured_iff, hbody, henvelope] at h
      cases h
    refine iff_of_true ⟨fun error h => absurd h (hnone error), fun _ => rfl⟩ ?_
    intro error h
    cases h
  | some error =>
    have hstructured : Structured res.text error := by
      rw [structured_iff, hbody, henvelope]
    constructor
    · intro h other hother
      cases hother
      obtain ⟨message, heq⟩ := h.structured error hstructured
      rw [← stringOf_isSome]
      cases hmessage : stringOf error.message with
      | some text => rfl
      | none => simp [newsApiClientError, hmessage] at heq
    · intro h
      refine ⟨fun other hother => ?_, fun hno => absurd hstructured (hno error)⟩
      rw [structured_iff, hbody, henvelope] at hother
      cases hother
      have hprints := h error rfl
      rw [← stringOf_isSome] at hprints
      obtain ⟨message, hmessage⟩ := Option.isSome_iff_exists.mp hprints
      exact ⟨message, by simp [newsApiClientError, hmessage]⟩

theorem parseJson_nil : parseJson [] = none := rfl

/-- The report is right exactly when the body can be read. -/
theorem failureOf_reports (res : FetchResponse) :
    Reports res (.error (failureOf res)) ↔ IsReadable res.text := by
  rw [isReadable_iff]
  by_cases hempty : res.text = []
  · have hread : readJson res = .ok none := by simp [readJson, hempty]
    have hnone : asErrorEnvelope (parseJson res.text) = asErrorEnvelope none := by
      rw [hempty, parseJson_nil]
    rw [failureOf, hread]
    refine iff_of_true ((statusError_reports hnone).mpr fun error h => ?_) (.inl hempty)
    cases h
  · cases hparse : parseJson res.text with
    | none =>
      have hread : readJson res = .error .syntaxError := by simp [readJson, hempty, hparse]
      have hnone : ∀ error, ¬ Structured res.text error := by
        intro error h
        rw [structured_iff, hparse] at h
        cases h
      rw [failureOf, hread]
      refine iff_of_false (fun h => ?_) (fun h => ?_)
      · cases h.otherwise hnone
      · rcases h with h | ⟨value, h, -⟩
        · exact hempty h
        · cases h
    | some value =>
      have hread : readJson res = .ok (some value) := by simp [readJson, hempty, hparse]
      rw [failureOf, hread]
      refine (statusError_reports (by rw [hparse])).trans ⟨fun h => .inr ⟨value, rfl, h⟩, ?_⟩
      intro h
      rcases h with h | ⟨other, hother, h⟩
      · exact absurd h hempty
      · cases hother
        exact h

section
variable {authorityOf : JsString → JsString → Option JsString}

/-- A failed request is reported as one exactly when its body can be read. -/
theorem failures_reported (fetchImpl : FetchRequest → FetchResponse) {client : NewsApiClient}
    {call : Call} {req : FetchRequest} (hsent : request authorityOf client call = some req)
    (hok : (fetchImpl req).ok = false)
    (h304 : call.isConditional = true → (fetchImpl req).status ≠ 304) :
    Reports (fetchImpl req) (run authorityOf fetchImpl client call) ↔
      IsReadable (fetchImpl req).text := by
  rw [run_failed fetchImpl hsent hok h304]
  exact failureOf_reports (fetchImpl req)

end

/-! ## Samples -/

def sampleClient : NewsApiClient := NewsApiClient.new (js "https://news-api.example") none

def sampleCall : Call := .searchArticlesConditional [(js "query", some (js "postgres"))] none

def sampleRequest : FetchRequest where
  url := ⟨js "https", js "news-api.example", [js "api", js "v1", js "articles"],
    some (js "query=postgres")⟩
  headers := []

theorem sampleCall_sent : request sampleAuthority sampleClient sampleCall = some sampleRequest := by
  decide +kernel

def badGateway (text : JsString) : FetchResponse := ⟨502, [], text⟩

theorem failures_reported_empty :
    request sampleAuthority sampleClient sampleCall = some sampleRequest ∧
    (badGateway []).ok = false ∧ (badGateway []).status ≠ 304 ∧
    (Reports (badGateway [])
        (run sampleAuthority (fun _ => badGateway []) sampleClient sampleCall) ↔
      IsReadable (badGateway []).text) :=
  ⟨sampleCall_sent, by decide, by decide,
    failures_reported (fun _ => badGateway []) sampleCall_sent (by decide) (fun _ => by decide)⟩

/-- A proxy's page is reported as a syntax error. -/
theorem page_surfaces_syntaxError :
    request sampleAuthority sampleClient sampleCall = some sampleRequest ∧
    run sampleAuthority (fun _ => badGateway (js "<html>")) sampleClient sampleCall =
      .error .syntaxError ∧
    ¬ Reports (badGateway (js "<html>"))
      (run sampleAuthority (fun _ => badGateway (js "<html>")) sampleClient sampleCall) := by
  have hrun : run sampleAuthority (fun _ => badGateway (js "<html>")) sampleClient sampleCall =
      .error .syntaxError := by
    rw [run, sampleCall_sent]
    rfl
  refine ⟨sampleCall_sent, hrun, ?_⟩
  intro h
  have hnone : ∀ error, ¬ Structured (js "<html>") error := by
    intro error herror
    rw [structured_iff] at herror
    exact absurd herror (by simp [show parseJson (js "<html>") = none from rfl, asErrorEnvelope])
  rw [hrun] at h
  cases h.otherwise hnone

end NewsApi.Client
