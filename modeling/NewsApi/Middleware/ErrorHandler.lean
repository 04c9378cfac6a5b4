import Mathlib.Algebra.Order.Floor.Ring
import Mathlib.Data.Rat.Floor
import NewsApi.Http.BodyParser
import NewsApi.Http.Responses

/-! # The error handler

Anything can be thrown. What is known of a thrown value is only what its class
declares; every other property may have been set to whatever value. -/
namespace NewsApi.ErrorHandling
open NewsApi.Text NewsApi.Types NewsApi.Utils NewsApi.Http

/-! ## Thrown values -/

/-- A property of an error, as far as a comparison or `typeof` tells. -/
inductive Property where
  | undefined
  | str (value : JsString)
  | num (value : JsNumber)
  | other
deriving DecidableEq

inductive ErrorKind where
  /-- an error with the name `HttpError` is an instance of that class -/
  | http (statusCode : JsNumber) (code : JsString) (retryAfter : Option JsString)
  /-- `aborted`: it is an instance of `RequestAbortedError` -/
  | named (name : { name : JsString // name ≠ js "HttpError" }) (aborted : Bool)
    (code statusCode : Property)

structure ErrorObject where
  kind : ErrorKind
  message : JsString
  stack : Property
  type : Property
  body : Property

inductive Thrown where
  | error (error : ErrorObject)
  /-- not an `Error` -/
  | value

def ErrorObject.name (error : ErrorObject) : JsString :=
  match error.kind with
  | .http .. => js "HttpError"
  | .named name .. => name

def ErrorObject.code (error : ErrorObject) : Property :=
  match error.kind with
  | .http _ code _ => .str code
  | .named _ _ code _ => code

def ErrorObject.isAborted (error : ErrorObject) : Bool :=
  match error.kind with
  | .http .. => false
  | .named _ aborted .. => aborted

def isRequestAbortedError : Thrown → Bool
  | .value => false
  | .error error => error.isAborted || error.name == js "AbortError" ||
      error.code == .str (js "ABORT_ERR") || error.code == .str (js "ERR_CANCELED")

/-- What `HttpError` lets the handler read. -/
structure HttpErrorFields where
  statusCode : JsNumber
  code : JsString
  message : JsString
  retryAfter : Option JsString

def isErrorStatus : JsNumber → Bool
  | .finite value => 400 ≤ value && value < 600
  | _ => false

def isHttpError : Thrown → Option HttpErrorFields
  | .value => none
  | .error error =>
    match error.kind with
    | .named .. => none
    | .http statusCode code retryAfter =>
      if isErrorStatus statusCode then some ⟨statusCode, code, error.message, retryAfter⟩ else none

def isMalformedPathError : Thrown → Bool
  | .value => false
  | .error error => error.name == js "URIError"

def getBodyParserErrorContract : Thrown → Option BodyParserErrorContract
  | .value => none
  | .error error =>
    match error.type with
    | .str type => contractMember type
    | _ => none

def usesStructuredErrors (path : JsString) : Bool := (js "/api/v1/").isPrefixOf path

/-! ## The response -/

structure Answer where
  status : Int
  body : JsonValue

inductive LogLevel where
  | warn
  | error

/-- `err`: the record carries what was thrown. -/
structure LogRecord where
  level : LogLevel
  err : Option Thrown
  statusCode : Option JsNumber
  type : Option JsString
  message : Option JsString

/-- `statusCode` is `none` for `undefined`, `passedOn` what `next` was called with. -/
structure ResponseState where
  headersSent : Bool
  headers : List (String × JsString)
  statusCode : Option JsNumber
  answers : List Answer
  passedOn : List Thrown
  logs : List LogRecord
  /-- the types that `httpBodyErrorsTotal` has counted -/
  bodyErrors : List (Option JsString)

/-- The errors that the runtime's response throws. -/
inductive ResponseError where
  | headersSent
  | invalidCharacter
  | invalidStatusCode
deriving DecidableEq

abbrev Handling := ExceptT ResponseError (StateM ResponseState)

/-- Tab, visible ASCII and Latin-1. -/
def isHeaderChar (c : CodeUnit) : Bool :=
  c == 0x09 || (0x20 ≤ c && c ≤ 0x7E) || (0x80 ≤ c && c ≤ 0xFF)

def setHeader (name : String) (value : JsString) : Handling Unit := do
  let res ← get
  if res.headersSent then throw .headersSent
  else if !value.all isHeaderChar then throw .invalidCharacter
  else set { res with headers := res.headers ++ [(name, value)] }

/-- `value | 0` -/
def toInt32 : Option JsNumber → Int
  | some (.finite value) =>
    let integer := if value < 0 then -⌊-value⌋ else ⌊value⌋
    (integer + 2 ^ 31) % 2 ^ 32 - 2 ^ 31
  | _ => 0

/-- `res.status(statusCode).json(body)`. The status line is written first. -/
def statusJson (statusCode : Option JsNumber) (body : JsonValue) : Handling Unit := do
  let res ← get
  if res.headersSent then throw .headersSent
  else if toInt32 statusCode < 100 ∨ 999 < toInt32 statusCode then
    set { res with statusCode }
    throw .invalidStatusCode
  else set { res with
    statusCode
    headersSent := true
    answers := res.answers ++ [Answer.mk (toInt32 statusCode) body] }

def log (record : LogRecord) : Handling Unit :=
  modify fun res => { res with logs := res.logs ++ [record] }

def countBodyError (type : Option JsString) : Handling Unit :=
  modify fun res => { res with bodyErrors := res.bodyErrors ++ [type] }

def next (err : Thrown) : Handling Unit :=
  modify fun res => { res with passedOn := res.passedOn ++ [err] }

def optionalText : Option JsString → JsonValue
  | some text => .str text
  | none => .undefined

def structuredBody (code message : Option JsString) (id : JsString) : JsonValue :=
  .obj [(js "error", .obj [(js "code", optionalText code), (js "message", optionalText message),
    (js "requestId", .str id)])]

def legacyBody (message : Option JsString) : JsonValue :=
  .obj [(js "error", optionalText message)]

/-- How each branch of the handler ends. -/
def respond (req : Request) (path : JsString) (statusCode : Option JsNumber)
    (code message : Option JsString) : Handling Unit :=
  if usesStructuredErrors path then
    statusJson statusCode (structuredBody code message (requestId req))
  else statusJson statusCode (legacyBody message)

def status (n : Nat) : Option JsNumber := some (.finite n)

def isServerError : JsNumber → Bool
  | .finite value => 500 ≤ value
  | _ => false

/-- The branches that answer. `path` is `req.path`, without the query. -/
def answerError (err : Thrown) (req : Request) (path : JsString) : Handling Unit :=
  match isHttpError err with
  | some error => do
    match error.retryAfter with
    | some value => setHeader "Retry-After" value
    | none => pure ()
    log ⟨if isServerError error.statusCode then .error else .warn, some err,
      some error.statusCode, none, some error.message⟩
    respond req path (some error.statusCode) (some error.code) (some error.message)
  | none =>
    if isMalformedPathError err then do
      let message := js "Invalid URL-encoded path parameter"
      log ⟨.warn, some err, status 400, none, some message⟩
      respond req path (status 400) (some (js "invalid_path_parameter")) (some message)
    else
      match getBodyParserErrorContract err with
      | some contract => do
        let statusCode := contract.statusCode.bind status
        countBodyError contract.type
        log ⟨.warn, none, statusCode, contract.type, contract.message⟩
        respond req path statusCode contract.code contract.message
      | none => do
        match err with
        | .error error => log ⟨.error, some err, none, none, some error.message⟩
        | .value => log ⟨.error, some err, none, none, some (js "unknown error")⟩
        respond req path (status 500) (some (js "internal_error"))
          (some (js "Internal server error"))

def errorHandler (err : Thrown) (req : Request) (path : JsString) : Handling Unit :=
  if isRequestAbortedError err then pure ()
  else do
    let res ← get
    if res.headersSent then next err
    else answerError err req path

/-- What has been sent once the handler has returned or thrown. -/
def answers (err : Thrown) (req : Request) (path : JsString) (res : ResponseState) : List Answer :=
  ((errorHandler err req path).run res).2.answers

/-! ## What is answered -/

/-- What the handler makes of a thrown value, whatever the request. -/
structure Reply where
  statusCode : Option JsNumber
  code : Option JsString
  message : Option JsString
  retryAfter : Option JsString

def reply (err : Thrown) : Reply :=
  match isHttpError err with
  | some error => ⟨some error.statusCode, some error.code, some error.message, error.retryAfter⟩
  | none =>
    if isMalformedPathError err then
      ⟨status 400, some (js "invalid_path_parameter"),
        some (js "Invalid URL-encoded path parameter"), none⟩
    else
      match getBodyParserErrorContract err with
      | some contract => ⟨contract.statusCode.bind status, contract.code, contract.message, none⟩
      | none => ⟨status 500, some (js "internal_error"), some (js "Internal server error"), none⟩

def Reply.headerFits (reply : Reply) : Bool :=
  reply.retryAfter.all fun value => value.all isHeaderChar

/-- The runtime throws at neither the header nor the status line. -/
def Reply.IsSendable (reply : Reply) : Prop :=
  reply.headerFits = true ∧ ¬(toInt32 reply.statusCode < 100 ∨ 999 < toInt32 reply.statusCode)

instance (reply : Reply) : Decidable reply.IsSendable := inferInstanceAs (Decidable (_ ∧ _))

def errorBody (req : Request) (path : JsString) (code message : Option JsString) : JsonValue :=
  if usesStructuredErrors path then structuredBody code message (requestId req)
  else legacyBody message

theorem statusJson_answers {res : ResponseState} (hopen : res.headersSent = false)
    (statusCode : Option JsNumber) (body : JsonValue) :
    ((statusJson statusCode body).run res).2.answers =
      if toInt32 statusCode < 100 ∨ 999 < toInt32 statusCode then res.answers
      else res.answers ++ [⟨toInt32 statusCode, body⟩] := by
  have hget : (statusJson statusCode body).run res =
      ExceptT.run (if res.headersSent then throw .headersSent
        else if toInt32 statusCode < 100 ∨ 999 < toInt32 statusCode then do
          set { res with statusCode }
          throw .invalidStatusCode
        else set { res with
          statusCode
          headersSent := true
          answers := res.answers ++ [Answer.mk (toInt32 statusCode) body] } : Handling Unit) res :=
    rfl
  rw [hget, if_neg (by simp [hopen])]
  split
  · rfl
  · rfl

theorem respond_answers {res : ResponseState} (hopen : res.headersSent = false) (req : Request)
    (path : JsString) (statusCode : Option JsNumber) (code message : Option JsString) :
    ((respond req path statusCode code message).run res).2.answers =
      if toInt32 statusCode < 100 ∨ 999 < toInt32 statusCode then res.answers
      else res.answers ++ [⟨toInt32 statusCode, errorBody req path code message⟩] := by
  unfold respond errorBody
  split
  · exact statusJson_answers hopen _ _
  · exact statusJson_answers hopen _ _

theorem bind_ok {x : Handling Unit} {res res' : ResponseState} (h : x.run res = (.ok (), res'))
    (f : Unit → Handling Unit) : (x >>= f).run res = (f ()).run res' := by
  show (ExceptT.bindCont f (x.run res).1).run (x.run res).2 = _
  rw [h]
  rfl

theorem bind_error {x : Handling Unit} {res res' : ResponseState} {error : ResponseError}
    (h : x.run res = (.error error, res')) (f : Unit → Handling Unit) :
    (x >>= f).run res = (.error error, res') := by
  show (ExceptT.bindCont f (x.run res).1).run (x.run res).2 = _
  rw [h]
  rfl

theorem setHeader_run {res : ResponseState} (hopen : res.headersSent = false) (name : String)
    (value : JsString) : (setHeader name value).run res =
      if value.all isHeaderChar then
        (.ok (), { res with headers := res.headers ++ [(name, value)] })
      else (.error .invalidCharacter, res) := by
  have hget : (setHeader name value).run res =
      ExceptT.run (if res.headersSent then throw .headersSent
        else if !value.all isHeaderChar then throw .invalidCharacter
        else set { res with headers := res.headers ++ [(name, value)] } : Handling Unit) res :=
    rfl
  rw [hget, if_neg (by simp [hopen])]
  cases value.all isHeaderChar with
  | true => rfl
  | false => rfl

/-- At most one answer: the reply, if the runtime takes its header and its status. -/
theorem answerError_answers {err : Thrown} {res : ResponseState} (hopen : res.headersSent = false)
    (req : Request) (path : JsString) :
    ((answerError err req path).run res).2.answers =
      if (reply err).IsSendable then
        res.answers ++ [⟨toInt32 (reply err).statusCode,
          errorBody req path (reply err).code (reply err).message⟩]
      else res.answers := by
  have hrespond : ∀ (r : Reply), r.headerFits = true → ∀ res' : ResponseState,
      res'.headersSent = false → res'.answers = res.answers →
      ((respond req path r.statusCode r.code r.message).run res').2.answers =
        if r.IsSendable then
          res.answers ++ [⟨toInt32 r.statusCode, errorBody req path r.code r.message⟩]
        else res.answers := by
    intro r hfits res' hopen' hanswers
    rw [respond_answers hopen', hanswers]
    by_cases hrange : toInt32 r.statusCode < 100 ∨ 999 < toInt32 r.statusCode
    · rw [if_pos hrange, if_neg fun h => h.2 hrange]
    · rw [if_neg hrange, if_pos ⟨hfits, hrange⟩]
  unfold answerError reply
  split
  · rename_i error _
    cases hretry : error.retryAfter with
    | none => exact hrespond ⟨_, _, _, none⟩ rfl _ hopen rfl
    | some value =>
      have hset := setHeader_run hopen "Retry-After" value
      by_cases hfits : value.all isHeaderChar = true
      · rw [if_pos hfits] at hset
        refine (congrArg (fun result => result.2.answers) (bind_ok hset _)).trans ?_
        exact hrespond ⟨_, _, _, some value⟩ hfits _ hopen rfl
      · rw [if_neg hfits] at hset
        have hunsent : ¬(Reply.mk (some error.statusCode) (some error.code) (some error.message)
            (some value)).IsSendable := by
          intro hsend
          exact hfits hsend.1
        refine (congrArg (fun result => result.2.answers) (bind_error hset _)).trans ?_
        exact (if_neg hunsent).symm
  · split
    · exact hrespond ⟨_, _, _, none⟩ rfl _ hopen rfl
    · split
      · exact hrespond ⟨_, _, _, none⟩ rfl _ hopen rfl
      · split
        · exact hrespond ⟨_, _, _, none⟩ rfl _ hopen rfl
        · exact hrespond ⟨_, _, _, none⟩ rfl _ hopen rfl

theorem answers_eq {err : Thrown} (habort : isRequestAbortedError err = false)
    {res : ResponseState} (hopen : res.headersSent = false) (req : Request) (path : JsString) :
    answers err req path res =
      if (reply err).IsSendable then
        res.answers ++ [⟨toInt32 (reply err).statusCode,
          errorBody req path (reply err).code (reply err).message⟩]
      else res.answers := by
  have hhandle : (errorHandler err req path).run res =
      ExceptT.run (if res.headersSent then next err else answerError err req path) res := by
    rw [errorHandler, if_neg (by simp [habort])]
    rfl
  rw [answers, hhandle, if_neg (by simp [hopen])]
  exact answerError_answers hopen req path

/-! ## Which errors are answered -/

/-- The header that it asks for can be set, and where the table is asked for its
type, that is not the name of an inherited member. -/
def IsAnswerable (err : Thrown) : Prop :=
  match isHttpError err with
  | some fields => ∀ value ∈ fields.retryAfter, value.all isHeaderChar = true
  | none => isMalformedPathError err = false → ∀ type ∈ objectPrototype,
      ∀ error, err = .error error → error.type ≠ .str type

theorem toInt32_errorStatus {statusCode : JsNumber} (h : isErrorStatus statusCode = true) :
    400 ≤ toInt32 (some statusCode) ∧ toInt32 (some statusCode) ≤ 599 := by
  cases statusCode with
  | nan => cases h
  | infinity negative => cases h
  | finite value =>
    simp only [isErrorStatus, Bool.and_eq_true, decide_eq_true_eq] at h
    have hlow : (400 : Int) ≤ ⌊value⌋ := Int.le_floor.mpr (by exact_mod_cast h.1)
    have hhigh : ⌊value⌋ < 600 := Int.floor_lt.mpr (by exact_mod_cast h.2)
    have hnonneg : ¬value < 0 := by linarith
    simp only [toInt32, if_neg hnonneg]
    omega

theorem toInt32_status (n : Nat) (h : n < 2 ^ 31) : toInt32 (status n) = n := by
  have hnonneg : ¬(n : Rat) < 0 := by simp
  simp only [toInt32, status, if_neg hnonneg, Int.floor_natCast]
  omega

/-- What a client may see: an error status, a code and a message. -/
structure Reply.IsSafe (reply : Reply) : Prop where
  status : 400 ≤ toInt32 reply.statusCode ∧ toInt32 reply.statusCode ≤ 599
  code : reply.code.isSome = true
  message : reply.message.isSome = true

theorem contract_safe {contract : BodyParserErrorContract} (h : contract.complete = true) :
    (Reply.mk (contract.statusCode.bind status) contract.code contract.message none).IsSafe := by
  simp only [BodyParserErrorContract.complete, Bool.and_eq_true] at h
  obtain ⟨⟨hstatus, hcode⟩, hmessage⟩ := h
  refine ⟨?_, hcode, hmessage⟩
  cases hn : contract.statusCode with
  | none => simp [hn] at hstatus
  | some n =>
    simp only [hn, Option.any_some, Bool.and_eq_true, decide_eq_true_eq] at hstatus
    rw [Option.bind_some, toInt32_status n (by omega)]
    omega

theorem getBodyParserErrorContract_eq_some {err : Thrown} {contract : BodyParserErrorContract}
    (h : getBodyParserErrorContract err = some contract) :
    ∃ error type, err = .error error ∧ error.type = .str type ∧
      contractMember type = some contract := by
  cases err with
  | value => cases h
  | error error =>
    unfold getBodyParserErrorContract at h
    dsimp only at h
    split at h
    · rename_i type htype
      exact ⟨error, type, rfl, htype, h⟩
    · cases h

/-- The reply to an error that is no `HttpError` is safe, or it has no status at
all: then the type names an inherited member. -/
theorem reply_named {err : Thrown} (h : isHttpError err = none) :
    (reply err).retryAfter = none ∧
      ((reply err).IsSafe ∧ IsAnswerable err ∨
        (reply err).statusCode = none ∧ ¬IsAnswerable err) := by
  have hstatus (n : Nat) (hn : n < 2 ^ 31) := toInt32_status n hn
  unfold reply IsAnswerable
  rw [h]
  dsimp only
  cases hpath : isMalformedPathError err with
  | true =>
    refine ⟨rfl, .inl ⟨⟨?_, rfl, rfl⟩, by simp⟩⟩
    show 400 ≤ toInt32 (status 400) ∧ toInt32 (status 400) ≤ 599
    rw [hstatus 400 (by omega)]
    omega
  | false =>
    cases hcontract : getBodyParserErrorContract err with
    | none =>
      refine ⟨rfl, .inl ⟨⟨?_, rfl, rfl⟩, ?_⟩⟩
      · show 400 ≤ toInt32 (status 500) ∧ toInt32 (status 500) ≤ 599
        rw [hstatus 500 (by omega)]
        omega
      · intro _ type hmem error herr htype
        subst herr
        simp [getBodyParserErrorContract, htype, objectPrototype_lookup hmem] at hcontract
    | some contract =>
      obtain ⟨error, type, rfl, htype, hmember⟩ := getBodyParserErrorContract_eq_some hcontract
      refine ⟨rfl, ?_⟩
      by_cases hmem : type ∈ objectPrototype
      · have hinherited : contract = inheritedMember := by
          simpa [hmember] using objectPrototype_lookup hmem
        subst hinherited
        refine .inr ⟨rfl, ?_⟩
        intro hanswerable
        exact hanswerable rfl type hmem error rfl htype
      · refine .inl ⟨contract_safe (contractMember_complete hmem hmember), ?_⟩
        intro _ type' hmem' error' herr htype'
        cases herr
        rw [htype] at htype'
        cases htype'
        exact hmem hmem'

theorem reply_http {err : Thrown} {fields : HttpErrorFields} (h : isHttpError err = some fields) :
    (reply err).IsSafe := by
  have hstatus : isErrorStatus fields.statusCode = true := by
    unfold isHttpError at h
    split at h
    · cases h
    · split at h
      · cases h
      · split at h
        · cases h
          assumption
        · cases h
  unfold reply
  rw [h]
  exact ⟨toInt32_errorStatus hstatus, rfl, rfl⟩

theorem isAnswerable_http {err : Thrown} {fields : HttpErrorFields}
    (h : isHttpError err = some fields) : IsAnswerable err ↔ (reply err).headerFits = true := by
  unfold reply IsAnswerable Reply.headerFits
  rw [h]
  dsimp only
  cases fields.retryAfter with
  | none => simp
  | some value => simp

theorem isSafe_of_answerable {err : Thrown} (h : IsAnswerable err) : (reply err).IsSafe := by
  cases hkind : isHttpError err with
  | some fields => exact reply_http hkind
  | none =>
    rcases (reply_named hkind).2 with hsafe | hunanswerable
    · exact hsafe.1
    · exact absurd h hunanswerable.2

theorem isSendable_iff (err : Thrown) : (reply err).IsSendable ↔ IsAnswerable err := by
  constructor
  · intro hsend
    cases hkind : isHttpError err with
    | some fields => exact (isAnswerable_http hkind).mpr hsend.1
    | none =>
      rcases (reply_named hkind).2 with hsafe | ⟨hstatus, -⟩
      · exact hsafe.2
      · have hline := hsend.2
        rw [hstatus] at hline
        simp [toInt32] at hline
  · intro hanswerable
    have hstatus := (isSafe_of_answerable hanswerable).status
    refine ⟨?_, by omega⟩
    cases hkind : isHttpError err with
    | some fields => exact (isAnswerable_http hkind).mp hanswerable
    | none => simp [Reply.headerFits, (reply_named hkind).1]

/-! ## One safe answer -/

section
variable (err : Thrown) (req : Request) (path : JsString) (res : ResponseState)

/-- One answer, of an error status, with a code and a message. -/
def IsAnsweredSafely : Prop :=
  ∃ status code message, 400 ≤ status ∧ status ≤ 599 ∧ answers err req path res =
    res.answers ++ [⟨status, errorBody req path (some code) (some message)⟩]

/-- An error that is not an `HttpError` is answered alike whatever else it carries. -/
def IsAnsweredBlindly : Prop :=
  ∀ error, err = .error error → isHttpError err = none → ∀ message stack body,
    answers (.error { error with message, stack, body }) req path res = answers err req path res

end

variable {err : Thrown} {res : ResponseState}

theorem isAnsweredSafely_iff (habort : isRequestAbortedError err = false)
    (hopen : res.headersSent = false) (req : Request) (path : JsString) :
    IsAnsweredSafely err req path res ↔ IsAnswerable err := by
  unfold IsAnsweredSafely
  rw [answers_eq habort hopen]
  constructor
  · intro hsent
    by_cases hsend : (reply err).IsSendable
    · exact (isSendable_iff err).mp hsend
    · obtain ⟨status, code, message, -, -, heq⟩ := hsent
      rw [if_neg hsend] at heq
      simp at heq
  · intro hanswerable
    have hsafe := isSafe_of_answerable hanswerable
    obtain ⟨code, hcode⟩ := Option.isSome_iff_exists.mp hsafe.code
    obtain ⟨message, hmessage⟩ := Option.isSome_iff_exists.mp hsafe.message
    rw [if_pos ((isSendable_iff err).mpr hanswerable), hcode, hmessage]
    exact ⟨_, code, message, hsafe.status.1, hsafe.status.2, rfl⟩

/-- Neither the text of an error nor what is attached to it decides a branch. -/
theorem isAnsweredBlindly (habort : isRequestAbortedError err = false)
    (hopen : res.headersSent = false) (req : Request) (path : JsString) :
    IsAnsweredBlindly err req path res := by
  intro error herr hkind message stack body
  subst herr
  have hnamed : isHttpError (.error { error with message, stack, body }) = none := by
    unfold isHttpError at hkind ⊢
    dsimp only at hkind ⊢
    split at hkind
    · rfl
    · split at hkind
      · cases hkind
      · rename_i hstatus
        rw [if_neg hstatus]
  have hreply : reply (.error { error with message, stack, body }) = reply (.error error) := by
    unfold reply
    rw [hkind, hnamed]
    rfl
  have hretold : isRequestAbortedError (.error { error with message, stack, body }) = false :=
    habort
  rw [answers_eq hretold hopen, answers_eq habort hopen, hreply]

/-- **One safe answer**, blind to an internal error's text, for the answerable
errors and for no others. -/
theorem one_safe_answer (habort : isRequestAbortedError err = false)
    (hopen : res.headersSent = false) (req : Request) (path : JsString) :
    (IsAnsweredSafely err req path res ∧ IsAnsweredBlindly err req path res) ↔
      IsAnswerable err := by
  rw [isAnsweredSafely_iff habort hopen]
  exact and_iff_left (isAnsweredBlindly habort hopen req path)

/-- Before anything was sent. -/
def unanswered : ResponseState := ⟨false, [], some (.finite 200), [], [], [], []⟩

/-- An error of the library that reads request bodies. -/
def parserError (type : String) : Thrown :=
  .error ⟨.named ⟨js "PayloadTooLargeError", by decide⟩ false .undefined (.num (.finite 413)),
    js "request entity too large", .undefined, .str (js type), .str (js "secret")⟩

theorem tooLarge_answerable : IsAnswerable (parserError "entity.too.large") := by
  intro _ type htype error herr
  cases herr
  intro heq
  cases heq
  exact absurd htype (by decide +kernel)

/-- A body that is too large. -/
theorem one_safe_answer_too_large :
    IsAnsweredSafely (parserError "entity.too.large") ⟨none, none, none⟩ (js "/api/v1/articles")
      unanswered ∧
    IsAnsweredBlindly (parserError "entity.too.large") ⟨none, none, none⟩ (js "/api/v1/articles")
      unanswered :=
  (one_safe_answer rfl rfl _ _).mpr tooLarge_answerable

/-- The table has a member `constructor` like every object. -/
theorem one_safe_answer_inherited : ¬∀ (err : Thrown) (req : Request) (path : JsString)
    (res : ResponseState), isRequestAbortedError err = false → res.headersSent = false →
    IsAnsweredSafely err req path res ∧ IsAnsweredBlindly err req path res := by
  intro hall
  have hsafe := (hall (parserError "constructor") ⟨none, none, none⟩ (js "/api/v1/articles")
    unanswered rfl rfl).1
  have hanswerable := (isAnsweredSafely_iff rfl rfl _ _).mp hsafe
  exact hanswerable rfl (js "constructor") (by decide +kernel) _ rfl rfl

end NewsApi.ErrorHandling
