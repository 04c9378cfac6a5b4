import NewsApi.App

/-! # What the error handler sends

The whole response to an error, or that there is none. -/
namespace NewsApi.App
open NewsApi.Text NewsApi.Errors NewsApi.Http NewsApi.ErrorHandling

/-- The error handler sends nothing. -/
def Mute (err : Thrown) : Prop :=
  ErrorHandling.isRequestAbortedError err = true ∨ ¬IsAnswerable err

/-- The header that goes with a reply. -/
def retryHeader (err : Thrown) : List (String × JsString) :=
  ((reply err).retryAfter.map fun value => ("Retry-After", value)).toList

variable {req : HttpRequest} {id : JsString} {headers : List (String × JsString)} {err : Thrown}

theorem respond_headers (r : Request) (path : JsString) (statusCode : Option Types.JsNumber)
    (code message : Option JsString) (res : ResponseState) :
    ((respond r path statusCode code message).run res).2.headers = res.headers := by
  have hjson : ∀ body, ((statusJson statusCode body).run res).2.headers = res.headers := by
    intro body
    have hget : (statusJson statusCode body).run res =
        ExceptT.run (if res.headersSent then throw .headersSent
          else if toInt32 statusCode < 100 ∨ 999 < toInt32 statusCode then do
            set { res with statusCode }
            throw .invalidStatusCode
          else set { res with
            statusCode
            headersSent := true
            answers := res.answers ++ [Answer.mk (toInt32 statusCode) body] } : Handling Unit) res :=
      rfl
    rw [hget]
    split
    · rfl
    · split <;> rfl
  unfold respond
  split
  · exact hjson _
  · exact hjson _

/-- The header is set before the status line is written. -/
theorem answerError_headers {res : ResponseState} (hopen : res.headersSent = false)
    (h : IsAnswerable err) (r : Request) (path : JsString) :
    ((answerError err r path).run res).2.headers = res.headers ++ retryHeader err := by
  have hrespond : ∀ statusCode code message (res' : ResponseState),
      res'.headers = res.headers ++ retryHeader err →
      ((respond r path statusCode code message).run res').2.headers =
        res.headers ++ retryHeader err :=
    fun statusCode code message res' hset => (respond_headers r path _ _ _ res').trans hset
  have hfits := ((isSendable_iff err).mpr h).1
  unfold Reply.headerFits at hfits
  unfold retryHeader reply at *
  unfold answerError
  split
  · rename_i error hkind
    simp only [hkind] at hfits hrespond
    cases hretry : error.retryAfter with
    | none =>
      rw [hretry] at hrespond
      exact hrespond _ _ _ _ (List.append_nil _).symm
    | some value =>
      rw [hretry] at hfits hrespond
      have hset := setHeader_run hopen "Retry-After" value
      rw [if_pos (show value.all isHeaderChar = true from hfits)] at hset
      refine (congrArg (fun result => result.2.headers) (bind_ok hset _)).trans ?_
      exact hrespond _ _ _ _ rfl
  · rename_i hkind
    simp only [hkind] at hrespond
    split
    · rename_i hpath
      simp only [hpath, if_true] at hrespond
      exact hrespond _ _ _ _ (List.append_nil _).symm
    · rename_i hpath
      simp only [hpath] at hrespond
      split
      · rename_i contract hcontract
        simp only [hcontract] at hrespond
        exact hrespond _ _ _ _ (List.append_nil _).symm
      · rename_i hcontract
        simp only [hcontract] at hrespond
        cases err with
        | error error => exact hrespond _ _ _ _ (List.append_nil _).symm
        | value => exact hrespond _ _ _ _ (List.append_nil _).symm

/-- Of an error that is answerable. -/
def sentFor (req : HttpRequest) (id : JsString) (headers : List (String × JsString))
    (err : Thrown) : Response where
  status := (toInt32 (reply err).statusCode).toNat
  headers := headers ++ retryHeader err
  body := stringify (errorBody (req.request id) req.path (reply err).code (reply err).message)

theorem errorResponse_sent (habort : ErrorHandling.isRequestAbortedError err = false)
    (h : IsAnswerable err) : errorResponse req id headers err = some (sentFor req id headers err) := by
  have hopen : { unanswered with headers }.headersSent = false := rfl
  have hanswers := answers_eq habort hopen (req.request id) req.path
  rw [if_pos ((isSendable_iff err).mpr h)] at hanswers
  have hhandle : (errorHandler err (req.request id) req.path).run { unanswered with headers } =
      (answerError err (req.request id) req.path).run { unanswered with headers } := by
    rw [errorHandler, if_neg (by simp [habort])]
    rfl
  have hheaders := answerError_headers hopen h (req.request id) req.path
  rw [← hhandle] at hheaders
  unfold ErrorHandling.answers at hanswers
  unfold errorResponse
  dsimp only
  rw [hanswers, hheaders]
  rfl

theorem errorResponse_none (h : errorResponse req id headers err = none) : Mute err := by
  by_contra hmute
  obtain ⟨habort, hanswerable⟩ := not_or.mp hmute
  have hsent : errorResponse req id headers err = some (sentFor req id headers err) :=
    errorResponse_sent (Bool.eq_false_iff.mpr habort) (not_not.mp hanswerable)
  cases h.symm.trans hsent

theorem errorResponse_mute (h : Mute err) : errorResponse req id headers err = none := by
  cases habort : ErrorHandling.isRequestAbortedError err with
  | true =>
    unfold errorResponse
    rw [errorHandler, if_pos habort]
    rfl
  | false =>
    have hunanswerable : ¬IsAnswerable err := h.resolve_left (by simp [habort])
    have hopen : { unanswered with headers }.headersSent = false := rfl
    have hanswers := answers_eq habort hopen (req.request id) req.path
    rw [if_neg fun hsend => hunanswerable ((isSendable_iff err).mp hsend)] at hanswers
    unfold ErrorHandling.answers at hanswers
    unfold errorResponse
    dsimp only
    rw [hanswers]
    rfl

/-- What is sent of an error is sent of one that is answerable. -/
theorem errorResponse_eq_some {sent : Response} (h : errorResponse req id headers err = some sent) :
    IsAnswerable err ∧ sent = sentFor req id headers err := by
  have hmute : ¬Mute err := by
    intro hmute
    cases (errorResponse_mute hmute).symm.trans h
  obtain ⟨habort, hanswerable⟩ := not_or.mp hmute
  have heq : errorResponse req id headers err = some (sentFor req id headers err) :=
    errorResponse_sent (Bool.eq_false_iff.mpr habort) (not_not.mp hanswerable)
  exact ⟨not_not.mp hanswerable, Option.some.inj (h.symm.trans heq)⟩

end NewsApi.App
