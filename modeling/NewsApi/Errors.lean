import NewsApi.Types.Article

/-! # Errors

What can be thrown, with the fields that some branch of the service looks at. -/
namespace NewsApi.Errors
open NewsApi.Text NewsApi.Types

structure HttpError where
  statusCode : Nat
  message : String
  code : String
  retryAfter : Option JsString

/-- `response` is absent for network failures, timeouts and cancellations. -/
structure AxiosError where
  code : Option String
  /-- `error.response?.status` and `error.response?.headers` -/
  response : Option (Nat × List (JsString × Json))

inductive JsError where
  | requestAborted
  | http (error : HttpError)
  | axios (error : AxiosError)
  | cacheCorruption (message : String)
  /-- any other `Error` -/
  | other (name : String) (code : Option String)
  /-- a thrown value that is not an `Error` -/
  | value

def isCancelCode (code : Option String) : Bool :=
  code == some "ABORT_ERR" || code == some "ERR_CANCELED"

def isRequestAbortedError : JsError → Bool
  | .requestAborted => true
  | .http error => isCancelCode (some error.code)
  | .axios error => isCancelCode error.code
  | .cacheCorruption _ => false
  | .other name code => name == "AbortError" || isCancelCode code
  | .value => false

def AxiosError.status (error : AxiosError) : Option Nat := error.response.map Prod.fst

end NewsApi.Errors
