import Mathlib.Algebra.Group.Nat.Defs
import NewsApi.Config.Settings
import NewsApi.Types.Article

/-! # Headers

What the headers of a request can be, and how a provider's `Retry-After` is
normalized. -/
namespace NewsApi.Http
open NewsApi.Text NewsApi.Types NewsApi.Config

/-- A header that is present; repeated ones may arrive as an array. -/
inductive HeaderValue where
  | str (value : JsString)
  | arr (values : List JsString)
  deriving DecidableEq

/-- White space and line terminators, as `String.prototype.trim` removes them. -/
def isWhitespace (c : CodeUnit) : Bool :=
  (9 ≤ c && c ≤ 13) || c == 0x20 || c == 0xA0 || c == 0x1680 || (0x2000 ≤ c && c ≤ 0x200A) ||
    c == 0x2028 || c == 0x2029 || c == 0x202F || c == 0x205F || c == 0x3000 || c == 0xFEFF

def trim (s : JsString) : JsString :=
  ((s.dropWhile isWhitespace).reverse.dropWhile isWhitespace).reverse

/-- `/^\d+$/` -/
def isDigits (s : JsString) : Bool := !s.isEmpty && s.all isDigit

/-- `/^[+-]?\d+$/` -/
def isSignedDigits : JsString → Bool
  | c :: rest => if c == 0x2B || c == 0x2D then isDigits rest else isDigits (c :: rest)
  | [] => false

def MAX_SAFE_INTEGER : Nat := 2 ^ 53 - 1

/-- `Number(digits)` is safe exactly when the written integer is: rounding
keeps integers from `2^53` on at or above `2^53`. -/
def normalizeRetryAfter (platform : Platform) (value : Option Json) (now : Int) :
    Option JsString :=
  let raw := match value with
    | some (.arr items) => items.head?
    | value => value
  match raw with
  | some (.str raw) =>
    let trimmed := trim raw
    if isDigits trimmed then
      if digitsValue trimmed ≤ MAX_SAFE_INTEGER then
        some (decimal (min (digitsValue trimmed) MAX_RETRY_AFTER_SECONDS))
      else none
    else if isSignedDigits trimmed then none
    else (platform.dateParse trimmed).map fun (retryAt : Int) =>
      -- Math.max(0, Math.ceil((retryAt - now) / 1000))
      decimal (min ((retryAt - now + 999) / 1000).toNat MAX_RETRY_AFTER_SECONDS)
  | _ => none

/-- Response headers, names in lower case as the HTTP parser delivers them;
`headers.get` of the client library finds the same entry. -/
def retryAfterFromHeaders (platform : Platform) (headers : List (JsString × Json)) (now : Int) :
    Option JsString :=
  normalizeRetryAfter platform (headers.lookup (js "retry-after")) now

end NewsApi.Http
