import NewsApi.Utils.Coercion

/-! # Numbers from the environment

A variable that is missing, blank, or not a safe integer of the wanted sign
counts as its fallback; one that is too large counts as its maximum. -/
namespace NewsApi.Config
open NewsApi.Text NewsApi.Types NewsApi.Utils NewsApi.Http

/-- `Number.isSafeInteger(value)` and `value >= 0` -/
def safeNatural : JsNumber → Option Nat
  | .finite q => if q.den = 1 ∧ 0 ≤ q.num ∧ q.num.toNat ≤ MAX_SAFE_INTEGER then some q.num.toNat
    else none
  | _ => none

def resolveNonNegativeIntegerEnv (raw : Option JsString) (fallback maximum : Nat) : Nat :=
  match raw with
  | some s =>
    if trim s = [] then fallback
    else match safeNatural (numberOfString s) with
      | some value => min value maximum
      | none => fallback
  | none =>
    match safeNatural (.finite fallback) with
    | some value => min value maximum
    | none => fallback

def resolvePositiveIntegerEnv (raw : Option JsString) (fallback maximum : Nat) : Nat :=
  let value := resolveNonNegativeIntegerEnv raw fallback maximum
  if value > 0 then value else fallback

end NewsApi.Config
