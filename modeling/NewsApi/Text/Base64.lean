import NewsApi.Text.JsString

/-! # The URL alphabet of base64 -/
namespace NewsApi.Text

/-- The character of six bits: letters, digits, `-` and `_`. -/
def base64Char (n : Nat) : CodeUnit :=
  UInt16.ofNat (if n < 26 then 65 + n else if n < 52 then 71 + n else if n < 62 then n - 4
    else if n = 62 then 45 else 95)

/-- `digest("base64url")`, which does not pad. -/
def base64url : List UInt8 → JsString
  | [] => []
  | [a] => [base64Char (a.toNat / 4), base64Char (a.toNat % 4 * 16)]
  | [a, b] =>
    [base64Char (a.toNat / 4), base64Char (a.toNat % 4 * 16 + b.toNat / 16),
      base64Char (b.toNat % 16 * 4)]
  | a :: b :: c :: rest =>
    base64Char (a.toNat / 4) :: base64Char (a.toNat % 4 * 16 + b.toNat / 16) ::
      base64Char (b.toNat % 16 * 4 + c.toNat / 64) :: base64Char (c.toNat % 64) :: base64url rest

end NewsApi.Text
