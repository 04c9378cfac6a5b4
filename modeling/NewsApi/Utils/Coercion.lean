import NewsApi.Errors
import NewsApi.Http.RetryAfter

/-! # Query values and their coercions

What a query parameter can be, and what `Number`, `String` and the date
functions of the runtime make of it. A member of a query object is data, never
a function, so an own member `toString` hides the method of that name. -/
namespace NewsApi.Utils
open NewsApi.Text NewsApi.Types NewsApi.Errors NewsApi.Http

/-- A parameter that is present. The parser stores `flag`, which is `true`, for
a key that is given both as a name and as an object. -/
inductive QueryValue where
  | str (value : JsString)
  | arr (items : List QueryValue)
  | obj (members : List (JsString × QueryValue))
  | flag

/-! ## Numbers -/

/-- `base ^ exponent` -/
def power (base : Nat) (exponent : Int) : Rat :=
  if 0 ≤ exponent then ((base ^ exponent.toNat : Nat) : Rat)
  else 1 / ((base ^ (-exponent).toNat : Nat) : Rat)

/-- The nearest integer, ties to even. -/
def nearestInt (q : Rat) : Int :=
  let below := q.floor
  if q - below < 1 / 2 then below
  else if 1 / 2 < q - below then below + 1
  else if below % 2 = 0 then below else below + 1

/-- The nearest double: 53 bits, exponents from -1074, up to `2^1024`. -/
def toDouble (q : Rat) : JsNumber :=
  if q = 0 then .finite 0
  else
    let size := if q < 0 then -q else q
    let guess : Int := (Nat.log2 size.num.toNat : Int) - (Nat.log2 size.den : Int)
    let top := if power 2 guess ≤ size then guess else guess - 1
    let exponent := max (top - 52) (-1074)
    let value := (nearestInt (size / power 2 exponent) : Rat) * power 2 exponent
    if power 2 1024 ≤ value then .infinity (q < 0)
    else .finite (if q < 0 then -value else value)

/-- The result of an operation on numbers that stay in range. -/
def rounded (q : Rat) : Rat :=
  match toDouble q with
  | .finite value => value
  | _ => 0

/-- `Math.max(1, Math.round(base * (0.5 + random)))` -/
def jittered (base : Nat) (random : Rat) : Nat :=
  max 1 (rounded (base * rounded (1 / 2 + random)) + 1 / 2).floor.toNat

def digitValue (c : CodeUnit) : Nat :=
  let n := c.toNat
  if 0x30 ≤ n ∧ n ≤ 0x39 then n - 0x30
  else if 0x61 ≤ n ∧ n ≤ 0x7A then n - 0x61 + 10
  else if 0x41 ≤ n ∧ n ≤ 0x5A then n - 0x41 + 10
  else 36

/-- The digits after `0x`, `0o` or `0b`. -/
def radixNumber (radix : Nat) (digits : JsString) : JsNumber :=
  if !digits.isEmpty && digits.all (fun c => digitValue c < radix) then
    toDouble ((digits.foldl (fun n c => n * radix + digitValue c) 0 : Nat) : Rat)
  else .nan

/-- An exponent part, which may be missing. -/
def exponentOf : JsString → Option Int
  | [] => some 0
  | e :: rest =>
    if e == 0x65 || e == 0x45 then
      match rest with
      | 0x2D :: digits => if isDigits digits then some (-(digitsValue digits : Int)) else none
      | 0x2B :: digits => if isDigits digits then some (digitsValue digits) else none
      | digits => if isDigits digits then some (digitsValue digits) else none
    else none

/-- A decimal literal without a sign. -/
def unsignedNumber (s : JsString) : Option Rat :=
  let whole := s.takeWhile isDigit
  let rest := s.dropWhile isDigit
  let (fraction, rest) := match rest with
    | 0x2E :: rest => (rest.takeWhile isDigit, rest.dropWhile isDigit)
    | rest => ([], rest)
  if whole.isEmpty && fraction.isEmpty then none
  else (exponentOf rest).map fun exponent =>
    (digitsValue (whole ++ fraction) : Rat) * power 10 (exponent - fraction.length)

def decimalNumber (negative : Bool) (s : JsString) : JsNumber :=
  if s = js "Infinity" then .infinity negative
  else match unsignedNumber s with
    | some q => toDouble (if negative then -q else q)
    | none => .nan

/-- `Number(s)` of a string -/
def numberOfString (s : JsString) : JsNumber :=
  match trim s with
  | [] => .finite 0
  | 0x30 :: 0x78 :: digits | 0x30 :: 0x58 :: digits => radixNumber 16 digits
  | 0x30 :: 0x6F :: digits | 0x30 :: 0x4F :: digits => radixNumber 8 digits
  | 0x30 :: 0x62 :: digits | 0x30 :: 0x42 :: digits => radixNumber 2 digits
  | 0x2B :: s => decimalNumber false s
  | 0x2D :: s => decimalNumber true s
  | s => decimalNumber false s

/-! ## Objects -/

/-- "Cannot convert object to primitive value" -/
def conversionError : JsError := .other "TypeError" none

mutual

/-- `String(value)`; that of an array joins its items. -/
def textOf : QueryValue → Except JsError JsString
  | .str value => .ok value
  | .arr items => joinTexts items
  | .obj members =>
    if members.any (·.1 == js "toString") then .error conversionError
    else .ok (js "[object Object]")
  | .flag => .ok (js "true")

def joinTexts : List QueryValue → Except JsError JsString
  | [] => .ok []
  | [item] => textOf item
  | item :: next :: items => do
    let text ← textOf item
    let rest ← joinTexts (next :: items)
    return text ++ 0x2C :: rest

end

/-- `Number(value)`: neither objects nor arrays have a number as their value, so
both go through their text. -/
def numberOf : QueryValue → Except JsError JsNumber
  | .str value => .ok (numberOfString value)
  | .flag => .ok (.finite 1)
  | value => (textOf value).map numberOfString

/-! ## Dates -/

/-- The largest time value, in milliseconds to either side of the epoch. -/
def MAX_TIME : Nat := 8640000000000000

def padded (width n : Nat) : JsString :=
  let digits := decimal n
  List.replicate (width - digits.length) 0x30 ++ digits

/-- Year, month and day of a day counted from the epoch. -/
def civil (day : Int) : Int × Nat × Nat :=
  let shifted := day + 719468
  let era := shifted / 146097
  let dayOfEra := (shifted % 146097).toNat
  let yearOfEra := (dayOfEra - dayOfEra / 1460 + dayOfEra / 36524 - dayOfEra / 146096) / 365
  let dayOfYear := dayOfEra - (365 * yearOfEra + yearOfEra / 4 - yearOfEra / 100)
  let index := (5 * dayOfYear + 2) / 153
  let month := if index < 10 then index + 3 else index - 9
  let year := (yearOfEra : Int) + era * 400
  (if month ≤ 2 then year + 1 else year, month, dayOfYear - (153 * index + 2) / 5 + 1)

def yearText (year : Int) : JsString :=
  if 0 ≤ year ∧ year ≤ 9999 then padded 4 year.toNat
  else (if year < 0 then 0x2D else 0x2B) :: padded 6 year.natAbs

/-- "Invalid time value" -/
def rangeError : JsError := .other "RangeError" none

/-- `new Date(time).toISOString()` -/
def toISOString (time : Int) : Except JsError JsString :=
  if MAX_TIME < time.natAbs then .error rangeError
  else
    let (year, month, day) := civil (time / 86400000)
    let ms := (time % 86400000).toNat
    .ok (yearText year ++ 0x2D :: (padded 2 month ++ 0x2D :: (padded 2 day ++ 0x54 ::
      (padded 2 (ms / 3600000) ++ 0x3A :: (padded 2 (ms / 60000 % 60) ++ 0x3A ::
        (padded 2 (ms / 1000 % 60) ++ 0x2E :: (padded 3 (ms % 1000) ++ [0x5A])))))))

end NewsApi.Utils
