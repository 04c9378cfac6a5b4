import NewsApi.Text.JsString

/-! # Bytes

What a string is outside the runtime: its UTF-8 bytes, and their digests. -/
namespace NewsApi.Text

/-- The bytes of a code point. -/
def utf8Scalar (n : Nat) : List UInt8 :=
  if n < 0x80 then [UInt8.ofNat n]
  else if n < 0x800 then [UInt8.ofNat (0xC0 + n / 64), UInt8.ofNat (0x80 + n % 64)]
  else if n < 0x10000 then
    [UInt8.ofNat (0xE0 + n / 4096), UInt8.ofNat (0x80 + n / 64 % 64), UInt8.ofNat (0x80 + n % 64)]
  else
    [UInt8.ofNat (0xF0 + n / 262144), UInt8.ofNat (0x80 + n / 4096 % 64),
      UInt8.ofNat (0x80 + n / 64 % 64), UInt8.ofNat (0x80 + n % 64)]

/-- The code point of a surrogate pair. -/
def pairPoint (c d : CodeUnit) : Nat :=
  0x10000 + (c.toNat - 0xD800) * 0x400 + (d.toNat - 0xDC00)

/-- A lone surrogate is written as the replacement character. -/
def unitPoint (c : CodeUnit) : Nat :=
  if isLeadingSurrogate c || isTrailingSurrogate c then 0xFFFD else c.toNat

/-- `Buffer.from(s, "utf8")` -/
def utf8 : JsString → List UInt8
  | [] => []
  | [c] => utf8Scalar (unitPoint c)
  | c :: d :: rest =>
    if isLeadingSurrogate c && isTrailingSurrogate d then
      utf8Scalar (pairPoint c d) ++ utf8 rest
    else utf8Scalar (unitPoint c) ++ utf8 (d :: rest)

/-- A SHA-256 digest. -/
abbrev Digest := Vector UInt8 32

end NewsApi.Text
