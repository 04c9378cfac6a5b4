import NewsApi.Text.Utf8

/-! # Percent-encoding

UTF-8 bytes written as `%XX`. What is encoded can be decoded, code point by
code point. -/
namespace NewsApi.Text

def upperHex (n : Nat) : CodeUnit := UInt16.ofNat (if n < 10 then 48 + n else 55 + n)

def percentByte (b : UInt8) : JsString := [0x25, upperHex (b.toNat / 16), upperHex (b.toNat % 16)]

def percentBytes (bytes : List UInt8) : JsString := bytes.flatMap percentByte

/-- `copy` says which code units are written as one other, or as they are. -/
def percentUnit (copy : CodeUnit → Option CodeUnit) (c : CodeUnit) : JsString :=
  match copy c with
  | some d => [d]
  | none => percentBytes (utf8Scalar (unitPoint c))

def percentEncode (copy : CodeUnit → Option CodeUnit) : JsString → JsString
  | [] => []
  | [c] => percentUnit copy c
  | c :: d :: rest =>
    if isLeadingSurrogate c && isTrailingSurrogate d then
      percentBytes (utf8Scalar (pairPoint c d)) ++ percentEncode copy rest
    else percentUnit copy c ++ percentEncode copy (d :: rest)

def isAsciiAlphanumeric (c : CodeUnit) : Bool :=
  isDigit c || (0x41 ≤ c && c ≤ 0x5A) || (0x61 ≤ c && c ≤ 0x7A)

/-- What `encodeURIComponent` leaves alone. -/
def isUnreserved (c : CodeUnit) : Bool := isAsciiAlphanumeric c || (js "-_.!~*'()").contains c

def copyUnreserved (c : CodeUnit) : Option CodeUnit := if isUnreserved c then some c else none

/-- `none`: a `URIError` -/
def encodeURIComponent (s : JsString) : Option JsString :=
  if isWellFormed s then some (percentEncode copyUnreserved s) else none

/-! ## Decoding -/

def hexDigitValue (c : CodeUnit) : Option Nat :=
  if isDigit c then some (c.toNat - 0x30)
  else if 0x41 ≤ c && c ≤ 0x46 then some (c.toNat - 55)
  else if 0x61 ≤ c && c ≤ 0x66 then some (c.toNat - 87)
  else none

def readOctet : JsString → Option (UInt8 × JsString)
  | 0x25 :: a :: b :: rest =>
    match hexDigitValue a, hexDigitValue b with
    | some hi, some lo => some (UInt8.ofNat (hi * 16 + lo), rest)
    | _, _ => none
  | _ => none

def readOctets : Nat → JsString → Option (List UInt8 × JsString)
  | 0, s => some ([], s)
  | n + 1, s => (readOctet s).bind fun (b, rest) =>
      (readOctets n rest).map fun (bytes, rest) => (b :: bytes, rest)

/-- How many octets follow the first one of a code point. -/
def continuations (b : UInt8) : Option Nat :=
  if b.toNat < 0x80 then some 0
  else if b.toNat < 0xC0 then none
  else if b.toNat < 0xE0 then some 1
  else if b.toNat < 0xF0 then some 2
  else if b.toNat < 0xF8 then some 3
  else none

def isScalarValue (n : Nat) : Bool := n < 0x110000 && !(0xD800 ≤ n && n ≤ 0xDFFF)

theorem isScalarValue_iff {n : Nat} :
    isScalarValue n = true ↔ n < 0x110000 ∧ (n < 0xD800 ∨ 0xDFFF < n) := by
  simp only [isScalarValue, Bool.and_eq_true, decide_eq_true_eq, Bool.not_eq_true',
    Bool.and_eq_false_iff, decide_eq_false_iff_not, Nat.not_le]

/-- The code point of which these are the octets. -/
def scalarOf (octets : List UInt8) : Option Nat :=
  match readScalar octets with
  | some (n, _) => if isScalarValue n && utf8Scalar n == octets then some n else none
  | none => none

/-- A code point that is written with escapes. -/
def readEscapes (s : JsString) : Option (Nat × JsString) :=
  (readOctet s).bind fun (b, rest) => (continuations b).bind fun count =>
    (readOctets count rest).bind fun (bytes, rest) =>
      (scalarOf (b :: bytes)).map fun n => (n, rest)

theorem readOctet_shorter {s rest : JsString} {b : UInt8} (h : readOctet s = some (b, rest)) :
    rest.length < s.length := by
  unfold readOctet at h
  split at h
  · split at h
    · cases h
      simp only [List.length_cons]
      omega
    · cases h
  · cases h

theorem readOctets_shorter {n : Nat} {s rest : JsString} {bytes : List UInt8}
    (h : readOctets n s = some (bytes, rest)) : rest.length ≤ s.length := by
  induction n generalizing s bytes with
  | zero =>
    cases h
    exact Nat.le_refl _
  | succ n ih =>
    obtain ⟨⟨b, rest1⟩, hb, h⟩ := Option.bind_eq_some_iff.mp h
    obtain ⟨⟨bytes1, rest2⟩, hbytes, heq⟩ := Option.map_eq_some_iff.mp h
    cases heq
    exact Nat.le_of_lt (Nat.lt_of_le_of_lt (ih hbytes) (readOctet_shorter hb))

theorem readEscapes_shorter {s rest : JsString} {n : Nat} (h : readEscapes s = some (n, rest)) :
    rest.length < s.length := by
  obtain ⟨⟨b, rest1⟩, hb, h⟩ := Option.bind_eq_some_iff.mp h
  obtain ⟨count, -, h⟩ := Option.bind_eq_some_iff.mp h
  obtain ⟨⟨bytes, rest2⟩, hbytes, h⟩ := Option.bind_eq_some_iff.mp h
  obtain ⟨m, -, heq⟩ := Option.map_eq_some_iff.mp h
  cases heq
  exact Nat.lt_of_le_of_lt (readOctets_shorter hbytes) (readOctet_shorter hb)

/-- `none`: a `URIError` -/
def decodeURIComponent : JsString → Option JsString
  | [] => some []
  | c :: s =>
    if c = 0x25 then
      match _h : readEscapes (c :: s) with
      | some (n, rest) => (decodeURIComponent rest).map (unitsOf n ++ ·)
      | none => none
    else (decodeURIComponent s).map (c :: ·)
termination_by s => s.length
decreasing_by
  · exact readEscapes_shorter _h
  · simp

theorem decode_plain {c : CodeUnit} (h : c ≠ 0x25) (s : JsString) :
    decodeURIComponent (c :: s) = (decodeURIComponent s).map (c :: ·) := by
  rw [decodeURIComponent, if_neg h]

theorem decode_escapes {s rest : JsString} {n : Nat} (h : readEscapes s = some (n, rest)) :
    decodeURIComponent s = (decodeURIComponent rest).map (unitsOf n ++ ·) := by
  cases s with
  | nil => cases h
  | cons c s =>
    have hc : c = 0x25 := by
      unfold readEscapes readOctet at h
      split at h
      · rename_i heq
        exact (List.cons.inj heq).1
      · cases h
    rw [decodeURIComponent, if_pos hc]
    split
    · rename_i m rest' hm
      rw [h] at hm
      cases hm
      rfl
    · rename_i hm
      rw [h] at hm
      cases hm

/-! ## The round trip -/

theorem hexDigitValue_upperHex {n : Nat} (h : n < 16) : hexDigitValue (upperHex n) = some n := by
  have hall : ∀ m : Fin 16, hexDigitValue (upperHex m) = some m.val := by decide
  exact hall ⟨n, h⟩

theorem readOctet_percentByte (b : UInt8) (rest : JsString) :
    readOctet (percentByte b ++ rest) = some (b, rest) := by
  have hb := b.toNat_lt
  have hvalue : b.toNat / 16 * 16 + b.toNat % 16 = b.toNat := by omega
  simp only [percentByte, List.cons_append, List.nil_append, readOctet,
    hexDigitValue_upperHex (n := b.toNat / 16) (by omega),
    hexDigitValue_upperHex (n := b.toNat % 16) (by omega), hvalue, UInt8.ofNat_toNat]

theorem percentBytes_cons (b : UInt8) (bytes : List UInt8) (rest : JsString) :
    percentBytes (b :: bytes) ++ rest = percentByte b ++ (percentBytes bytes ++ rest) := by
  simp [percentBytes]

theorem readOctets_percentBytes (bytes : List UInt8) (rest : JsString) :
    readOctets bytes.length (percentBytes bytes ++ rest) = some (bytes, rest) := by
  induction bytes with
  | nil => rfl
  | cons b bytes ih =>
    rw [percentBytes_cons, List.length_cons, readOctets, readOctet_percentByte]
    simp only [Option.bind_some, ih, Option.map_some]

/-- The first octet says how many follow. -/
theorem continuations_utf8Scalar {n : Nat} (h : n < 0x110000) :
    ∃ b bytes, utf8Scalar n = b :: bytes ∧ continuations b = some bytes.length := by
  unfold utf8Scalar
  split_ifs
  · refine ⟨_, _, rfl, ?_⟩
    rw [continuations, UInt8.toNat_ofNat', if_pos (by omega)]
    rfl
  · refine ⟨_, _, rfl, ?_⟩
    rw [continuations, UInt8.toNat_ofNat', if_neg (by omega), if_neg (by omega), if_pos (by omega)]
    rfl
  · refine ⟨_, _, rfl, ?_⟩
    rw [continuations, UInt8.toNat_ofNat', if_neg (by omega), if_neg (by omega), if_neg (by omega),
      if_pos (by omega)]
    rfl
  · refine ⟨_, _, rfl, ?_⟩
    rw [continuations, UInt8.toNat_ofNat', if_neg (by omega), if_neg (by omega), if_neg (by omega),
      if_neg (by omega), if_pos (by omega)]
    rfl

theorem scalarOf_utf8Scalar {n : Nat} (h : isScalarValue n = true) :
    scalarOf (utf8Scalar n) = some n := by
  have hn := (isScalarValue_iff.mp h).1
  have hread := readScalar_utf8Scalar hn []
  rw [List.append_nil] at hread
  simp [scalarOf, hread, h]

theorem readEscapes_percentBytes {n : Nat} (h : isScalarValue n = true) (rest : JsString) :
    readEscapes (percentBytes (utf8Scalar n) ++ rest) = some (n, rest) := by
  have hn := (isScalarValue_iff.mp h).1
  obtain ⟨b, bytes, hbytes, hcount⟩ := continuations_utf8Scalar hn
  have hscalar : scalarOf (b :: bytes) = some n := by
    rw [← hbytes]
    exact scalarOf_utf8Scalar h
  rw [hbytes, percentBytes_cons, readEscapes, readOctet_percentByte]
  simp only [Option.bind_some, hcount, readOctets_percentBytes, hscalar, Option.map_some]

theorem decode_percentBytes {n : Nat} (h : isScalarValue n = true) (rest : JsString) :
    decodeURIComponent (percentBytes (utf8Scalar n) ++ rest) =
      (decodeURIComponent rest).map (unitsOf n ++ ·) :=
  decode_escapes (readEscapes_percentBytes h rest)

theorem isScalarValue_pairPoint {c d : CodeUnit} (hc : isLeadingSurrogate c = true)
    (hd : isTrailingSurrogate d = true) : isScalarValue (pairPoint c d) = true := by
  have hclo := leading_bounds hc
  have hdlo := trailing_bounds hd
  refine isScalarValue_iff.mpr ⟨?_, .inr ?_⟩ <;> unfold pairPoint <;> omega

theorem isScalarValue_unit {c : CodeUnit} (hlead : isLeadingSurrogate c = false)
    (htrail : isTrailingSurrogate c = false) : isScalarValue c.toNat = true := by
  have := c.toNat_lt
  simp only [isLeadingSurrogate, isTrailingSurrogate, UInt16.le_iff_toNat_le, Bool.and_eq_false_iff,
    decide_eq_false_iff_not, UInt16.reduceToNat] at hlead htrail
  rw [isScalarValue_iff]
  omega

theorem percentUnit_unreserved {c : CodeUnit} (h : isUnreserved c = true) :
    percentUnit copyUnreserved c = [c] := by
  rw [percentUnit, copyUnreserved, if_pos h]

theorem percentUnit_reserved {c : CodeUnit} (h : isUnreserved c = false) :
    percentUnit copyUnreserved c = percentBytes (utf8Scalar (unitPoint c)) := by
  rw [percentUnit, copyUnreserved, if_neg (Bool.eq_false_iff.mp h)]

theorem decode_percentUnit {c : CodeUnit} (hlead : isLeadingSurrogate c = false)
    (htrail : isTrailingSurrogate c = false) (rest : JsString) :
    decodeURIComponent (percentUnit copyUnreserved c ++ rest) =
      (decodeURIComponent rest).map (c :: ·) := by
  have hlt := c.toNat_lt
  cases h : isUnreserved c with
  | true =>
    have hc : c ≠ 0x25 := by
      rintro rfl
      exact absurd h (by decide)
    rw [percentUnit_unreserved h]
    exact decode_plain hc rest
  | false =>
    have hpoint : unitPoint c = c.toNat := by simp [unitPoint, hlead, htrail]
    have hunits : unitsOf c.toNat = [c] := by
      rw [unitsOf, if_pos (by omega), UInt16.ofNat_toNat]
    rw [percentUnit_reserved h, hpoint, decode_percentBytes (isScalarValue_unit hlead htrail),
      hunits]
    rfl

/-- What the client encodes, the server decodes. -/
theorem decode_percentEncode {s : JsString} (h : isWellFormed s = true) :
    decodeURIComponent (percentEncode copyUnreserved s) = some s := by
  induction s using isWellFormed.induct with
  | case1 => rw [percentEncode, decodeURIComponent]
  | case2 c =>
    simp only [isWellFormed, Bool.and_eq_true, Bool.not_eq_true'] at h
    have hc := decode_percentUnit h.1 h.2 []
    rwa [List.append_nil, decodeURIComponent, Option.map_some] at hc
  | case3 c d rest hc ih =>
    simp only [isWellFormed, hc, if_true, Bool.and_eq_true] at h
    rw [percentEncode, hc, h.1, Bool.and_self, if_pos rfl,
      decode_percentBytes (isScalarValue_pairPoint hc h.1), ih h.2, unitsOf_pair hc h.1]
    rfl
  | case4 c d rest hc ih =>
    simp only [isWellFormed, hc, Bool.false_eq_true, if_false, Bool.and_eq_true,
      Bool.not_eq_true'] at h
    have hlead := Bool.eq_false_iff.mpr hc
    rw [percentEncode, hlead, Bool.false_and, if_neg Bool.false_ne_true,
      decode_percentUnit hlead h.1, ih h.2]
    rfl

/-! ## What an encoding consists of -/

/-- A character that stays the same wherever a URL is parsed. -/
def isPercentOrUnreserved (c : CodeUnit) : Bool := c == 0x25 || isUnreserved c

theorem upperHex_unreserved {n : Nat} (h : n < 16) : isUnreserved (upperHex n) = true := by
  have hall : ∀ m : Fin 16, isAsciiAlphanumeric (upperHex m) = true := by decide
  rw [isUnreserved, hall ⟨n, h⟩, Bool.true_or]

theorem percentBytes_chars {bytes : List UInt8} {c : CodeUnit} (h : c ∈ percentBytes bytes) :
    isPercentOrUnreserved c = true := by
  obtain ⟨b, -, hc⟩ := List.mem_flatMap.mp h
  have hb := b.toNat_lt
  simp only [percentByte, List.mem_cons, List.not_mem_nil, or_false] at hc
  obtain rfl | rfl | rfl := hc
  · rfl
  · simp [isPercentOrUnreserved, upperHex_unreserved (n := b.toNat / 16) (by omega)]
  · simp [isPercentOrUnreserved, upperHex_unreserved (n := b.toNat % 16) (by omega)]

theorem percentUnit_chars {c d : CodeUnit} (h : d ∈ percentUnit copyUnreserved c) :
    isPercentOrUnreserved d = true := by
  cases hc : isUnreserved c with
  | true =>
    rw [percentUnit_unreserved hc, List.mem_singleton] at h
    simp [h, isPercentOrUnreserved, hc]
  | false =>
    rw [percentUnit_reserved hc] at h
    exact percentBytes_chars h

theorem percentEncode_chars {s : JsString} {c : CodeUnit} (h : c ∈ percentEncode copyUnreserved s) :
    isPercentOrUnreserved c = true := by
  induction s using percentEncode.induct with
  | case1 => cases h
  | case2 d => exact percentUnit_chars h
  | case3 a b rest hab ih =>
    rw [percentEncode, if_pos hab, List.mem_append] at h
    exact h.elim percentBytes_chars ih
  | case4 a b rest hab ih =>
    rw [percentEncode, if_neg hab, List.mem_append] at h
    exact h.elim percentUnit_chars ih

end NewsApi.Text
