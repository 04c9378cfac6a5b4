import Mathlib.Data.List.TakeWhile
import NewsApi.Text.JsonText
import NewsApi.Utils.Doubles

/-! # The text of a number

`String(n)` has four layouts. Each is a literal of JSON with the value of its
digits, so the text of a double reads back as that double. -/
namespace NewsApi.Utils
open NewsApi.Text NewsApi.Types NewsApi.Http NewsApi.JsonText

/-! ## Values of digits -/

theorem digitsValue_append (s t : JsString) :
    digitsValue (s ++ t) = digitsValue s * 10 ^ t.length + digitsValue t := by
  induction t using List.reverseRecOn with
  | nil => simp [digitsValue]
  | append_singleton t c ih =>
    simp only [digitsValue, ← List.append_assoc, List.foldl_append, List.foldl_cons,
      List.foldl_nil, List.length_append, List.length_singleton] at ih ⊢
    rw [ih, pow_succ]
    ring

theorem digitsValue_zeros (n : Nat) : digitsValue (List.replicate n 0x30) = 0 := by
  induction n with
  | zero => rfl
  | succ n ih => rw [List.replicate_succ', digitsValue_append, ih]; rfl

theorem digitsValue_lt {s : JsString} (h : ∀ c ∈ s, isDigit c = true) :
    digitsValue s < 10 ^ s.length := by
  induction s using List.reverseRecOn with
  | nil => decide
  | append_singleton s c ih =>
    have hs := ih fun d hd => h d (List.mem_append_left _ hd)
    have hc := h c (List.mem_append_right _ List.mem_cons_self)
    simp only [isDigit, Bool.and_eq_true, decide_eq_true_eq, UInt16.le_iff_toNat_le] at hc
    have hc57 : c.toNat ≤ 57 := hc.2
    have hvalue : digitsValue [c] = c.toNat - 0x30 := by simp [digitsValue]
    rw [digitsValue_append, hvalue, List.length_append, List.length_singleton, pow_succ]
    omega

/-- The digits of a number are not those of a smaller one behind a zero. -/
theorem decimal_head {n : Nat} (hn : n ≠ 0) : (decimal n).head? ≠ some 0x30 := by
  intro hhead
  obtain ⟨rest, hrest⟩ := List.head?_eq_some_iff.mp hhead
  have hlow := (digitCount_bounds hn).1
  have hdigits : ∀ c ∈ rest, isDigit c = true := fun c hc =>
    decimal_digits (n := n) (by rw [hrest]; exact List.mem_cons_of_mem _ hc)
  have hvalue : digitsValue rest = n := by
    have := digitsValue_decimal n
    rwa [hrest, ← List.singleton_append, digitsValue_append, show digitsValue [0x30] = 0 from rfl,
      Nat.zero_mul, Nat.zero_add] at this
  have hlt := digitsValue_lt hdigits
  have hexponent : ((decimal n).length : Int) - 1 = (rest.length : Int) := by
    rw [hrest, List.length_cons]
    omega
  rw [hexponent, zpow_natCast] at hlow
  have : 10 ^ rest.length ≤ n := by exact_mod_cast hlow
  omega

/-! ## Literals -/

/-- A literal from its parts: digits, digits behind a point and an exponent. -/
def literal (whole fraction exponent : JsString) : JsString :=
  whole ++ (if fraction = [] then exponent else 0x2E :: (fraction ++ exponent))

/-- The parts of a literal of JSON. -/
structure LiteralParts (whole fraction exponent : JsString) (scale : Int) : Prop where
  whole_digits : ∀ c ∈ whole, isDigit c = true
  leading : whole = [0x30] ∨ whole ≠ [] ∧ whole.head? ≠ some 0x30
  fraction_digits : ∀ c ∈ fraction, isDigit c = true
  exponent_value : exponentOf exponent = some scale

/-- What follows the digits is not one of them. -/
def EndsDigits (rest : JsString) : Prop := ∀ c, rest.head? = some c → isDigit c = false

theorem takeWhile_digits {digits rest : JsString} (h : ∀ c ∈ digits, isDigit c = true)
    (hrest : EndsDigits rest) : (digits ++ rest).takeWhile isDigit = digits ∧
      (digits ++ rest).dropWhile isDigit = rest := by
  rw [List.takeWhile_append_of_pos h, List.dropWhile_append_of_pos h]
  cases rest with
  | nil => exact ⟨List.append_nil _, rfl⟩
  | cons c rest =>
    have hc := hrest c rfl
    simp [hc]

/-- An exponent begins with its letter. -/
theorem exponentOf_head {s : JsString} {scale : Int} (h : exponentOf s = some scale) {c : CodeUnit}
    (hc : s.head? = some c) : c = 0x65 ∨ c = 0x45 := by
  obtain ⟨rest, rfl⟩ := List.head?_eq_some_iff.mp hc
  unfold exponentOf at h
  split at h
  · cases ‹_ :: _ = []›
  · rename_i hcons
    obtain ⟨rfl, rfl⟩ := List.cons.inj hcons
    split at h
    · rename_i hletter
      simpa using hletter
    · cases h

theorem exponentOf_endsDigits {s : JsString} {scale : Int} (h : exponentOf s = some scale) :
    EndsDigits s := by
  intro c hc
  rcases exponentOf_head h hc with rfl | rfl <;> decide

theorem exponentOf_noPoint {s : JsString} {scale : Int} (h : exponentOf s = some scale)
    (rest : JsString) : s ≠ 0x2E :: rest := by
  rintro rfl
  rcases exponentOf_head h rfl with hc | hc <;> revert hc <;> decide

theorem tail_endsDigits {whole fraction exponent : JsString} {scale : Int}
    (h : LiteralParts whole fraction exponent scale) :
    EndsDigits (if fraction = [] then exponent else 0x2E :: (fraction ++ exponent)) := by
  split
  · exact exponentOf_endsDigits h.exponent_value
  · intro c hc
    cases hc
    decide

theorem LiteralParts.whole_ne_nil {whole fraction exponent : JsString} {scale : Int}
    (h : LiteralParts whole fraction exponent scale) : whole ≠ [] := by
  rcases h.leading with hzero | ⟨hne, -⟩
  · rw [hzero]
    exact List.cons_ne_nil _ _
  · exact hne

theorem unsignedNumber_literal {whole fraction exponent : JsString} {scale : Int}
    (h : LiteralParts whole fraction exponent scale) :
    unsignedNumber (literal whole fraction exponent) =
      some ((digitsValue (whole ++ fraction) : Rat) * power 10 (scale - fraction.length)) := by
  obtain ⟨htake, hdrop⟩ := takeWhile_digits h.whole_digits (tail_endsDigits h)
  have hwhole : whole.isEmpty = false := List.isEmpty_eq_false_iff.mpr h.whole_ne_nil
  simp only [unsignedNumber, literal, htake, hdrop]
  split
  · rename_i rest hpoint
    split at hpoint
    · exact absurd hpoint (exponentOf_noPoint h.exponent_value _)
    · cases hpoint
      obtain ⟨hfraction, hexponent⟩ :=
        takeWhile_digits h.fraction_digits (exponentOf_endsDigits h.exponent_value)
      simp [hwhole, hfraction, hexponent, h.exponent_value]
  · rename_i hpoint
    split at hpoint
    · rename_i hnil
      subst hnil
      simp [hwhole, h.exponent_value]
    · exact absurd rfl (hpoint _)

theorem isUnsigned_literal {whole fraction exponent : JsString} {scale : Int}
    (h : LiteralParts whole fraction exponent scale) :
    isUnsigned (literal whole fraction exponent) = true := by
  obtain ⟨htake, hdrop⟩ := takeWhile_digits h.whole_digits (tail_endsDigits h)
  have htail : isFractionAndExponent
      (if fraction = [] then exponent else 0x2E :: (fraction ++ exponent)) = true := by
    split
    · rw [isFractionAndExponent]
      · rw [h.exponent_value]
        rfl
      · exact fun rest hpoint => exponentOf_noPoint h.exponent_value rest hpoint
    · rename_i hne
      obtain ⟨hfraction, hexponent⟩ :=
        takeWhile_digits h.fraction_digits (exponentOf_endsDigits h.exponent_value)
      simp [isFractionAndExponent, hfraction, hexponent, h.exponent_value, hne]
  simp only [isUnsigned, literal, htake, hdrop, htail, Bool.and_true]
  rcases h.leading with hzero | ⟨hne, hhead⟩
  · simp [hzero]
  · simp [hne, hhead]

/-! ## Reading literals -/

/-- What literals are written with. -/
def isNumberUnit (c : CodeUnit) : Bool := isDigit c || (js ".eE+-").contains c

theorem digit_bounds {c : CodeUnit} (h : isDigit c = true) : 0x30 ≤ c.toNat ∧ c.toNat ≤ 0x39 := by
  simpa [isDigit, UInt16.le_iff_toNat_le] using h

theorem isNumberUnit_lt {c : CodeUnit} (h : isNumberUnit c = true) : c.toNat < 0x66 := by
  rcases Bool.or_eq_true_iff.mp h with hdigit | hother
  · have := digit_bounds hdigit
    omega
  · have hmem : c = 0x2E ∨ c = 0x65 ∨ c = 0x45 ∨ c = 0x2B ∨ c = 0x2D := by
      simpa [js] using hother
    rcases hmem with rfl | rfl | rfl | rfl | rfl <;> decide

theorem isDigit_numberUnit {c : CodeUnit} (h : isDigit c = true) : isNumberUnit c = true := by
  rw [isNumberUnit, h, Bool.true_or]

theorem exponentOf_units {s : JsString} {scale : Int} (h : exponentOf s = some scale) :
    ∀ c ∈ s, isNumberUnit c = true := by
  have hdigits : ∀ {digits : JsString}, isDigits digits = true →
      ∀ c ∈ digits, isNumberUnit c = true := by
    intro digits hall c hc
    simp only [isDigits, Bool.and_eq_true, List.all_eq_true] at hall
    exact isDigit_numberUnit (hall.2 c hc)
  unfold exponentOf at h
  split at h
  · exact List.forall_mem_nil _
  · rename_i e rest
    split at h
    · rename_i hletter
      have he : isNumberUnit e = true := by
        rcases (by simpa using hletter : e = 0x65 ∨ e = 0x45) with rfl | rfl <;> decide
      refine List.forall_mem_cons.mpr ⟨he, ?_⟩
      split at h
      · split at h
        · exact List.forall_mem_cons.mpr ⟨by decide, hdigits ‹_›⟩
        · cases h
      · split at h
        · exact List.forall_mem_cons.mpr ⟨by decide, hdigits ‹_›⟩
        · cases h
      · split at h
        · exact hdigits ‹_›
        · cases h
    · cases h

theorem literal_units {whole fraction exponent : JsString} {scale : Int}
    (h : LiteralParts whole fraction exponent scale) :
    ∀ c ∈ literal whole fraction exponent, isNumberUnit c = true := by
  have hexponent := exponentOf_units h.exponent_value
  refine List.forall_mem_append.mpr
    ⟨fun c hc => isDigit_numberUnit (h.whole_digits c hc), ?_⟩
  split
  · exact hexponent
  · exact List.forall_mem_cons.mpr ⟨by decide, List.forall_mem_append.mpr
      ⟨fun c hc => isDigit_numberUnit (h.fraction_digits c hc), hexponent⟩⟩

theorem isNumberUnit_plain {c : CodeUnit} (h : isNumberUnit c = true) :
    isWhitespace c = false ∧ isWordEnd c = false := by
  have hsmall : ∀ n : Fin 0x66, isNumberUnit (UInt16.ofNat n) = true →
      isWhitespace (UInt16.ofNat n) = false ∧ isWordEnd (UInt16.ofNat n) = false := by decide
  have hplain := hsmall ⟨c.toNat, isNumberUnit_lt h⟩
  rw [UInt16.ofNat_toNat] at hplain
  exact hplain h

theorem trim_units {s : JsString} (h : ∀ c ∈ s, isNumberUnit c = true) : trim s = s := by
  have hhead : ∀ t : JsString, (∀ c ∈ t, isNumberUnit c = true) →
      t.dropWhile isWhitespace = t := by
    intro t ht
    cases t with
    | nil => rfl
    | cons c rest =>
      have hplain := (isNumberUnit_plain (ht c List.mem_cons_self)).1
      rw [List.dropWhile_cons_of_neg (by simp [hplain])]
  rw [trim, hhead s h, hhead s.reverse fun c hc => h c (List.mem_reverse.mp hc),
    List.reverse_reverse]

/-- The digits of a literal and the power of ten that they count. -/
def literalNumber (whole fraction : JsString) (scale : Int) : Rat :=
  digitsValue (whole ++ fraction) * power 10 (scale - fraction.length)

theorem decimalNumber_literal {whole fraction exponent : JsString} {scale : Int}
    (h : LiteralParts whole fraction exponent scale) (negative : Bool) :
    decimalNumber negative (literal whole fraction exponent) =
      toDouble (if negative then -literalNumber whole fraction scale
        else literalNumber whole fraction scale) := by
  obtain ⟨c, rest, hcons⟩ := List.exists_cons_of_ne_nil h.whole_ne_nil
  have hname : literal whole fraction exponent ≠ js "Infinity" := by
    intro hinfinity
    have hc := h.whole_digits c (by rw [hcons]; exact List.mem_cons_self)
    rw [literal, hcons, List.cons_append] at hinfinity
    rw [(List.cons.inj hinfinity).1] at hc
    revert hc
    decide
  rw [decimalNumber, if_neg hname, unsignedNumber_literal h]
  rfl

/-- Behind a leading zero stands a point, an exponent or nothing. -/
theorem literal_second {whole fraction exponent rest : JsString} {scale : Int} {c : CodeUnit}
    (h : LiteralParts whole fraction exponent scale)
    (hsecond : literal whole fraction exponent = 0x30 :: c :: rest) :
    c = 0x2E ∨ c = 0x65 ∨ c = 0x45 := by
  rcases h.leading with hzero | ⟨hne, hhead⟩
  · rw [literal, hzero] at hsecond
    have htail := (List.cons.inj hsecond).2
    simp only [List.append_eq, List.nil_append] at htail
    split at htail
    · exact .inr (exponentOf_head h.exponent_value (by rw [htail]; rfl))
    · exact .inl (List.cons.inj htail).1.symm
  · obtain ⟨d, tail, hcons⟩ := List.exists_cons_of_ne_nil hne
    rw [literal, hcons, List.cons_append] at hsecond
    rw [hcons, (List.cons.inj hsecond).1] at hhead
    exact absurd rfl hhead

theorem literal_head {whole fraction exponent rest : JsString} {scale : Int} {c : CodeUnit}
    (h : LiteralParts whole fraction exponent scale)
    (hcons : literal whole fraction exponent = c :: rest) : isDigit c = true := by
  obtain ⟨d, tail, hwhole⟩ := List.exists_cons_of_ne_nil h.whole_ne_nil
  rw [literal, hwhole, List.cons_append] at hcons
  rw [← (List.cons.inj hcons).1]
  exact h.whole_digits d (by rw [hwhole]; exact List.mem_cons_self)

theorem numberOfString_literal {whole fraction exponent : JsString} {scale : Int}
    (h : LiteralParts whole fraction exponent scale) :
    numberOfString (literal whole fraction exponent) =
      toDouble (literalNumber whole fraction scale) := by
  have hradix : ∀ {c : CodeUnit} {rest : JsString},
      literal whole fraction exponent = 0x30 :: c :: rest → c ≠ 0x2E → c ≠ 0x65 → c ≠ 0x45 →
      False := by
    intro c rest hsecond hpoint hlower hupper
    rcases literal_second h hsecond with hc | hc | hc
    · exact hpoint hc
    · exact hlower hc
    · exact hupper hc
  have hsign : ∀ {c : CodeUnit} {rest : JsString},
      literal whole fraction exponent = c :: rest → isDigit c = false → False := by
    intro c rest hcons hc
    rw [literal_head h hcons] at hc
    cases hc
  rw [numberOfString, trim_units (literal_units h)]
  split
  · rename_i hnil
    exact absurd (List.append_eq_nil_iff.mp hnil).1 h.whole_ne_nil
  · exact absurd ‹_› fun hcons => hradix hcons (by decide) (by decide) (by decide)
  · exact absurd ‹_› fun hcons => hradix hcons (by decide) (by decide) (by decide)
  · exact absurd ‹_› fun hcons => hradix hcons (by decide) (by decide) (by decide)
  · exact absurd ‹_› fun hcons => hradix hcons (by decide) (by decide) (by decide)
  · exact absurd ‹_› fun hcons => hradix hcons (by decide) (by decide) (by decide)
  · exact absurd ‹_› fun hcons => hradix hcons (by decide) (by decide) (by decide)
  · exact absurd ‹_› fun hcons => hsign hcons (by decide)
  · exact absurd ‹_› fun hcons => hsign hcons (by decide)
  · exact decimalNumber_literal h false

theorem numberOfString_minus {whole fraction exponent : JsString} {scale : Int}
    (h : LiteralParts whole fraction exponent scale) :
    numberOfString (0x2D :: literal whole fraction exponent) =
      toDouble (-literalNumber whole fraction scale) := by
  have hunits : ∀ c ∈ (0x2D :: literal whole fraction exponent : JsString),
      isNumberUnit c = true := List.forall_mem_cons.mpr ⟨by decide, literal_units h⟩
  rw [numberOfString, trim_units hunits]
  exact decimalNumber_literal h true

theorem isJsonNumber_literal {whole fraction exponent : JsString} {scale : Int}
    (h : LiteralParts whole fraction exponent scale) :
    isJsonNumber (literal whole fraction exponent) = true ∧
      isJsonNumber (0x2D :: literal whole fraction exponent) = true := by
  refine ⟨?_, isUnsigned_literal h⟩
  rw [isJsonNumber]
  · exact isUnsigned_literal h
  · intro rest hcons
    have hminus := literal_head h hcons
    revert hminus
    decide

/-! ## Layouts -/

theorem zeros_length {n : Int} (h : 0 ≤ n) : ((zeros n).length : Int) = n := by
  rw [zeros, List.length_replicate, Int.toNat_of_nonneg h]

theorem zeros_digits {n : Int} : ∀ c ∈ zeros n, isDigit c = true := by
  intro c hc
  rw [List.eq_of_mem_replicate hc]
  decide

theorem exponentOf_signed (negative : Bool) (n : Nat) :
    exponentOf (0x65 :: (if negative then 0x2D else 0x2B) :: decimal n) =
      some (if negative then -(n : Int) else n) := by
  have hdigits : isDigits (decimal n) = true := by
    simp only [isDigits, Bool.and_eq_true, Bool.not_eq_true', List.isEmpty_eq_false_iff,
      List.all_eq_true]
    exact ⟨by simp [decimal, Nat.toDigits_ne_nil], fun c => decimal_digits⟩
  cases negative <;> simp [exponentOf, hdigits, digitsValue_decimal]

/-- The text is a literal of this value. -/
def IsLiteral (text : JsString) (value : Rat) : Prop :=
  ∃ whole fraction exponent scale, LiteralParts whole fraction exponent scale ∧
    text = literal whole fraction exponent ∧ literalNumber whole fraction scale = value

theorem power_add (a b : Int) : power 10 a * power 10 b = power 10 (a + b) := by
  rw [power_eq, power_eq, power_eq, zpow_add₀ (by norm_num)]

theorem natCast_power (n : Nat) : ((10 ^ n : Nat) : Rat) = power 10 n := by
  rw [power_eq, zpow_natCast, Nat.cast_pow]

/-- Zeros before the digits. -/
theorem small_literal {digits : JsString} (hdigits : ∀ c ∈ digits, isDigit c = true)
    (hne : digits ≠ []) {n : Int} (hn : n ≤ 0) :
    IsLiteral (0x30 :: 0x2E :: (zeros (-n) ++ digits))
      (digitsValue digits * power 10 (n - digits.length)) := by
  have hfraction : zeros (-n) ++ digits ≠ [] := by simp [hne]
  refine ⟨[0x30], zeros (-n) ++ digits, [], 0, ⟨List.forall_mem_singleton.mpr rfl, .inl rfl,
    List.forall_mem_append.mpr ⟨zeros_digits, hdigits⟩, rfl⟩, ?_, ?_⟩
  · rw [literal, if_neg hfraction, List.append_nil]
    rfl
  · have hvalue : digitsValue ([0x30] ++ (zeros (-n) ++ digits)) = digitsValue digits := by
      rw [digitsValue_append, digitsValue_append, zeros, digitsValue_zeros,
        show digitsValue [0x30] = 0 from rfl]
      omega
    have hlength := zeros_length (n := -n) (by omega)
    rw [literalNumber, hvalue, List.length_append]
    congr 2
    omega

section
variable {digits : JsString} (hdigits : ∀ c ∈ digits, isDigit c = true) (hne : digits ≠ [])
  (hhead : digits.head? ≠ some 0x30)
include hdigits hne hhead

/-- Digits and zeros. -/
theorem whole_literal {n : Int} (hn : digits.length ≤ n) :
    IsLiteral (digits ++ zeros (n - digits.length))
      (digitsValue digits * power 10 (n - digits.length)) := by
  obtain ⟨c, rest, rfl⟩ := List.exists_cons_of_ne_nil hne
  refine ⟨(c :: rest) ++ zeros (n - (c :: rest).length), [], [], 0,
    ⟨List.forall_mem_append.mpr ⟨hdigits, zeros_digits⟩, .inr ⟨List.cons_ne_nil _ _, hhead⟩,
      nofun, rfl⟩, (List.append_nil _).symm, ?_⟩
  have hvalue : digitsValue ((c :: rest) ++ zeros (n - (c :: rest).length)) =
      digitsValue (c :: rest) * 10 ^ (zeros (n - (c :: rest).length)).length := by
    rw [digitsValue_append, zeros, digitsValue_zeros, Nat.add_zero]
  have hlength := zeros_length (n := n - (c :: rest).length) (by omega)
  rw [literalNumber, List.append_nil, hvalue, Nat.cast_mul, natCast_power, hlength, mul_assoc,
    power_add, List.length_nil]
  congr 2
  omega

/-- A point among the digits. -/
theorem point_literal {n : Int} (hpos : 0 < n) (hn : n < digits.length) :
    IsLiteral (digits.take n.toNat ++ 0x2E :: digits.drop n.toNat)
      (digitsValue digits * power 10 (n - digits.length)) := by
  obtain ⟨k, hk⟩ := Int.eq_ofNat_of_zero_le hpos.le
  subst hk
  rw [Int.toNat_natCast]
  have hdrop : digits.drop k ≠ [] := by
    rw [Ne, List.drop_eq_nil_iff]
    omega
  have htake : digits.take k ≠ [] := by
    rw [Ne, List.take_eq_nil_iff, not_or]
    exact ⟨by omega, hne⟩
  have htakeHead : (digits.take k).head? ≠ some 0x30 := by
    rwa [List.head?_take, if_neg (by omega)]
  refine ⟨digits.take k, digits.drop k, [], 0,
    ⟨fun c hc => hdigits c (List.mem_of_mem_take hc), .inr ⟨htake, htakeHead⟩,
      fun c hc => hdigits c (List.mem_of_mem_drop hc), rfl⟩, ?_, ?_⟩
  · rw [literal, if_neg hdrop, List.append_nil]
  · rw [literalNumber, List.take_append_drop, List.length_drop]
    congr 2
    omega

/-- One digit, a point, the others and an exponent. -/
theorem exponent_literal (n : Int) :
    IsLiteral (digits.take 1 ++ (if 1 < digits.length then 0x2E :: digits.drop 1 else []) ++
        0x65 :: (if 0 < n then 0x2B else 0x2D) :: decimal (n - 1).natAbs)
      (digitsValue digits * power 10 (n - digits.length)) := by
  obtain ⟨c, rest, rfl⟩ := List.exists_cons_of_ne_nil hne
  have hexponent : exponentOf (0x65 :: (if 0 < n then 0x2B else 0x2D) ::
      decimal (n - 1).natAbs) = some (n - 1) := by
    have hsigned := exponentOf_signed (!decide (0 < n)) (n - 1).natAbs
    by_cases hn : 0 < n
    · simp only [hn, decide_true, Bool.not_true, Bool.false_eq_true, if_false, if_true] at hsigned ⊢
      rw [hsigned]
      congr 1
      omega
    · simp only [hn, decide_false, Bool.not_false, if_true, if_false] at hsigned ⊢
      rw [hsigned]
      congr 1
      omega
  refine ⟨[c], rest, _, n - 1, ⟨fun d hd => hdigits d (by simp_all), .inr ⟨by simp, hhead⟩,
    fun d hd => hdigits d (List.mem_cons_of_mem _ hd), hexponent⟩, ?_, ?_⟩
  · rw [literal]
    cases rest with
    | nil => rfl
    | cons d rest => simp
  · rw [literalNumber, List.singleton_append, List.length_cons]
    congr 2
    push_cast
    ring

/-- Each layout is a literal with the value of the digits. -/
theorem layout_literal (n : Int) :
    IsLiteral (layout digits n) (digitsValue digits * power 10 (n - digits.length)) := by
  simp only [layout]
  split
  · rename_i hwhole
    exact whole_literal hdigits hne hhead hwhole.1
  · rename_i hwhole
    split
    · rename_i hpoint
      exact point_literal hdigits hne hhead hpoint.1 (by omega)
    · split
      · rename_i hsmall
        exact small_literal hdigits hne hsmall.2
      · simpa using exponent_literal hdigits hne hhead n

end

/-! ## Numbers -/

/-- A number is its digits up to the last that is not zero, and zeros. -/
theorem decimal_zeros {value : Nat} (hvalue : value ≠ 0) :
    ∃ digits k, ((decimal value).reverse.dropWhile (· == 0x30)).reverse = digits ∧
      decimal value = digits ++ List.replicate k 0x30 ∧ digits ≠ [] := by
  have hsplit := List.takeWhile_append_dropWhile (p := (· == 0x30)) (l := (decimal value).reverse)
  have hzeros := List.eq_replicate_of_mem (a := (0x30 : CodeUnit))
    (l := (decimal value).reverse.takeWhile (· == 0x30))
    fun c hc => by simpa using List.mem_takeWhile_imp hc
  rw [hzeros] at hsplit
  have hdecimal := congrArg List.reverse hsplit
  rw [List.reverse_append, List.reverse_replicate, List.reverse_reverse] at hdecimal
  refine ⟨_, _, rfl, hdecimal.symm, fun hnil => hvalue ?_⟩
  rw [hnil, List.nil_append] at hdecimal
  rw [← digitsValue_decimal value, ← hdecimal, digitsValue_zeros]

/-- The text of the digits of a number has the value of the digits. -/
theorem layout_decimal {value : Nat} (hvalue : value ≠ 0) (exponent : Int) :
    IsLiteral (layout ((decimal value).reverse.dropWhile (· == 0x30)).reverse
      (exponent + (decimal value).length)) (digitsNumber (value, exponent)) := by
  obtain ⟨digits, k, hdigits, hdecimal, hne⟩ := decimal_zeros hvalue
  have hall : ∀ c ∈ digits, isDigit c = true := fun c hc =>
    decimal_digits (n := value) (by rw [hdecimal]; exact List.mem_append_left _ hc)
  have hhead : digits.head? ≠ some 0x30 := by
    have := decimal_head hvalue
    rwa [hdecimal, List.head?_append_of_ne_nil _ hne] at this
  have hliteral := layout_literal hall hne hhead (exponent + (decimal value).length)
  have hnumber : (value : Rat) = digitsValue digits * power 10 k := by
    have := digitsValue_decimal value
    rw [hdecimal, digitsValue_append, digitsValue_zeros, List.length_replicate, Nat.add_zero] at this
    rw [← natCast_power, ← Nat.cast_mul, this]
  have hlength : exponent + (decimal value).length - digits.length = k + exponent := by
    rw [hdecimal, List.length_append, List.length_replicate]
    push_cast
    ring
  rw [hdigits, digitsNumber, hnumber, mul_assoc, power_add, ← hlength]
  exact hliteral

/-- The text of a positive double reads as that double. -/
theorem numberText_pos {q : Rat} (hq : 0 < q) (hdouble : IsDouble q) :
    ∃ value, IsLiteral (numberText q) value ∧ toDouble value = .finite q ∧
      numberText (-q) = 0x2D :: numberText q := by
  obtain ⟨hpos, hreads⟩ := shortestDigits_spec hq hdouble
  have hneg : ¬ q < 0 := not_lt.mpr hq.le
  refine ⟨_, ?_, hreads, ?_⟩
  · simp only [numberText, hq.ne', if_false, hneg]
    exact layout_decimal (Nat.pos_iff_ne_zero.mp hpos) _
  · simp only [numberText, neg_eq_zero, hq.ne', if_false, neg_lt_zero, hq, if_true, neg_neg, hneg]

/-- What a reader of JSON needs of a number's text. -/
structure NumberText (q : Rat) (text : JsString) : Prop where
  number : isJsonNumber text = true
  reads : numberOfString text = .finite q
  units : ∀ c ∈ text, isNumberUnit c = true

/-- **The text of a double reads back as that double.** -/
theorem numberText_spec {q : Rat} (hdouble : IsDouble q) : NumberText q (numberText q) := by
  have hpositive : ∀ {x : Rat}, 0 < x → IsDouble x →
      NumberText x (numberText x) ∧ NumberText (-x) (numberText (-x)) := by
    intro x hx hdoublex
    obtain ⟨value, ⟨whole, fraction, exponent, scale, hparts, htext, hvalue⟩, hreads, hminus⟩ :=
      numberText_pos hx hdoublex
    have hunits := literal_units hparts
    rw [← hvalue] at hreads
    rw [hminus, htext]
    refine ⟨⟨(isJsonNumber_literal hparts).1, ?_, hunits⟩,
      ⟨(isJsonNumber_literal hparts).2, ?_, List.forall_mem_cons.mpr ⟨by decide, hunits⟩⟩⟩
    · rw [numberOfString_literal hparts, hreads]
    · rw [numberOfString_minus hparts, toDouble_neg hreads]
  rcases lt_trichotomy q 0 with hq | rfl | hq
  · have hminus := (hpositive (neg_pos.mpr hq) hdouble.neg).2
    rwa [neg_neg] at hminus
  · exact ⟨by decide, by decide +kernel, List.forall_mem_singleton.mpr rfl⟩
  · exact (hpositive hq hdouble).1

end NewsApi.Utils
