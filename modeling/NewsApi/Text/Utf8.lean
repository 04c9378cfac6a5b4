import NewsApi.Text.Bytes

/-! # Strings that UTF-8 keeps apart

A lone surrogate becomes the replacement character, so only strings without one
are determined by their bytes. -/
namespace NewsApi.Text

/-- Every surrogate is one of a pair. -/
def isWellFormed : JsString → Bool
  | [] => true
  | [c] => !isLeadingSurrogate c && !isTrailingSurrogate c
  | c :: d :: rest =>
    if isLeadingSurrogate c then isTrailingSurrogate d && isWellFormed rest
    else !isTrailingSurrogate c && isWellFormed (d :: rest)

theorem isWellFormed_cons {c : CodeUnit} {s : JsString} (hlead : isLeadingSurrogate c = false)
    (htrail : isTrailingSurrogate c = false) (hs : isWellFormed s = true) :
    isWellFormed (c :: s) = true := by
  cases s with
  | nil => simp [isWellFormed, hlead, htrail]
  | cons d s => simpa [isWellFormed, hlead, htrail] using hs

theorem isWellFormed_append {s t : JsString} (hs : isWellFormed s = true)
    (ht : isWellFormed t = true) : isWellFormed (s ++ t) = true := by
  induction s using isWellFormed.induct with
  | case1 => exact ht
  | case2 c =>
    simp only [isWellFormed, Bool.and_eq_true, Bool.not_eq_true'] at hs
    exact isWellFormed_cons hs.1 hs.2 ht
  | case3 c d rest hc ih =>
    simp only [isWellFormed, hc, if_true, Bool.and_eq_true] at hs
    simp only [List.cons_append, isWellFormed, hc, if_true, Bool.and_eq_true]
    exact ⟨hs.1, ih hs.2⟩
  | case4 c d rest hc ih =>
    simp only [isWellFormed, hc, Bool.false_eq_true, if_false, Bool.and_eq_true,
      Bool.not_eq_true'] at hs
    rw [List.cons_append]
    exact isWellFormed_cons (Bool.eq_false_iff.mpr hc) hs.1 (ih hs.2)

/-- Characters outside the surrogates. -/
theorem isWellFormed_plain {s : JsString}
    (h : ∀ c ∈ s, isLeadingSurrogate c = false ∧ isTrailingSurrogate c = false) :
    isWellFormed s = true := by
  induction s with
  | nil => rfl
  | cons c s ih =>
    obtain ⟨hlead, htrail⟩ := h c List.mem_cons_self
    exact isWellFormed_cons hlead htrail (ih fun d hd => h d (List.mem_cons_of_mem c hd))

/-! ## Code points -/

/-- Read one code point back. -/
def readScalar : List UInt8 → Option (Nat × List UInt8)
  | [] => none
  | a :: rest =>
    let n := a.toNat
    if n < 0x80 then some (n, rest)
    else
      match rest with
      | [] => none
      | b :: rest =>
        let n := n % 64 * 64 + b.toNat % 64
        if a.toNat < 0xE0 then some (n % 2048, rest)
        else
          match rest with
          | [] => none
          | c :: rest =>
            let n := n % 2048 * 64 + c.toNat % 64
            if a.toNat < 0xF0 then some (n % 65536, rest)
            else rest.head?.map fun d => (n % 32768 * 64 + d.toNat % 64, rest.tail)

theorem readScalar_utf8Scalar {n : Nat} (h : n < 0x110000) (rest : List UInt8) :
    readScalar (utf8Scalar n ++ rest) = some (n, rest) := by
  unfold utf8Scalar
  split
  · simp only [List.cons_append, List.nil_append, readScalar, UInt8.toNat_ofNat']
    rw [if_pos (by omega)]
    congr 2
    omega
  · split
    · simp only [List.cons_append, List.nil_append, readScalar, UInt8.toNat_ofNat']
      rw [if_neg (by omega), if_pos (by omega)]
      congr 2
      omega
    · split
      · simp only [List.cons_append, List.nil_append, readScalar, UInt8.toNat_ofNat']
        rw [if_neg (by omega), if_neg (by omega), if_pos (by omega)]
        congr 2
        omega
      · simp only [List.cons_append, List.nil_append, readScalar, UInt8.toNat_ofNat',
          List.head?_cons, List.tail_cons, Option.map_some]
        rw [if_neg (by omega), if_neg (by omega), if_neg (by omega)]
        congr 2
        omega

theorem leading_bounds {c : CodeUnit} (h : isLeadingSurrogate c = true) :
    0xD800 ≤ c.toNat ∧ c.toNat ≤ 0xDBFF := by
  simpa [isLeadingSurrogate, UInt16.le_iff_toNat_le] using h

theorem trailing_bounds {c : CodeUnit} (h : isTrailingSurrogate c = true) :
    0xDC00 ≤ c.toNat ∧ c.toNat ≤ 0xDFFF := by
  simpa [isTrailingSurrogate, UInt16.le_iff_toNat_le] using h

/-- The code units of a code point. -/
def unitsOf (n : Nat) : JsString :=
  if n < 0x10000 then [UInt16.ofNat n]
  else [UInt16.ofNat (0xD800 + (n - 0x10000) / 0x400), UInt16.ofNat (0xDC00 + (n - 0x10000) % 0x400)]

theorem unitsOf_pair {c d : CodeUnit} (hc : isLeadingSurrogate c = true)
    (hd : isTrailingSurrogate d = true) : unitsOf (pairPoint c d) = [c, d] := by
  have := leading_bounds hc
  have := trailing_bounds hd
  have hunit : ∀ {c : CodeUnit} {n : Nat}, n = c.toNat → UInt16.ofNat n = c := by
    rintro c _ rfl
    exact UInt16.ofNat_toNat
  rw [unitsOf, if_neg (by unfold pairPoint; omega), hunit (c := c) (by unfold pairPoint; omega),
    hunit (c := d) (by unfold pairPoint; omega)]

end NewsApi.Text
