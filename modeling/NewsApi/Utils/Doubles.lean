import Mathlib.Algebra.Order.Field.Power
import Mathlib.Data.Rat.Floor
import NewsApi.Http.Stringify
import NewsApi.Numbers.Grid

/-! # Doubles and their digits

The numbers of the runtime have 53 bits and no exponent below -1074. Written
with 17 digits, and so with the fewest that read back, each of them reads back. -/
namespace NewsApi.Utils
open NewsApi.Text NewsApi.Types NewsApi.Http NewsApi.Numbers

/-- A finite number of the runtime. -/
def IsDouble (q : Rat) : Prop := toDouble q = .finite q

instance (q : Rat) : Decidable (IsDouble q) := inferInstanceAs (Decidable (_ = _))

theorem power_eq (base : Nat) (exponent : Int) : power base exponent = (base : Rat) ^ exponent := by
  unfold power
  split
  · rename_i h
    obtain ⟨n, rfl⟩ := Int.eq_ofNat_of_zero_le h
    push_cast
    rw [Int.toNat_natCast, zpow_natCast]
  · rename_i h
    obtain ⟨n, hn⟩ := Int.exists_eq_neg_ofNat (Int.le_of_lt (Int.not_le.mp h))
    push_cast
    rw [hn, neg_neg, Int.toNat_natCast, zpow_neg, zpow_natCast, one_div]

/-! ## Rounding -/

theorem nearestInt_cases (q : Rat) : nearestInt q = ⌊q⌋ ∧ q - ⌊q⌋ ≤ 1 / 2 ∨
    nearestInt q = ⌊q⌋ + 1 ∧ 1 / 2 ≤ q - ⌊q⌋ := by
  have hfloor : q.floor = ⌊q⌋ := rfl
  simp only [nearestInt, hfloor]
  split
  · rename_i h
    exact .inl ⟨rfl, h.le⟩
  · rename_i h
    have hhalf : 1 / 2 ≤ q - ⌊q⌋ := not_lt.mp h
    split
    · exact .inr ⟨rfl, hhalf⟩
    · rename_i htie
      split
      · exact .inl ⟨rfl, not_lt.mp htie⟩
      · exact .inr ⟨rfl, hhalf⟩

theorem abs_sub_nearestInt (q : Rat) : |q - nearestInt q| ≤ 1 / 2 := by
  have hlow := Int.floor_le q
  have hhigh := Int.lt_floor_add_one q
  rw [abs_le]
  rcases nearestInt_cases q with ⟨h, hdist⟩ | ⟨h, hdist⟩
  · rw [h]
    exact ⟨by linarith, hdist⟩
  · rw [h]
    push_cast
    exact ⟨by linarith, by linarith⟩

/-- An integer less than a half away is the nearest one. -/
theorem nearestInt_eq {q : Rat} {m : Int} (h : |q - m| < 1 / 2) : nearestInt q = m := by
  have hdist := abs_sub_nearestInt q
  have hone : |((nearestInt q : Rat) - m)| < 1 := by
    calc |(nearestInt q : Rat) - m| = |(q - m) - (q - nearestInt q)| := by congr 1; ring
      _ ≤ |q - m| + |q - nearestInt q| := abs_sub _ _
      _ < 1 := by linarith
  have hint : |nearestInt q - m| < 1 := by exact_mod_cast hone
  have := Int.abs_lt_one_iff.mp hint
  omega

/-! ## Logarithms -/

/-- Bounds on the two parts of a fraction bound the fraction. -/
theorem log_guess {b : Nat} (hb : 1 < b) {q : Rat} (hq : 0 < q) {i j : Int}
    (hnum : (b : Rat) ^ i ≤ q.num ∧ (q.num : Rat) < (b : Rat) ^ (i + 1))
    (hden : (b : Rat) ^ j ≤ q.den ∧ (q.den : Rat) < (b : Rat) ^ (j + 1)) :
    (if (b : Rat) ^ (i - j) ≤ q then i - j else i - j - 1) = Int.log b q := by
  have hbpos : (0 : Rat) < b := by exact_mod_cast (by omega : 0 < b)
  have hdenpos : (0 : Rat) < q.den := by exact_mod_cast q.den_pos
  have hmul : q * q.den = q.num := Rat.mul_den_eq_num q
  symm
  split
  · rename_i h
    refine log_eq_of_bounds hb hq h ?_
    refine lt_of_mul_lt_mul_right ?_ hdenpos.le
    calc q * q.den = q.num := hmul
      _ < (b : Rat) ^ (i + 1) := hnum.2
      _ = (b : Rat) ^ (i - j + 1) * (b : Rat) ^ j := by
        rw [← zpow_add₀ hbpos.ne']
        congr 1
        ring
      _ ≤ (b : Rat) ^ (i - j + 1) * q.den := by
        gcongr
        exact hden.1
  · rename_i h
    refine log_eq_of_bounds hb hq ?_ (by rw [sub_add_cancel]; exact not_le.mp h)
    refine le_of_mul_le_mul_right ?_ hdenpos
    calc (b : Rat) ^ (i - j - 1) * q.den ≤ (b : Rat) ^ (i - j - 1) * (b : Rat) ^ (j + 1) := by
          gcongr
          exact hden.2.le
      _ = (b : Rat) ^ i := by
        rw [← zpow_add₀ hbpos.ne']
        congr 1
        ring
      _ ≤ q.num := hnum.1
      _ = q * q.den := hmul.symm

theorem num_cast {q : Rat} (hq : 0 < q) : ((q.num.toNat : Nat) : Rat) = q.num := by
  have hnum : 0 ≤ q.num := (Rat.num_pos.mpr hq).le
  exact_mod_cast Int.toNat_of_nonneg hnum

theorem log2_bounds {n : Nat} (hn : n ≠ 0) :
    ((2 : Nat) : Rat) ^ (Nat.log2 n : Int) ≤ n ∧ (n : Rat) < ((2 : Nat) : Rat) ^ ((Nat.log2 n : Int) + 1) := by
  constructor
  · rw [zpow_natCast]
    exact_mod_cast Nat.log2_self_le hn
  · have hsucc : (Nat.log2 n : Int) + 1 = ((Nat.log2 n + 1 : Nat) : Int) := by push_cast; rfl
    rw [hsucc, zpow_natCast]
    exact_mod_cast Nat.lt_log2_self

/-- The binary guess of `toDouble`, corrected. -/
theorem top_eq {q : Rat} (hq : 0 < q) :
    (let guess : Int := (Nat.log2 q.num.toNat : Int) - (Nat.log2 q.den : Int)
     if power 2 guess ≤ q then guess else guess - 1) = Int.log 2 q := by
  have hnum : q.num.toNat ≠ 0 := by
    have := Rat.num_pos.mpr hq
    omega
  have hbounds := log2_bounds hnum
  rw [num_cast hq] at hbounds
  simp only [power_eq]
  exact log_guess (by decide) hq hbounds (log2_bounds q.den_nz)

theorem digitCount_bounds {n : Nat} (hn : n ≠ 0) :
    ((10 : Nat) : Rat) ^ (((decimal n).length : Int) - 1) ≤ n ∧
      (n : Rat) < ((10 : Nat) : Rat) ^ (((decimal n).length : Int) - 1 + 1) := by
  obtain ⟨k, hk⟩ : ∃ k, (decimal n).length = k + 1 :=
    Nat.exists_eq_add_one.mpr (by rw [decimal, List.length_map]; exact Nat.length_toDigits_pos)
  have hlength : (Nat.toDigits 10 n).length = k + 1 := by rw [← hk, decimal, List.length_map]
  have hhigh : n < 10 ^ (k + 1) :=
    (Nat.length_toDigits_le_iff (by decide) k.succ_pos).mp hlength.le
  have hlow : 10 ^ k ≤ n := by
    cases k with
    | zero => omega
    | succ k =>
      refine Nat.not_lt.mp fun h => ?_
      have := (Nat.length_toDigits_le_iff (by decide) k.succ_pos).mpr h
      omega
  have hexponent : ((k + 1 : Nat) : Int) - 1 = (k : Int) := by omega
  have hsucc : (k : Int) + 1 = ((k + 1 : Nat) : Int) := rfl
  rw [hk, hexponent, hsucc, zpow_natCast, zpow_natCast]
  exact ⟨by exact_mod_cast hlow, by exact_mod_cast hhigh⟩

theorem digitsBefore_eq {q : Rat} (hq : 0 < q) : digitsBefore q = Int.log 10 q + 1 := by
  have hnum : q.num.toNat ≠ 0 := by
    have := Rat.num_pos.mpr hq
    omega
  have hbounds := digitCount_bounds hnum
  rw [num_cast hq] at hbounds
  have hlog := log_guess (by decide) hq hbounds (digitCount_bounds q.den_nz)
  rw [sub_sub_sub_cancel_right] at hlog
  simp only [digitsBefore, power_eq]
  rw [← hlog]
  split
  · rfl
  · rw [sub_add_cancel]

/-! ## Doubles -/

/-- The size of the nearest double of this size. -/
def roundedSize (size : Rat) : Rat :=
  let guess : Int := (Nat.log2 size.num.toNat : Int) - (Nat.log2 size.den : Int)
  let top := if power 2 guess ≤ size then guess else guess - 1
  let exponent := max (top - 52) (-1074)
  (nearestInt (size / power 2 exponent) : Rat) * power 2 exponent

theorem toDouble_eq {q : Rat} (hq : q ≠ 0) :
    toDouble q =
      let value := roundedSize (if q < 0 then -q else q)
      if power 2 1024 ≤ value then .infinity (q < 0)
      else .finite (if q < 0 then -value else value) := by
  simp only [toDouble, if_neg hq]
  rfl

/-- Doubles are rounded to the grid of the number. -/
theorem roundedSize_eq {q : Rat} (hq : 0 < q) :
    roundedSize q = (nearestInt (q / 2 ^ unitExponent 53 (-1074) q) : Rat) *
      2 ^ unitExponent 53 (-1074) q := by
  have htop := top_eq hq
  have hunit : max (Int.log 2 q - 52) (-1074) = unitExponent 53 (-1074) q := by
    rw [unitExponent]
    congr 1
    push_cast
    ring
  simp only [roundedSize]
  simp only at htop
  rw [htop, hunit, power_eq]
  norm_cast

theorem power_top : power 2 1024 = 2 ^ 1024 := by
  have hexponent : (1024 : Int) = ((1024 : Nat) : Int) := rfl
  rw [power_eq, hexponent, zpow_natCast, Nat.cast_ofNat]

theorem toDouble_pos {q : Rat} (hq : 0 < q) :
    toDouble q = if 2 ^ 1024 ≤ roundedSize q then .infinity false else .finite (roundedSize q) := by
  have hneg : ¬ q < 0 := not_lt.mpr hq.le
  simp only [power_top, toDouble_eq hq.ne', hneg, if_false, decide_false]

/-- Rounding does not look at the sign. -/
theorem toDouble_neg {q x : Rat} (h : toDouble q = .finite x) : toDouble (-q) = .finite (-x) := by
  rcases lt_trichotomy q 0 with hq | rfl | hq
  · have hpos : 0 < -q := neg_pos.mpr hq
    simp only [toDouble_eq hq.ne, hq, if_true] at h
    simp only [toDouble_eq hpos.ne', not_lt.mpr hpos.le, if_false]
    split at h
    · cases h
    · rename_i hrange
      rw [if_neg hrange, ← JsNumber.finite.inj h, neg_neg]
  · rw [toDouble, if_pos rfl] at h
    rw [neg_zero, ← JsNumber.finite.inj h, neg_zero]
    rfl
  · have hminus : -q < 0 := neg_lt_zero.mpr hq
    simp only [toDouble_eq hq.ne', not_lt.mpr hq.le, if_false] at h
    simp only [toDouble_eq hminus.ne, hminus, if_true, neg_neg]
    split at h
    · cases h
    · rename_i hrange
      rw [if_neg hrange, JsNumber.finite.inj h]

theorem IsDouble.neg {q : Rat} (h : IsDouble q) : IsDouble (-q) := toDouble_neg h

theorem isDouble_iff {q : Rat} (hq : 0 < q) :
    IsDouble q ↔ OnGrid 53 (-1074) q ∧ q < 2 ^ 1024 := by
  have hunit : (0 : Rat) < 2 ^ unitExponent 53 (-1074) q := by positivity
  rw [IsDouble, toDouble_pos hq, roundedSize_eq hq]
  constructor
  · intro h
    split at h
    · cases h
    · rename_i hrange
      have hvalue := JsNumber.finite.inj h
      exact ⟨⟨_, hvalue.symm⟩, by rw [← hvalue]; exact not_le.mp hrange⟩
  · intro h
    obtain ⟨⟨m, hm⟩, hrange⟩ := h
    have hnearest : nearestInt (q / 2 ^ unitExponent 53 (-1074) q) = m := by
      refine nearestInt_eq ?_
      rw [(div_eq_iff hunit.ne').mpr hm, sub_self, abs_zero]
      norm_num
    rw [hnearest, ← hm, if_neg (not_le.mpr hrange)]

/-- The number of units of a rounded number has 53 bits, or is the next power of two. -/
theorem nearestInt_units {q : Rat} (hq : 0 < q) :
    0 ≤ nearestInt (q / 2 ^ unitExponent 53 (-1074) q) ∧
      nearestInt (q / 2 ^ unitExponent 53 (-1074) q) ≤ 2 ^ 53 := by
  have hunit : (0 : Rat) < 2 ^ unitExponent 53 (-1074) q := by positivity
  have hlt : q / 2 ^ unitExponent 53 (-1074) q < 2 ^ 53 := by
    rw [div_lt_iff₀ hunit, ← zpow_natCast, ← zpow_add₀ two_ne_zero]
    refine (lt_succ_log q).trans_le (zpow_le_iff.mpr ?_)
    have := le_max_left (Int.log 2 q + 1 - (53 : Nat)) (-1074)
    unfold unitExponent
    omega
  have hfloor : ⌊q / 2 ^ unitExponent 53 (-1074) q⌋ < 2 ^ 53 :=
    Int.floor_lt.mpr (by exact_mod_cast hlt)
  have hnonneg : 0 ≤ ⌊q / 2 ^ unitExponent 53 (-1074) q⌋ := Int.floor_nonneg.mpr (by positivity)
  rcases nearestInt_cases (q / 2 ^ unitExponent 53 (-1074) q) with ⟨h, -⟩ | ⟨h, -⟩
  · omega
  · omega

/-- What was rounded to a double is one. -/
theorem toDouble_isDouble {q x : Rat} (h : toDouble q = .finite x) : IsDouble x := by
  have hpositive : ∀ {q x : Rat}, 0 < q → toDouble q = .finite x → IsDouble x := by
    intro q x hq h
    rw [toDouble_pos hq] at h
    split at h
    · cases h
    · rename_i hrange
      have hvalue := JsNumber.finite.inj h
      obtain ⟨hnonneg, hle⟩ := nearestInt_units hq
      rw [roundedSize_eq hq] at hvalue hrange
      rcases hnonneg.eq_or_lt with hzero | hpos
      · rw [← hzero, Int.cast_zero, zero_mul] at hvalue
        rw [← hvalue]
        rfl
      · have hx : 0 < x := by
          rw [← hvalue]
          exact mul_pos (by exact_mod_cast hpos) (by positivity)
        refine (isDouble_iff hx).mpr ⟨?_, ?_⟩
        · rw [← hvalue]
          exact onGrid_of_le (by decide) hpos hle (le_max_right _ _)
        · rw [← hvalue]
          exact not_le.mp hrange
  rcases lt_trichotomy q 0 with hq | rfl | hq
  · rw [← neg_neg x]
    exact (hpositive (neg_pos.mpr hq) (toDouble_neg h)).neg
  · rw [toDouble, if_pos rfl] at h
    rw [← JsNumber.finite.inj h]
    rfl
  · exact hpositive hq h

/-- Whatever is close enough to a double is rounded to it. -/
theorem toDouble_near {q r : Rat} (hq : 0 < q) (hdouble : IsDouble q)
    (hnear : |r - q| < q * 2 ^ (-(53 + 1 : Int))) : toDouble r = .finite q := by
  obtain ⟨hgrid, hrange⟩ := (isDouble_iff hq).mp hdouble
  obtain ⟨m, hm, hdist⟩ := near_grid hq hgrid hnear
  have hr := near_pos hq hnear
  rw [toDouble_pos hr, roundedSize_eq hr, nearestInt_eq hdist, ← hm, if_neg (not_le.mpr hrange)]

/-! ## Digits -/

/-- The number that these digits stand for. -/
def digitsNumber (digits : Nat × Int) : Rat := digits.1 * power 10 digits.2

theorem roundedDigits_spec {q : Rat} (hq : 0 < q) {k : Nat} (hk : 0 < k) :
    ∃ d : Nat, roundedDigits q k = (d, Int.log 10 q + 1 - k) ∧
      |q / 10 ^ (Int.log 10 q + 1 - k) - (d : Int)| ≤ 1 / 2 := by
  set scaled := q / 10 ^ (Int.log 10 q + 1 - k) with hscaled
  have hone : 1 ≤ scaled := by
    have hunit : (0 : Rat) < 10 ^ (Int.log 10 q + 1 - k) := by positivity
    rw [hscaled, one_le_div hunit]
    refine le_trans ?_ (by exact_mod_cast Int.zpow_log_le_self (b := 10) (by decide) hq)
    exact zpow_le_zpow_right₀ (by norm_num) (by omega)
  have hpos : 1 ≤ nearestInt scaled := by
    have hfloor : 1 ≤ ⌊scaled⌋ := Int.le_floor.mpr (by exact_mod_cast hone)
    rcases nearestInt_cases scaled with ⟨h, -⟩ | ⟨h, -⟩
    · omega
    · omega
  have hcast : (((nearestInt scaled).toNat : Nat) : Int) = nearestInt scaled := by omega
  refine ⟨(nearestInt scaled).toNat, ?_, ?_⟩
  · simp only [roundedDigits, digitsBefore_eq hq, power_eq]
    rfl
  · rw [hcast]
    exact abs_sub_nearestInt scaled

/-- **Seventeen digits are enough.** -/
theorem toDouble_seventeen {q : Rat} (hq : 0 < q) (hdouble : IsDouble q) :
    toDouble (digitsNumber (roundedDigits q 17)) = .finite q := by
  obtain ⟨d, hdigits, hdist⟩ := roundedDigits_spec hq (k := 17) (by decide)
  have hfine : 2 ^ 53 < 10 ^ (17 - 1) := by norm_num
  have hnear := decimal_near hq hfine (by decide) hdist
  rw [hdigits, digitsNumber, power_eq]
  exact toDouble_near hq hdouble (by exact_mod_cast hnear)

/-- The fewest digits that read back are digits that read back. -/
theorem shortestDigits_spec {q : Rat} (hq : 0 < q) (hdouble : IsDouble q) :
    0 < (shortestDigits q).1 ∧ toDouble (digitsNumber (shortestDigits q)) = .finite q := by
  have hreads : toDouble (digitsNumber (shortestDigits q)) = .finite q := by
    unfold shortestDigits
    dsimp only
    cases hfound : ((List.range' 1 17).flatMap (nextDigits q)).find? fun digits =>
        decide (toDouble ((digits.1 : Rat) * power 10 digits.2) = .finite q) with
    | none => exact toDouble_seventeen hq hdouble
    | some digits =>
      have hchosen := List.find?_some hfound
      exact of_decide_eq_true hchosen
  refine ⟨Nat.pos_of_ne_zero fun hzero => ?_, hreads⟩
  rw [digitsNumber, hzero, Nat.cast_zero, zero_mul, toDouble, if_pos rfl] at hreads
  exact hq.ne (JsNumber.finite.inj hreads)

end NewsApi.Utils
