import Mathlib.Algebra.Order.Field.Power
import Mathlib.Data.Int.Log
import Mathlib.Tactic.FieldSimp
import Mathlib.Tactic.Linarith
import Mathlib.Tactic.Positivity
import Mathlib.Tactic.Ring

/-! # Numbers with a given number of bits

The numbers of a floating format with `bits` bits and `least` as its least
exponent. One of them is found again from any number that is close enough to it,
and its decimal digits are close enough from `2 ^ bits < 10 ^ (k - 1)` on. -/
namespace NewsApi.Numbers

variable {K : Type*} [Field K] [LinearOrder K] [IsStrictOrderedRing K] [FloorSemiring K]

/-- The exponent of the last bit. -/
def unitExponent (bits : ℕ) (least : ℤ) (x : K) : ℤ := max (Int.log 2 x + 1 - bits) least

def OnGrid (bits : ℕ) (least : ℤ) (x : K) : Prop :=
  ∃ m : ℤ, x = m * 2 ^ unitExponent bits least x

variable {bits : ℕ} {least : ℤ} {x r : K}

theorem log_le_self (hx : 0 < x) : (2 : K) ^ Int.log 2 x ≤ x := by
  exact_mod_cast Int.zpow_log_le_self (b := 2) (by norm_num) hx

theorem lt_succ_log (x : K) : x < (2 : K) ^ (Int.log 2 x + 1) := by
  exact_mod_cast Int.lt_zpow_succ_log_self (b := 2) (by norm_num) x

/-- The logarithm is the only exponent with these bounds. -/
theorem log_eq_of_bounds {b : ℕ} (hb : 1 < b) (hx : 0 < x) {t : ℤ} (hlow : (b : K) ^ t ≤ x)
    (hhigh : x < (b : K) ^ (t + 1)) : Int.log b x = t := by
  have h1 := (Int.zpow_le_iff_le_log hb hx).mp hlow
  have h2 := (Int.lt_zpow_iff_log_lt hb hx).mp hhigh
  omega

theorem zpow_lt_iff {a b : ℤ} : (2 : K) ^ a < 2 ^ b ↔ a < b :=
  zpow_lt_zpow_iff_right₀ one_lt_two

theorem zpow_le_iff {a b : ℤ} : (2 : K) ^ a ≤ 2 ^ b ↔ a ≤ b :=
  zpow_le_zpow_iff_right₀ one_lt_two

omit [IsStrictOrderedRing K] in
/-- A power of two that is not below the unit is an integer number of units. -/
theorem zpow_units {a b : ℤ} (h : a ≤ b) : (2 : K) ^ b = ((2 ^ (b - a).toNat : ℤ) : K) * 2 ^ a := by
  push_cast
  rw [← zpow_natCast, ← zpow_add₀ two_ne_zero]
  congr 1
  omega

/-- The unit of a positive number is not above it. -/
theorem unit_le (hx : 0 < x) {m : ℤ} {e : ℤ} (h : x = m * 2 ^ e) : (2 : K) ^ e ≤ x := by
  have hpos : (0 : K) < 2 ^ e := by positivity
  have hm : (0 : K) < m := by
    rw [h] at hx
    exact pos_of_mul_pos_left hx hpos.le
  have hone : (1 : K) ≤ m := by exact_mod_cast hm
  calc (2 : K) ^ e = 1 * 2 ^ e := (one_mul _).symm
    _ ≤ m * 2 ^ e := by gcongr
    _ = x := h.symm

/-- A number of `bits` bits is on its own grid. -/
theorem onGrid_of_le (hbits : 0 < bits) {m e : ℤ} (hpos : 0 < m) (hm : m ≤ 2 ^ bits)
    (he : least ≤ e) : OnGrid bits least ((m : K) * 2 ^ e) := by
  have hunit : (0 : K) < 2 ^ e := by positivity
  have hcast : (0 : K) < m := by exact_mod_cast hpos
  rcases hm.lt_or_eq with hlt | heq
  · -- the grid of the number is at least as fine as `e`
    have hlog : Int.log 2 ((m : K) * 2 ^ e) < bits + e := by
      refine (Int.lt_zpow_iff_log_lt (by norm_num) (mul_pos hcast hunit)).mp ?_
      have hmax : (m : K) < 2 ^ (bits : ℤ) := by
        rw [zpow_natCast]
        exact_mod_cast hlt
      rw [zpow_add₀ (by norm_num)]
      exact_mod_cast mul_lt_mul_of_pos_right hmax hunit
    have hfine : unitExponent bits least ((m : K) * 2 ^ e) ≤ e := max_le (by omega) he
    refine ⟨m * 2 ^ (e - unitExponent bits least ((m : K) * 2 ^ e)).toNat, ?_⟩
    conv_lhs => rw [zpow_units hfine]
    push_cast
    ring
  · have hpower : (m : K) * 2 ^ e = 2 ^ (bits + e) := by
      rw [heq, zpow_add₀ two_ne_zero, zpow_natCast]
      push_cast
      rfl
    rw [hpower]
    have hlog : Int.log 2 ((2 : K) ^ (bits + e)) = bits + e := by
      exact_mod_cast Int.log_zpow (R := K) (b := 2) (by norm_num) (bits + e)
    have hfine : unitExponent bits least ((2 : K) ^ (bits + e)) ≤ bits + e := by
      refine max_le ?_ ?_ <;> omega
    exact ⟨_, zpow_units hfine⟩

/-- A grid number below another multiple of the unit is a unit below it. -/
theorem unit_gap {m n e : ℤ} {y : K} (hx : x = m * 2 ^ e) (hy : y = n * 2 ^ e) (h : x < y) :
    x + 2 ^ e ≤ y := by
  have hpos : (0 : K) < 2 ^ e := by positivity
  have hlt : (m : K) < n := by
    rw [hx, hy] at h
    exact lt_of_mul_lt_mul_right h hpos.le
  have hsucc : (m : K) + 1 ≤ n := by exact_mod_cast hlt
  calc x + 2 ^ e = (m + 1) * 2 ^ e := by rw [hx]; ring
    _ ≤ n * 2 ^ e := by gcongr
    _ = y := hy.symm

/-- Close is less than half a unit of the upper end of the binade. -/
theorem near_lt (hnear : |r - x| < x * 2 ^ (-(bits + 1 : ℤ))) :
    |r - x| < 2 ^ (Int.log 2 x - bits) := by
  refine hnear.trans ?_
  calc x * 2 ^ (-(bits + 1 : ℤ)) < 2 ^ (Int.log 2 x + 1) * 2 ^ (-(bits + 1 : ℤ)) := by
        have hpos : (0 : K) < 2 ^ (-(bits + 1 : ℤ)) := by positivity
        exact mul_lt_mul_of_pos_right (lt_succ_log x) hpos
    _ = 2 ^ (Int.log 2 x - bits) := by
        rw [← zpow_add₀ two_ne_zero]
        congr 1
        ring

theorem near_pos (hx : 0 < x) (hnear : |r - x| < x * 2 ^ (-(bits + 1 : ℤ))) : 0 < r := by
  have hsmall : (2 : K) ^ (-(bits + 1 : ℤ)) ≤ 1 := by
    rw [← zpow_zero (2 : K), zpow_le_iff]
    omega
  have hlow := (abs_lt.mp hnear).1
  have hle : x * 2 ^ (-(bits + 1 : ℤ)) ≤ x := mul_le_of_le_one_right hx.le hsmall
  linarith

/-- Seen from a number close to it, a grid number is the nearest multiple of
that number's unit. The two lie in one binade, or the grid number is the power of
two between the two binades. -/
theorem near_grid (hx : 0 < x) (hgrid : OnGrid bits least x)
    (hnear : |r - x| < x * 2 ^ (-(bits + 1 : ℤ))) :
    ∃ m : ℤ, x = m * 2 ^ unitExponent bits least r ∧
      |r / 2 ^ unitExponent bits least r - m| < 1 / 2 := by
  obtain ⟨m, hm⟩ := hgrid
  have hr := near_pos hx hnear
  have hlt := near_lt hnear
  obtain ⟨hbelow, habove⟩ := abs_lt.mp hlt
  set t := Int.log 2 x with ht
  set e := unitExponent bits least x with he
  have hunit : t + 1 - bits ≤ e := le_max_left _ _
  have het : e ≤ t := by
    have hlog := (Int.zpow_le_iff_le_log (b := 2) (by norm_num) hx).mp
      (by exact_mod_cast unit_le hx hm)
    exact hlog
  have hhalf : (2 : K) ^ (t - bits) ≤ 2 ^ (e - 1) := by rw [zpow_le_iff]; omega
  have hunits : (2 : K) ^ (e - 1) < 2 ^ e := by rw [zpow_lt_iff]; omega
  -- one more unit would leave the binade
  have htop : r < 2 ^ (t + 1) := by
    have hgap := unit_gap hm (zpow_units (by omega : e ≤ t + 1)) (lt_succ_log x)
    linarith
  -- half a unit is more than the distance, whatever the unit is
  have hscaled : ∀ n E : ℤ, x = n * 2 ^ E → |r - x| < 2 ^ (E - 1) →
      |r / 2 ^ E - n| < 1 / 2 := by
    intro n E hn hdist
    have hpos : (0 : K) < 2 ^ E := by positivity
    have hdiv : r / 2 ^ E - n = (r - x) / 2 ^ E := by rw [hn]; field_simp
    rw [hdiv, abs_div, abs_of_pos hpos, div_lt_iff₀ hpos]
    calc |r - x| < 2 ^ (E - 1) := hdist
      _ = 1 / 2 * 2 ^ E := by rw [zpow_sub_one₀ two_ne_zero]; ring
  by_cases hlow : (2 : K) ^ t ≤ r
  · have hlog : Int.log 2 r = t :=
      log_eq_of_bounds (by norm_num) hr (by exact_mod_cast hlow) (by exact_mod_cast htop)
    have hsame : unitExponent bits least r = e := by rw [unitExponent, hlog]; rfl
    rw [hsame]
    exact ⟨m, hm, hscaled m e hm (hlt.trans_le hhalf)⟩
  · -- the grid number is the lower end of its binade
    have hend : x = 2 ^ t := by
      by_contra hne
      have hgap := unit_gap (zpow_units het) hm (lt_of_le_of_ne (log_le_self hx) (Ne.symm hne))
      linarith [not_le.mp hlow]
    have hhalfway : (2 : K) ^ (t - 1) ≤ r := by
      have hpart : (2 : K) ^ (-(bits + 1 : ℤ)) ≤ 2 ^ (-1 : ℤ) := by rw [zpow_le_iff]; omega
      have hdist := (abs_lt.mp hnear).1
      have hle : x * 2 ^ (-(bits + 1 : ℤ)) ≤ x * 2⁻¹ := by
        rw [← zpow_neg_one]
        gcongr
      rw [zpow_sub_one₀ two_ne_zero, ← hend]
      linarith
    have hlog : Int.log 2 r = t - 1 := by
      refine log_eq_of_bounds (by norm_num) hr (by exact_mod_cast hhalfway) ?_
      rw [sub_add_cancel]
      exact_mod_cast not_le.mp hlow
    have hexponent : unitExponent bits least r = max (t - bits) least := by
      rw [unitExponent, hlog]
      congr 1
      ring
    have hE : unitExponent bits least r ≤ t := by
      rw [hexponent]
      have : max (t - bits) least ≤ e := max_le (by omega) (le_max_right _ _)
      omega
    have hinteger := hend.trans (zpow_units hE)
    refine ⟨_, hinteger, hscaled _ _ hinteger ?_⟩
    calc |r - x| < x * 2 ^ (-(bits + 1 : ℤ)) := hnear
      _ = 2 ^ (t - bits - 1) := by
        rw [hend, ← zpow_add₀ two_ne_zero]
        congr 1
        ring
      _ ≤ 2 ^ (unitExponent bits least r - 1) := by
        rw [zpow_le_iff, hexponent]
        have := le_max_left (t - bits) least
        omega

/-- `k` decimal digits, the last one rounded. -/
theorem decimal_near (hx : 0 < x) {k : ℕ} (hk : 2 ^ bits < 10 ^ (k - 1)) (hpos : 0 < k) {d : ℤ}
    (hd : |x / 10 ^ (Int.log 10 x + 1 - k) - d| ≤ 1 / 2) :
    |d * 10 ^ (Int.log 10 x + 1 - k) - x| < x * 2 ^ (-(bits + 1 : ℤ)) := by
  set u : K := 10 ^ (Int.log 10 x + 1 - k) with hu
  have hupos : 0 < u := by positivity
  have hdist : |d * u - x| ≤ u / 2 := by
    have heq : d * u - x = -((x / u - d) * u) := by field_simp; ring
    rw [heq, abs_neg, abs_mul, abs_of_pos hupos]
    calc |x / u - d| * u ≤ 1 / 2 * u := by gcongr
      _ = u / 2 := by ring
  have hlead : u * 10 ^ (k - 1) ≤ x := by
    have hlog : (10 : K) ^ Int.log 10 x ≤ x := by
      exact_mod_cast Int.zpow_log_le_self (b := 10) (by norm_num) hx
    refine le_trans (le_of_eq ?_) hlog
    rw [hu, ← zpow_natCast, ← zpow_add₀ (by norm_num)]
    congr 1
    omega
  have hbits : (2 : K) ^ bits < 10 ^ (k - 1) := by exact_mod_cast hk
  have hscale : u * 2 ^ bits < x := by
    have hstrict : u * 2 ^ bits < u * 10 ^ (k - 1) := by gcongr
    exact hstrict.trans_le hlead
  refine lt_of_le_of_lt hdist ?_
  rw [zpow_neg, ← div_eq_mul_inv, lt_div_iff₀ (by positivity)]
  calc u / 2 * 2 ^ (bits + 1 : ℤ) = u * 2 ^ bits := by
        rw [zpow_add₀ two_ne_zero, zpow_one, zpow_natCast]
        ring
    _ < x := hscale

end NewsApi.Numbers
