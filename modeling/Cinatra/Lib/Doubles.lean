import Mathlib.Algebra.Order.Floor.Ring
import Mathlib.Data.Rat.Floor
import Mathlib.Algebra.Order.Field.Power
import Mathlib.Tactic.Linarith
import Mathlib.Tactic.FieldSimp
import Mathlib.Tactic.Positivity

/-! # Doubles — the numbers of 53 bits, among the rationals

    `fl` takes an exact result to the double nearest to it, the even one of two that are
    as near.  Whole numbers and halves are kept (`fl_exact`), and below a power of two
    the error is bounded (`fl_near`), so the floor of a quotient of whole numbers is the
    exact one (`floor_fl_div`).  Overflow and signed zeros are left out. -/

namespace Doubles

/-- The place of the leading bit. -/
def exponent (x : ℚ) : ℤ :=
  let e : ℤ := x.num.natAbs.log2 - x.den.log2
  if (2 : ℚ) ^ e ≤ |x| then e else e - 1

/-- The place of the last bit that a double keeps. -/
def lastBit (x : ℚ) : ℤ := max (exponent x - 52) (-1074)

/-- The nearest whole number, the even one of two. -/
def roundEven (x : ℚ) : ℤ :=
  let n := ⌊x⌋
  if x - n < 1 / 2 ∨ x - n = 1 / 2 ∧ n % 2 = 0 then n else n + 1

/-- The double nearest to an exact result. -/
def fl (x : ℚ) : ℚ := roundEven (x / 2 ^ lastBit x) * 2 ^ lastBit x

variable {x : ℚ} {k : ℤ}

private theorem pow_pos (k : ℤ) : (0 : ℚ) < 2 ^ k := zpow_pos (by norm_num) k

theorem exponent_le (hx : x ≠ 0) : 2 ^ exponent x ≤ |x| := by
  rw [exponent]
  split
  · assumption
  have hnum : (2 : ℚ) ^ x.num.natAbs.log2 ≤ x.num.natAbs := by
    exact_mod_cast Nat.log2_self_le (Int.natAbs_ne_zero.mpr (Rat.num_ne_zero.mpr hx))
  have hden : (x.den : ℚ) ≤ 2 ^ (x.den.log2 + 1) := by
    exact_mod_cast Nat.lt_log2_self.le
  have hx' : |x| = x.num.natAbs / x.den := by
    rw [Nat.cast_natAbs, Int.cast_abs, ← Nat.abs_cast x.den, ← abs_div, Rat.num_div_den]
  rw [hx', le_div_iff₀ (by exact_mod_cast x.den_pos)]
  calc (2 : ℚ) ^ ((x.num.natAbs.log2 : ℤ) - x.den.log2 - 1) * x.den
      ≤ 2 ^ ((x.num.natAbs.log2 : ℤ) - x.den.log2 - 1) * 2 ^ (x.den.log2 + 1) :=
        mul_le_mul_of_nonneg_left hden (pow_pos _).le
    _ = 2 ^ x.num.natAbs.log2 := by
        rw [← zpow_natCast 2 (x.den.log2 + 1), ← zpow_add₀ (by norm_num), ← zpow_natCast]
        congr 1
        push_cast
        ring
    _ ≤ x.num.natAbs := hnum

theorem lastBit_le (hx : x ≠ 0) (h : |x| < 2 ^ k) (hk : -1021 ≤ k) : lastBit x ≤ k - 53 := by
  have hlt : exponent x < k :=
    (zpow_lt_zpow_iff_right₀ (by norm_num)).mp ((exponent_le hx).trans_lt h)
  rw [lastBit]
  omega

theorem roundEven_near (x : ℚ) : |(roundEven x : ℚ) - x| ≤ 1 / 2 := by
  have hlow := Int.floor_le x
  have hhigh := Int.lt_floor_add_one x
  rw [roundEven]
  split
  case isTrue h =>
    rw [abs_le]
    rcases h with h | h <;> constructor <;> linarith
  case isFalse h =>
    rw [not_or, not_lt] at h
    rw [abs_le]
    push_cast
    constructor <;> linarith [h.1]

theorem roundEven_intCast (n : ℤ) : roundEven n = n := by
  simp [roundEven]

@[simp] theorem fl_zero : fl 0 = 0 := by
  rw [fl, zero_div, ← Int.cast_zero, roundEven_intCast, Int.cast_zero, zero_mul]

/-- Below a power of two, a double is off by half of its last bit at most. -/
theorem fl_near (h : |x| < 2 ^ k) (hk : -1021 ≤ k) : |fl x - x| ≤ 2 ^ (k - 54) := by
  by_cases hx : x = 0
  · rw [hx, fl_zero, sub_zero, abs_zero]
    exact (pow_pos _).le
  have hbit := pow_pos (lastBit x)
  have hdiff : fl x - x = (roundEven (x / 2 ^ lastBit x) - x / 2 ^ lastBit x) * 2 ^ lastBit x := by
    rw [fl, sub_mul, div_mul_cancel₀ _ hbit.ne']
  calc |fl x - x| ≤ 1 / 2 * 2 ^ lastBit x := by
        rw [hdiff, abs_mul, abs_of_pos hbit]
        exact mul_le_mul_of_nonneg_right (roundEven_near _) hbit.le
    _ ≤ 1 / 2 * 2 ^ (k - 53) :=
        mul_le_mul_of_nonneg_left (zpow_le_zpow_right₀ (by norm_num) (lastBit_le hx h hk))
          (by norm_num)
    _ = 2 ^ (k - 54) := by
        rw [show k - 53 = k - 54 + 1 by ring, zpow_add_one₀ (by norm_num)]
        ring

/-- A multiple of a power of two that has 53 bits is a double. -/
theorem fl_exact (z : ℤ) {j : ℤ} (hz : |z| < 2 ^ 53) (hj : -1074 ≤ j) :
    fl (z * 2 ^ j) = z * 2 ^ j := by
  by_cases hx : (z * 2 ^ j : ℚ) = 0
  · rw [hx, fl_zero]
  have hlt : |(z * 2 ^ j : ℚ)| < 2 ^ (j + 53) := by
    rw [abs_mul, abs_of_pos (pow_pos j), zpow_add₀ (by norm_num), mul_comm]
    exact mul_lt_mul_of_pos_left (by exact_mod_cast hz) (pow_pos j)
  have hbit := lastBit_le hx hlt (by omega)
  obtain ⟨n, hn⟩ := Int.eq_ofNat_of_zero_le 
    (sub_nonneg.mpr (show lastBit (z * 2 ^ j) ≤ j by omega))
  have hwhole : (z * 2 ^ j : ℚ) / 2 ^ lastBit (z * 2 ^ j) = ((z * 2 ^ n : ℤ) : ℚ) := by
    rw [mul_div_assoc, ← zpow_sub₀ (by norm_num), hn]
    push_cast
    rw [zpow_natCast]
  rw [fl, hwhole, roundEven_intCast, ← hwhole, div_mul_cancel₀ _ (pow_pos _).ne']

@[simp] theorem fl_intCast {z : ℤ} (hz : |z| < 2 ^ 53) : fl z = z := by
  simpa using fl_exact z (j := 0) hz (by norm_num)

/-- An error below `1 / b` leaves the order of fractions over `b`, one of them a double. -/
theorem le_fl_div {a c : ℤ} {b : ℕ} (hb : 0 < b) (hc : fl (c / b) = c / b)
    (herr : |fl (a / b) - a / b| < 1 / b) : (c / b : ℚ) ≤ fl (a / b) ↔ c ≤ a := by
  have hpos : (0 : ℚ) < b := by exact_mod_cast hb
  have hstep : ∀ y z : ℤ, y < z → (y / b : ℚ) + 1 / b ≤ z / b := by
    intro y z hyz
    rw [← add_div]
    exact (div_le_div_iff_of_pos_right hpos).mpr (by exact_mod_cast hyz)
  rw [abs_lt] at herr
  rcases lt_trichotomy a c with h | rfl | h
  · have hfar := hstep a c h
    exact iff_of_false (by linarith) (not_le.mpr h)
  · rw [hc]
    exact iff_of_true le_rfl le_rfl
  · have hfar := hstep c a h
    exact iff_of_true (by linarith) h.le

/-- The floor of a quotient of whole numbers is theirs. -/
theorem floor_fl_div {a b : ℕ} (k : ℕ) (hb : 0 < b) (ha : a < 2 ^ k * b) (hk : 2 ^ k * b < 2 ^ 53) :
    ⌊fl (a / b)⌋ = (a / b : ℕ) := by
  have hpos : (0 : ℚ) < b := by exact_mod_cast hb
  have hbelow : |(a / b : ℚ)| < 2 ^ (k : ℤ) := by
    rw [abs_of_nonneg (by positivity), div_lt_iff₀ hpos, zpow_natCast]
    exact_mod_cast ha
  have herr : |fl (a / b) - a / b| < 1 / b := by
    refine (fl_near hbelow (by omega)).trans_lt ?_
    rw [lt_div_iff₀ hpos, zpow_sub₀ (by norm_num), div_mul_eq_mul_div, div_lt_one (by norm_num)]
    rw [zpow_natCast]
    exact_mod_cast hk.trans (by norm_num)
  have hsmall : a / b + 1 < 2 ^ 53 := by
    have hdiv := (Nat.div_lt_iff_lt_mul hb).mpr ha
    have hle := Nat.le_mul_of_pos_right (2 ^ k) hb
    omega
  have hle : ∀ n : ℕ, n ≤ a / b + 1 → ((n : ℚ) ≤ fl (a / b) ↔ n * b ≤ a) := by
    intro n hn
    have hfrac : (((n * b : ℕ) : ℤ) : ℚ) / b = n := by
      push_cast
      rw [mul_div_cancel_right₀ _ hpos.ne']
    have hfl : fl (n : ℚ) = n := by
      exact_mod_cast fl_intCast (z := n) (by rw [Nat.abs_cast]; exact_mod_cast (by omega))
    have h := le_fl_div (a := a) (c := (n * b : ℕ)) hb (by rw [hfrac, hfl]) (by simpa using herr)
    rw [hfrac, Int.cast_natCast] at h
    exact h.trans Nat.cast_le
  rw [Int.floor_eq_iff]
  refine ⟨?_, lt_of_not_ge fun h => ?_⟩
  · exact_mod_cast (hle (a / b) (by omega)).mpr (Nat.div_mul_le_self a b)
  · have hover := (hle (a / b + 1) le_rfl).mp (by exact_mod_cast h)
    have hnext := (Nat.div_lt_iff_lt_mul hb).mp (Nat.lt_succ_self (a / b))
    exact absurd hover (not_le.mpr hnext)

/-- What a quotient of whole numbers leaves is theirs. -/
theorem fl_rest {a : ℕ} (b : ℕ) (ha : a < 2 ^ 53) :
    fl (a - fl ((a / b : ℕ) * b)) = (a % b : ℕ) := by
  have hfl : ∀ n : ℕ, n ≤ a → fl (n : ℚ) = n := by
    intro n hn
    exact_mod_cast fl_intCast (z := n) (by rw [Nat.abs_cast]; exact_mod_cast hn.trans_lt ha)
  have hmul : a / b * b ≤ a := Nat.div_mul_le_self a b
  have hmod : a - a / b * b = a % b := by
    rw [Nat.mod_def, Nat.mul_comm]
  rw [← Nat.cast_mul, hfl _ hmul, ← Nat.cast_sub hmul, hfl _ (Nat.sub_le _ _), hmod]

end Doubles
