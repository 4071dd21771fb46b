import Mathlib.Data.Int.Log
import Mathlib.Data.Rat.Floor
import Mathlib.Tactic

/-!
# Rounding to double precision

The nearest rational with a 53-bit significand, ties to the even one.  The exponent range is left
out: nothing here is subnormal or near overflow.

* `Binary64.round`: the rounding;
* `Binary64.round_le`, `Binary64.le_round`: a point of the grid around `q` that bounds `q` bounds
  `round q` too;
* `Binary64.round_le_of_dvd`, `Binary64.le_round_of_dvd`: below `2 ^ (e + 53)` the multiples of
  `2 ^ e` are on the grid.
-/

namespace Mach402
namespace Binary64

/-- The nearest integer, ties to the even one. -/
def roundEven (q : ℚ) : ℤ :=
  if q - ⌊q⌋ < 1 / 2 then ⌊q⌋
  else if 1 / 2 < q - ⌊q⌋ then ⌊q⌋ + 1
  else if ⌊q⌋ % 2 = 0 then ⌊q⌋ else ⌊q⌋ + 1

theorem roundEven_le {q : ℚ} {k : ℤ} (h : q ≤ k) : roundEven q ≤ k := by
  have hf : ⌊q⌋ ≤ k := by exact_mod_cast (Int.floor_le q).trans h
  rcases hf.lt_or_eq with hlt | heq
  · unfold roundEven
    split_ifs <;> omega
  · have hq : q = (⌊q⌋ : ℚ) := le_antisymm (by rw [heq]; exact h) (Int.floor_le q)
    rw [roundEven, if_pos (by rw [← hq]; norm_num), heq]

theorem le_roundEven {q : ℚ} {k : ℤ} (h : (k : ℚ) ≤ q) : k ≤ roundEven q := by
  have hf : k ≤ ⌊q⌋ := Int.le_floor.2 h
  unfold roundEven
  split_ifs <;> omega

/-- The distance of neighbouring doubles around `q`. -/
def ulp (q : ℚ) : ℚ := 2 ^ (Int.log 2 |q| - 52)

theorem ulp_pos (q : ℚ) : 0 < ulp q := by unfold ulp; positivity

/-- The double nearest to `q`. -/
def round (q : ℚ) : ℚ := roundEven (q / ulp q) * ulp q

theorem round_le {q : ℚ} {k : ℤ} (h : q ≤ k * ulp q) : round q ≤ k * ulp q := by
  have hk : roundEven (q / ulp q) ≤ k := roundEven_le ((div_le_iff₀ (ulp_pos q)).2 h)
  exact mul_le_mul_of_nonneg_right (by exact_mod_cast hk) (ulp_pos q).le

theorem le_round {q : ℚ} {k : ℤ} (h : k * ulp q ≤ q) : k * ulp q ≤ round q := by
  have hk : k ≤ roundEven (q / ulp q) := le_roundEven ((le_div_iff₀ (ulp_pos q)).2 h)
  exact mul_le_mul_of_nonneg_right (by exact_mod_cast hk) (ulp_pos q).le

theorem round_nonneg {q : ℚ} (h : 0 ≤ q) : 0 ≤ round q := by
  simpa using le_round (k := 0) (by simpa using h)

/-- Below `2 ^ (e + 53)` the spacing divides `2 ^ e`. -/
theorem exists_mul_ulp {q : ℚ} {e : ℤ} (hq : 0 < q) (h : q < 2 ^ (e + 53)) (k : ℤ) :
    ∃ j : ℤ, (k : ℚ) * 2 ^ e = j * ulp q := by
  have hlog : Int.log 2 |q| < e + 53 := by
    rw [abs_of_pos hq]
    have hle : ((2 : ℕ) : ℚ) ^ Int.log 2 q ≤ q := Int.zpow_log_le_self (by norm_num) hq
    exact (zpow_lt_zpow_iff_right₀ (by norm_num : (1 : ℚ) < 2)).1
      (lt_of_le_of_lt (by exact_mod_cast hle) h)
  obtain ⟨n, hn⟩ := Int.eq_ofNat_of_zero_le (show 0 ≤ e - (Int.log 2 |q| - 52) by omega)
  refine ⟨k * 2 ^ n, ?_⟩
  have he : e = (n : ℤ) + (Int.log 2 |q| - 52) := by omega
  rw [ulp, Int.cast_mul, mul_assoc]
  congr 1
  conv_lhs => rw [he, zpow_add₀ (by norm_num : (2 : ℚ) ≠ 0)]
  norm_cast

theorem round_le_of_dvd {q : ℚ} {e k : ℤ} (hq : 0 < q) (h : q < 2 ^ (e + 53))
    (hk : q ≤ k * 2 ^ e) : round q ≤ k * 2 ^ e := by
  obtain ⟨j, hj⟩ := exists_mul_ulp hq h k
  rw [hj] at hk ⊢
  exact round_le hk

theorem le_round_of_dvd {q : ℚ} {e k : ℤ} (hq : 0 < q) (h : q < 2 ^ (e + 53))
    (hk : (k : ℚ) * 2 ^ e ≤ q) : (k : ℚ) * 2 ^ e ≤ round q := by
  obtain ⟨j, hj⟩ := exists_mul_ulp hq h k
  rw [hj] at hk ⊢
  exact le_round hk

/-- An integer with at most 53 bits is a double. -/
theorem round_natCast {n : ℕ} (h : n < 2 ^ 53) : round (n : ℚ) = n := by
  rcases Nat.eq_zero_or_pos n with rfl | hn
  · simp [round, roundEven]
  · have hq : (0 : ℚ) < n := by exact_mod_cast hn
    have hlt : (n : ℚ) < 2 ^ ((0 : ℤ) + 53) := by norm_num; exact_mod_cast h
    refine le_antisymm ?_ ?_
    · simpa using round_le_of_dvd (k := n) hq hlt (by simp)
    · simpa using le_round_of_dvd (k := n) hq hlt (by simp)

end Binary64
end Mach402
