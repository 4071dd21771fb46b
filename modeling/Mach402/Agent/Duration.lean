import Mach402.Library.Binary64

/-!
# Instants and durations

The clock of the node, as Go's `time` package computes with it.  An instant is a number of
nanoseconds; a duration is an `int64` of nanoseconds, so differences saturate and products wrap.

`wholeSeconds` is `int64(d.Seconds())`, which goes through a `float64`.  It is the number of whole
seconds for every duration under `2 ^ 23` seconds (97 days, `wholeSeconds_eq`); a longer one that
stops a few nanoseconds short of a second may be rounded up to it.
-/

namespace Mach402
namespace Duration

/-- `time.Second`. -/
def second : ℤ := 1000000000

theorem second_pos : 0 < second := by decide

/-- `t.Sub(u)`: saturates at the ends of an `int64`. -/
def sub (t u : ℤ) : ℤ := max (-2 ^ 63) (min (2 ^ 63 - 1) (t - u))

/-- `time.Duration(n) * time.Second`: wraps around like every `int64` product. -/
def ofSeconds (n : ℤ) : ℤ := (n * second).bmod (2 ^ 64)

/-- `d.Seconds()`: the whole seconds plus the rest over `1e9`, in doubles. -/
def seconds (d : ℤ) : ℚ :=
  Binary64.round (Binary64.round (d.tdiv second) +
    Binary64.round (Binary64.round (d.tmod second) / second))

/-- `int64(f)`: towards zero. -/
def truncate (q : ℚ) : ℤ := if 0 ≤ q then ⌊q⌋ else ⌈q⌉

/-- `int64(d.Seconds())`. -/
def wholeSeconds (d : ℤ) : ℤ := truncate (seconds d)

theorem sub_pos {t u : ℤ} : 0 < sub t u ↔ u < t := by unfold sub; omega

theorem sub_eq {t u : ℤ} (h : u ≤ t) (h' : t - u < 2 ^ 63) : sub t u = t - u := by
  unfold sub; omega

theorem ofSeconds_eq {n : ℤ} (h : 0 ≤ n) (h' : n * second < 2 ^ 63) :
    ofSeconds n = n * second := by
  have := mul_nonneg h second_pos.le
  exact Int.bmod_eq_of_le (by omega) (by omega)

/-- A positive duration is its whole seconds and a rest of less than a second. -/
theorem exists_split {d : ℤ} (h : 0 ≤ d) :
    ∃ s n : ℕ, d = s * second + n ∧ n < 1000000000 ∧ d.tdiv second = s ∧ d.tmod second = n := by
  obtain ⟨m, rfl⟩ := Int.eq_ofNat_of_zero_le h
  refine ⟨m / 1000000000, m % 1000000000, ?_, Nat.mod_lt _ (by norm_num), rfl, rfl⟩
  have := Nat.div_add_mod m 1000000000
  simp only [second]
  push_cast
  omega

theorem seconds_nonneg {d : ℤ} (h : 0 ≤ d) : 0 ≤ seconds d := by
  obtain ⟨s, n, -, -, hs, hn⟩ := exists_split h
  have hsec : (0 : ℚ) < second := by exact_mod_cast second_pos
  refine Binary64.round_nonneg (add_nonneg (Binary64.round_nonneg ?_)
    (Binary64.round_nonneg (div_nonneg (Binary64.round_nonneg ?_) hsec.le)))
  · rw [hs]; positivity
  · rw [hn]; positivity

theorem wholeSeconds_nonneg {d : ℤ} (h : 0 ≤ d) : 0 ≤ wholeSeconds d := by
  rw [wholeSeconds, truncate, if_pos (seconds_nonneg h)]
  exact Int.floor_nonneg.2 (seconds_nonneg h)

theorem wholeSeconds_zero : wholeSeconds 0 = 0 := by
  simp [wholeSeconds, seconds, truncate, Binary64.round, Binary64.roundEven]

/-- The rest of a second, rounded, stays at least `2 ^ (-30)` below one. -/
theorem round_rest {n : ℕ} (h : n < 1000000000) :
    0 ≤ Binary64.round ((n : ℚ) / second) ∧
      Binary64.round ((n : ℚ) / second) ≤ (2 ^ 30 - 1 : ℤ) * 2 ^ (-30 : ℤ) := by
  have hsec : (second : ℚ) = 1000000000 := by norm_num [second]
  have hn : (n : ℚ) ≤ 999999999 := by exact_mod_cast (show n ≤ 999999999 by omega)
  refine ⟨Binary64.round_nonneg (by rw [hsec]; positivity), ?_⟩
  rcases Nat.eq_zero_or_pos n with rfl | hpos
  · simp [Binary64.round, Binary64.roundEven]
  · have hq : (0 : ℚ) < (n : ℚ) / second := by
      rw [hsec]; exact div_pos (by exact_mod_cast hpos) (by norm_num)
    refine Binary64.round_le_of_dvd hq ?_ ?_
    · rw [hsec, div_lt_iff₀ (by norm_num)]; norm_num; linarith
    · rw [hsec, div_le_iff₀ (by norm_num)]; norm_num; linarith

/-- **Whole seconds.**  Under `2 ^ 23` seconds the detour through a double loses nothing. -/
theorem wholeSeconds_eq {d : ℤ} (h : 0 ≤ d) (hd : d < 2 ^ 23 * second) :
    wholeSeconds d = d / second := by
  obtain ⟨s, n, rfl, hn, hs, hm⟩ := exists_split h
  have hs23 : s < 2 ^ 23 := by simp only [second] at hd; omega
  have hdiv : ((s : ℤ) * second + n) / second = s := by
    simp only [second]; omega
  have hrs : Binary64.round ((s : ℤ) : ℚ) = s := by
    simpa using Binary64.round_natCast (n := s) (by omega)
  have hrn : Binary64.round ((n : ℤ) : ℚ) = n := by
    simpa using Binary64.round_natCast (n := n) (by omega)
  obtain ⟨hx0, hx1⟩ := round_rest hn
  -- the sum lies between `s` and `s + 1 - 2 ^ (-30)`, and both ends are doubles
  have hval : (s : ℚ) ≤ seconds (s * second + n) ∧ seconds (s * second + n) < s + 1 := by
    rw [seconds, hs, hm, hrs, hrn]
    set x := Binary64.round ((n : ℚ) / second) with hx
    have hsq : (s : ℚ) ≤ 8388607 := by exact_mod_cast (show s ≤ 8388607 by omega)
    have hx1' : x ≤ 1073741823 / 1073741824 := by
      refine hx1.trans (le_of_eq ?_); norm_num
    rcases (add_nonneg (Nat.cast_nonneg s) hx0 : (0 : ℚ) ≤ s + x).eq_or_lt with h0 | hpos
    · have hs0 : (s : ℚ) = 0 := le_antisymm (by linarith) (Nat.cast_nonneg s)
      rw [← h0, hs0]
      simp [Binary64.round, Binary64.roundEven]
    · have hlt : (s : ℚ) + x < 2 ^ ((-30 : ℤ) + 53) := by
        norm_num
        linarith
      constructor
      · have := Binary64.le_round_of_dvd (k := s * 2 ^ 30) hpos hlt (by
          push_cast; norm_num; linarith)
        refine le_trans (le_of_eq ?_) this
        push_cast; norm_num; ring
      · have := Binary64.round_le_of_dvd (k := (s + 1) * 2 ^ 30 - 1) hpos hlt (by
          push_cast; norm_num; linarith)
        refine lt_of_le_of_lt this ?_
        push_cast; norm_num; linarith
  rw [wholeSeconds, truncate, if_pos (seconds_nonneg h), hdiv]
  exact Int.floor_eq_iff.2 ⟨by exact_mod_cast hval.1, by exact_mod_cast hval.2⟩

end Duration
end Mach402
