import Mach402.Library.Decimal
import Mathlib.Data.List.DropRight
import Mathlib.Tactic.FieldSimp
import Mathlib.Tactic.Linarith
import Mathlib.Tactic.Positivity
import Mathlib.Tactic.Ring
import Mathlib.Algebra.Order.Field.Rat

/-!
# Decimal fractions

* `places`: so many digits of a number; `toDigits_eq`, `leftpad_toDigits`: the numeral of a number
  that has more digits, and of one that has fewer and is padded with zeros;
* `value`: the rational number that a numeral stands for, with a point or without;
* `mixed`, `value_mixed`: a whole number and a fraction as a numeral without zeros at its end, and
  what it stands for.
-/

namespace Mach402
namespace Decimal

variable {n w f k : ℕ} {cs : List Char}

/-! ### Digits -/

/-- The lowest digits of a number. -/
def places : ℕ → ℕ → List Char
  | 0, _ => []
  | k + 1, n => places k (n / 10) ++ [(n % 10).digitChar]

@[simp] theorem length_places (k n : ℕ) : (places k n).length = k := by
  induction k generalizing n with
  | zero => rfl
  | succ k ih => rw [places, List.length_append, ih, List.length_singleton]

theorem places_zero (k : ℕ) : places k 0 = List.replicate k '0' := by
  induction k with
  | zero => rfl
  | succ k ih =>
    rw [places, Nat.zero_div, ih, List.replicate_succ']
    rfl

theorem isDigit_of_mem_places {c : Char} (h : c ∈ places k n) : c.isDigit = true := by
  induction k generalizing n with
  | zero => cases h
  | succ k ih =>
    rw [places] at h
    rcases List.mem_append.mp h with h | h
    · exact ih h
    · rw [List.mem_singleton] at h
      have hdigit : (n % 10).digitChar ∈ Nat.toDigits 10 (n % 10) := by
        rw [Nat.toDigits_of_lt_base (by omega)]
        exact List.mem_cons_self
      rw [h]
      exact Nat.isDigit_of_mem_toDigits (by omega) (by omega) hdigit

/-- Below the highest digits stand the lowest. -/
theorem places_add (j k n : ℕ) : places (j + k) n = places j (n / 10 ^ k) ++ places k n := by
  induction k generalizing n with
  | zero => rw [pow_zero, Nat.div_one, places, List.append_nil, Nat.add_zero]
  | succ k ih =>
    rw [← Nat.add_assoc, places, ih, places, Nat.div_div_eq_div_mul, ← pow_succ',
      List.append_assoc]

/-- One more digit. -/
theorem toDigits_concat {m d : ℕ} (hm : 0 < m) (hd : d < 10) :
    Nat.toDigits 10 (10 * m + d) = Nat.toDigits 10 m ++ [d.digitChar] := by
  rw [← Nat.toDigits_append_toDigits (by omega) hm hd, Nat.toDigits_of_lt_base hd]

/-- A numeral ends in the digits of what is below its whole part. -/
theorem toDigits_eq (hw : 0 < w) (hf : f < 10 ^ k) :
    Nat.toDigits 10 (w * 10 ^ k + f) = Nat.toDigits 10 w ++ places k f := by
  induction k generalizing f with
  | zero =>
    obtain rfl : f = 0 := by simpa using hf
    rw [pow_zero, Nat.mul_one, Nat.add_zero, places, List.append_nil]
  | succ k ih =>
    have hhigh : f / 10 < 10 ^ k := by
      rw [pow_succ] at hf
      omega
    have hpos : 0 < w * 10 ^ k + f / 10 := by
      have hwhole : 0 < w * 10 ^ k := Nat.mul_pos hw (Nat.pow_pos (by omega))
      omega
    have hsplit : w * 10 ^ (k + 1) + f = 10 * (w * 10 ^ k + f / 10) + f % 10 := by
      rw [pow_succ, ← Nat.mul_assoc]
      omega
    rw [hsplit, toDigits_concat hpos (by omega), ih hhigh, places, List.append_assoc]

/-- A numeral that is padded with zeros. -/
theorem leftpad_toDigits (hn : n < 10 ^ (k + 1)) :
    (Nat.toDigits 10 n).leftpad (k + 1) '0' = places (k + 1) n := by
  induction k generalizing n with
  | zero =>
    have hlt : n < 10 := by simpa using hn
    rw [Nat.toDigits_of_lt_base hlt, places, places, Nat.mod_eq_of_lt hlt]
    rfl
  | succ k ih =>
    by_cases hlt : n < 10
    · rw [Nat.toDigits_of_lt_base hlt, places, Nat.div_eq_of_lt hlt, places_zero,
        Nat.mod_eq_of_lt hlt]
      rfl
    · have hsplit : n = 10 * (n / 10) + n % 10 := by omega
      have hdigits : Nat.toDigits 10 n = Nat.toDigits 10 (n / 10) ++ [(n % 10).digitChar] := by
        conv_lhs => rw [hsplit]
        exact toDigits_concat (by omega) (by omega)
      have hhigh : n / 10 < 10 ^ (k + 1) := by
        rw [pow_succ] at hn
        omega
      have hpad : ∀ cs : List Char, ∀ c, (cs ++ [c]).leftpad (k + 1 + 1) '0' =
          cs.leftpad (k + 1) '0' ++ [c] := by
        intro cs c
        rw [List.leftpad, List.leftpad, List.length_append, List.length_singleton,
          Nat.add_sub_add_right, List.append_assoc]
      rw [hdigits, hpad, ih hhigh]
      rfl

/-- No numeral but that of zero begins with a zero. -/
theorem toDigits_head (hw : 0 < w) : ∃ c cs, Nat.toDigits 10 w = c :: cs ∧ '1' ≤ c ∧ c ≤ '9' := by
  induction w using Nat.strongRecOn with
  | ind w ih =>
    by_cases hlt : w < 10
    · rw [Nat.toDigits_of_lt_base hlt]
      have hdigit : ∀ m < 10, 0 < m → '1' ≤ m.digitChar ∧ m.digitChar ≤ '9' := by decide
      exact ⟨_, _, rfl, hdigit w hlt hw⟩
    · obtain ⟨c, cs, hhead, hc⟩ := ih (w / 10) (by omega) (by omega)
      have hsplit : w = 10 * (w / 10) + w % 10 := by omega
      refine ⟨c, cs ++ [(w % 10).digitChar], ?_, hc⟩
      conv_lhs => rw [hsplit]
      rw [toDigits_concat (by omega) (by omega), hhead, List.cons_append]

theorem ofDigitChars_places (hn : n < 10 ^ k) : Nat.ofDigitChars 10 (places k n) 0 = n := by
  induction k generalizing n with
  | zero =>
    obtain rfl : n = 0 := by simpa using hn
    rfl
  | succ k ih =>
    have hhigh : n / 10 < 10 ^ k := by
      rw [pow_succ] at hn
      omega
    rw [places, Nat.ofDigitChars_append, ih hhigh,
      Nat.ofDigitChars_cons_digitChar_of_lt_ten (by omega), Nat.ofDigitChars_nil]
    omega

/-! ### Numerals with a point -/

/-- What digits behind a point stand for. -/
def fraction (cs : List Char) : ℚ := Nat.ofDigitChars 10 cs 0 / 10 ^ cs.length

/-- The number that a numeral stands for: digits, or digits on both sides of a point. -/
def value (cs : List Char) : Option ℚ :=
  match cs.dropWhile (· ≠ '.') with
  | [] => (digits cs).map fun n => (n : ℚ)
  | _ :: behind =>
    match digits (cs.takeWhile (· ≠ '.')), digits behind with
    | some n, some _ => some (n + fraction behind)
    | _, _ => none

/-- Without the zeros at the end. -/
def trimZeros (cs : List Char) : List Char := cs.rdropWhile (· = '0')

theorem fraction_places (hn : n < 10 ^ k) : fraction (places k n) = n / 10 ^ k := by
  rw [fraction, ofDigitChars_places hn, length_places]

theorem append_trimZeros (cs : List Char) :
    cs = trimZeros cs ++ List.replicate (cs.length - (trimZeros cs).length) '0' := by
  have hsplit := List.rdropWhile_append_rtakeWhile (p := fun c : Char => decide (c = '0')) (l := cs)
  have hzeros : ∀ c ∈ cs.rtakeWhile (· = '0'), c = '0' := by
    intro c hc
    simpa using List.mem_rtakeWhile_imp hc
  have hlength := congrArg List.length hsplit
  rw [List.length_append] at hlength
  rw [trimZeros]
  conv_lhs => rw [← hsplit]
  rw [List.eq_replicate_of_mem hzeros]
  congr 2
  omega

/-- Zeros at the end change nothing. -/
theorem fraction_trimZeros (cs : List Char) : fraction (trimZeros cs) = fraction cs := by
  generalize hj : cs.length - (trimZeros cs).length = j
  have hcs := append_trimZeros cs
  rw [hj] at hcs
  have hpos : (10 : ℚ) ^ j ≠ 0 := pow_ne_zero j (by norm_num)
  have hten : (10 : ℚ) ^ (trimZeros cs).length ≠ 0 := pow_ne_zero _ (by norm_num)
  generalize trimZeros cs = ts at hcs hten
  rw [hcs, fraction, fraction, Nat.ofDigitChars_append, Nat.ofDigitChars_replicate_zero,
    List.length_append, List.length_replicate, pow_add, Nat.cast_mul, Nat.cast_pow]
  field_simp
  norm_num

/-- There are only zeros behind the point just if nothing is. -/
theorem trimZeros_eq_nil (hf : f < 10 ^ k) : trimZeros (places k f) = [] ↔ f = 0 := by
  constructor
  · intro hnil
    have hfraction := fraction_trimZeros (places k f)
    have hpos : (10 : ℚ) ^ k ≠ 0 := pow_ne_zero k (by norm_num)
    rw [fraction_places hf, hnil, fraction, Nat.ofDigitChars_nil, Nat.cast_zero, zero_div, eq_comm,
      div_eq_zero_iff] at hfraction
    rcases hfraction with hzero | hzero
    · exact_mod_cast hzero
    · exact absurd hzero hpos
  · rintro rfl
    rw [places_zero]
    exact List.rdropWhile_eq_nil_iff.mpr fun c hc => decide_eq_true (List.eq_of_mem_replicate hc)

/-- A whole number, and so many digits behind the point, as far as they are needed. -/
def mixed (w k f : ℕ) : List Char :=
  let behind := trimZeros (places k f)
  if behind = [] then Nat.toDigits 10 w else Nat.toDigits 10 w ++ '.' :: behind

theorem digits_eq {cs : List Char} (hne : cs ≠ []) (h : ∀ c ∈ cs, c.isDigit = true) :
    digits cs = some (Nat.ofDigitChars 10 cs 0) := by
  rw [digits, if_pos ⟨hne, List.all_eq_true.mpr h⟩]

theorem ne_point {c : Char} (h : c.isDigit = true) : c ≠ '.' := by
  rintro rfl
  cases h

theorem isDigit_of_mem_trimZeros {c : Char} (h : c ∈ trimZeros (places k f)) :
    c.isDigit = true :=
  isDigit_of_mem_places ((List.rdropWhile_prefix _ _).subset h)

/-- **What the numeral stands for.** -/
theorem value_mixed (hf : f < 10 ^ k) : value (mixed w k f) = some (w + f / 10 ^ k : ℚ) := by
  have hwhole : ∀ c ∈ Nat.toDigits 10 w, decide (c ≠ '.') = true := by
    intro c hc
    exact decide_eq_true (ne_point (Nat.isDigit_of_mem_toDigits (by omega) (by omega) hc))
  have hfraction := fraction_trimZeros (places k f)
  rw [fraction_places hf] at hfraction
  rw [mixed]
  by_cases hnil : trimZeros (places k f) = []
  · rw [if_pos hnil, value]
    rw [hnil] at hfraction
    have hdrop : (Nat.toDigits 10 w).dropWhile (· ≠ '.') = [] :=
      List.dropWhile_eq_nil_iff.mpr hwhole
    rw [hdrop]
    simp only [digits_toDigits, ← hfraction, fraction, Nat.ofDigitChars_nil]
    norm_num
  · have hbehind := digits_eq hnil fun c hc => isDigit_of_mem_trimZeros hc
    have hdrop : (Nat.toDigits 10 w ++ '.' :: trimZeros (places k f)).dropWhile (· ≠ '.') =
        '.' :: trimZeros (places k f) := by
      rw [List.dropWhile_append_of_pos hwhole, List.dropWhile_cons_of_neg (by decide)]
    have htake : (Nat.toDigits 10 w ++ '.' :: trimZeros (places k f)).takeWhile (· ≠ '.') =
        Nat.toDigits 10 w := by
      rw [List.takeWhile_append_of_pos hwhole, List.takeWhile_cons_of_neg (by decide),
        List.append_nil]
    rw [if_neg hnil, value, hdrop, htake]
    simp only [digits_toDigits, hbehind, hfraction]

end Decimal
end Mach402
