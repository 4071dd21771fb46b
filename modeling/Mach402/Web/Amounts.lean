import Mach402.Library.Ecma
import Mach402.Library.Fraction

/-!
# Amounts on display

Tinybars are shown as HBAR in four places, by slicing a padded numeral or by division, and in a
short form where there is little room.

* `hbar`, `hbarShort`, `formatTinybars`, `formatHBAR`, `formatHBARBig`: the five functions;
* `padded_eq`: what the padded numeral consists of;
* `hbarShort_eq`: the two forms of a short amount;
* `shown_alike`: the four show one numeral, which is exact, and the short form never overstates it.
-/

namespace Mach402
namespace Amounts

open Decimal

/-! ### In the browser -/

/-- `padStart(9, "0")`. -/
def padded (tinybars : String) : List Char := tinybars.toList.leftpad 9 '0'

/-- `slice(0, -8)`. -/
def beforeEight (cs : List Char) : List Char := cs.take (cs.length - 8)

/-- `slice(-8)`. -/
def lastEight (cs : List Char) : List Char := cs.drop (cs.length - 8)

/-- An amount in HBAR, exact, without trailing zeros. -/
def hbar (tinybars : String) : String :=
  let whole := beforeEight (padded tinybars)
  let fraction := trimZeros (lastEight (padded tinybars))
  String.ofList (if fraction = [] then whole else whole ++ '.' :: fraction)

/-- `replace(/^0+(?=\d)/, "")`: zeros at the start, as far as a digit follows. -/
def dropLeadingZeros (cs : List Char) : List Char :=
  let rest := cs.dropWhile (· = '0')
  if rest.head?.any Char.isDigit || decide (cs.head? ≠ some '0') then rest else '0' :: rest

/-- `<0.0…01`: less than the last digit that is shown. -/
def belowBound (decimals : ℕ) : String :=
  String.ofList ("<0.".toList ++ List.replicate (decimals - 1) '0' ++ ['1'])

/-- An amount in HBAR, cut after some decimals. -/
def hbarShort (tinybars : String) (decimals : ℕ) : String :=
  let whole := dropLeadingZeros (beforeEight (padded tinybars))
  let fraction := trimZeros ((lastEight (padded tinybars)).take decimals)
  if fraction ≠ [] then String.ofList (whole ++ '.' :: fraction)
  else if whole ≠ ['0'] then String.ofList whole
  else if tinybars.toList.any fun c => decide ('1' ≤ c ∧ c ≤ '9') then belowBound decimals
  else "0"

/-! ### By division -/

/-- One HBAR. -/
def tinybarsPerHBAR : ℤ := 100000000

/-- `formatTinybars`, of what `BigInt` accepts. -/
def formatTinybars (tinybars : String) : Option String :=
  (Ecma.stringToBigInt tinybars).map fun value =>
    let whole := toString (value.tdiv tinybarsPerHBAR)
    let frac := trimZeros ((toString (value.tmod tinybarsPerHBAR)).toList.leftpad 8 '0')
    if 0 < frac.length then whole ++ "." ++ String.ofList frac ++ " HBAR" else whole ++ " HBAR"

/-- `%08d`.  A sign counts as a digit. -/
def sprintf08d (v : ℤ) : List Char :=
  if v < 0 then '-' :: (Nat.toDigits 10 v.natAbs).leftpad 7 '0'
  else (Nat.toDigits 10 v.natAbs).leftpad 8 '0'

/-- `formatHBAR` of the command line. -/
def formatHBAR (tinybars : ℤ) : String :=
  let whole := tinybars.tdiv tinybarsPerHBAR
  let frac := tinybars.tmod tinybarsPerHBAR
  if frac = 0 then toString whole ++ " HBAR"
  else toString whole ++ "." ++ String.ofList (trimZeros (sprintf08d frac)) ++ " HBAR"

/-- `formatHBARBig` of the dashboard. -/
def formatHBARBig (tinybars : ℤ) : String :=
  let whole := tinybars.tdiv tinybarsPerHBAR
  let frac := tinybars.tmod tinybarsPerHBAR
  if frac = 0 then toString whole ++ " HBAR"
  else toString whole ++ "." ++ String.ofList (trimZeros (sprintf08d frac.natAbs)) ++ " HBAR"

/-! ### The numeral -/

section Numeral

variable {n d : ℕ}

/-- **The padded numeral** is the numeral of the whole part, and eight digits. -/
theorem padded_eq (n : ℕ) :
    padded (toString n) = Nat.toDigits 10 (n / 10 ^ 8) ++ places 8 (n % 10 ^ 8) := by
  have hdigits : (toString n).toList = Nat.toDigits 10 n := Nat.toList_repr
  have hrest : n % 10 ^ 8 < 10 ^ 8 := Nat.mod_lt n (by norm_num)
  rw [padded, hdigits]
  by_cases hn : n < 10 ^ 8
  · rw [leftpad_toDigits (by omega), show 8 + 1 = 1 + 8 from rfl, places_add, Nat.div_eq_of_lt hn,
      Nat.mod_eq_of_lt hn]
    rfl
  · have hsplit : n = n / 10 ^ 8 * 10 ^ 8 + n % 10 ^ 8 := by omega
    have hnumeral : Nat.toDigits 10 n = Nat.toDigits 10 (n / 10 ^ 8) ++ places 8 (n % 10 ^ 8) := by
      conv_lhs => rw [hsplit]
      exact toDigits_eq (by omega) hrest
    have hlong : 9 ≤ (Nat.toDigits 10 n).length := by
      have hwhole : 0 < (Nat.toDigits 10 (n / 10 ^ 8)).length := Nat.length_toDigits_pos
      rw [hnumeral, List.length_append, length_places]
      omega
    rw [List.leftpad, Nat.sub_eq_zero_of_le hlong, hnumeral]
    rfl

theorem beforeEight_padded (n : ℕ) :
    beforeEight (padded (toString n)) = Nat.toDigits 10 (n / 10 ^ 8) := by
  rw [padded_eq, beforeEight, List.length_append, length_places, Nat.add_sub_cancel,
    List.take_left]

theorem lastEight_padded (n : ℕ) : lastEight (padded (toString n)) = places 8 (n % 10 ^ 8) := by
  rw [padded_eq, lastEight, List.length_append, length_places, Nat.add_sub_cancel,
    List.drop_left]

theorem hbar_eq (n : ℕ) :
    hbar (toString n) = String.ofList (mixed (n / 10 ^ 8) 8 (n % 10 ^ 8)) := by
  rw [hbar, beforeEight_padded, lastEight_padded, mixed]

/-- A numeral has no zeros to drop. -/
theorem dropLeadingZeros_toDigits (w : ℕ) :
    dropLeadingZeros (Nat.toDigits 10 w) = Nat.toDigits 10 w := by
  by_cases hw : 0 < w
  · obtain ⟨c, cs, hhead, hlow, hhigh⟩ := toDigits_head hw
    have hzero : c ≠ '0' := by
      rintro rfl
      exact absurd hlow (by decide)
    have hdigit : c.isDigit = true :=
      Nat.isDigit_of_mem_toDigits (b := 10) (n := w) (by omega) (by omega)
        (by rw [hhead]; exact List.mem_cons_self)
    rw [hhead, dropLeadingZeros, List.dropWhile_cons_of_neg (by simpa using hzero)]
    simp only [List.head?_cons, Option.any_some, hdigit, Bool.true_or, if_true]
  · obtain rfl : w = 0 := by omega
    rfl

/-- A digit other than zero is in every numeral but that of zero. -/
theorem any_toDigits (n : ℕ) :
    ((Nat.toDigits 10 n).any fun c => decide ('1' ≤ c ∧ c ≤ '9')) = decide (0 < n) := by
  by_cases hn : 0 < n
  · obtain ⟨c, cs, hhead, hc⟩ := toDigits_head hn
    rw [hhead, List.any_cons, decide_eq_true hc, decide_eq_true hn, Bool.true_or]
  · obtain rfl : n = 0 := by omega
    decide

theorem toDigits_eq_zero (w : ℕ) : Nat.toDigits 10 w = ['0'] ↔ w = 0 := by
  constructor
  · intro h
    have hnumber := Nat.ofDigitChars_ten_toDigits (n := w)
    rw [h] at hnumber
    exact hnumber.symm
  · rintro rfl
    rfl

/-- What is cut off is all there is just if the whole part and the digits shown are zero. -/
theorem below_iff (n d : ℕ) :
    n < 10 ^ (8 - d) ↔ n / 10 ^ 8 = 0 ∧ n % 10 ^ 8 / 10 ^ (8 - d) = 0 := by
  have hle : 10 ^ (8 - d) ≤ 10 ^ 8 := Nat.pow_le_pow_right (by omega) (by omega)
  rw [Nat.div_eq_zero_iff_lt (by norm_num), Nat.div_eq_zero_iff_lt (Nat.pow_pos (by omega))]
  constructor
  · intro hlt
    exact ⟨by omega, by rwa [Nat.mod_eq_of_lt (by omega)]⟩
  · rintro ⟨hsmall, hlt⟩
    rwa [Nat.mod_eq_of_lt hsmall] at hlt

theorem cut_lt (n : ℕ) (hd : d ≤ 8) : n % 10 ^ 8 / 10 ^ (8 - d) < 10 ^ d := by
  rw [Nat.div_lt_iff_lt_mul (Nat.pow_pos (by omega)), Nat.mul_comm, ← pow_add,
    Nat.sub_add_cancel hd]
  exact Nat.mod_lt n (by norm_num)

/-- **The short form** is a numeral that is cut, or a bound. -/
theorem hbarShort_eq (n : ℕ) (hd : d ≤ 8) : hbarShort (toString n) d =
    if 0 < n ∧ n < 10 ^ (8 - d) then belowBound d
    else String.ofList (mixed (n / 10 ^ 8) d (n % 10 ^ 8 / 10 ^ (8 - d))) := by
  have hplaces : (places 8 (n % 10 ^ 8)).take d = places d (n % 10 ^ 8 / 10 ^ (8 - d)) := by
    rw [show 8 = d + (8 - d) by omega, places_add, List.take_left' (length_places d _),
      Nat.add_sub_cancel_left]
  have hnil := trimZeros_eq_nil (cut_lt n hd)
  have hany : ((toString n).toList.any fun c => decide ('1' ≤ c ∧ c ≤ '9')) = decide (0 < n) := by
    rw [show (toString n).toList = Nat.toDigits 10 n from Nat.toList_repr, any_toDigits]
  have hbelow := below_iff n d
  rw [hbarShort, beforeEight_padded, lastEight_padded, dropLeadingZeros_toDigits, hplaces, mixed]
  by_cases hfraction : trimZeros (places d (n % 10 ^ 8 / 10 ^ (8 - d))) = []
  · have hzero := hnil.mp hfraction
    rw [if_neg (not_not.mpr hfraction), if_pos hfraction, hany]
    by_cases hwhole : n / 10 ^ 8 = 0
    · have hlt := hbelow.mpr ⟨hwhole, hzero⟩
      rw [if_neg (not_not.mpr ((toDigits_eq_zero _).mpr hwhole)), hwhole]
      by_cases hn : 0 < n
      · rw [if_pos (decide_eq_true hn), if_pos ⟨hn, hlt⟩]
      · rw [if_neg (by simpa using hn), if_neg fun h => hn h.1]
        rfl
    · rw [if_pos fun h => hwhole ((toDigits_eq_zero _).mp h),
        if_neg fun h => hwhole (hbelow.mp h.2).1]
  · have hlarge : ¬ (0 < n ∧ n < 10 ^ (8 - d)) := by
      rintro ⟨-, hlt⟩
      exact hfraction (hnil.mpr (hbelow.mp hlt).2)
    rw [if_neg hlarge]
    simp only [ne_eq, hfraction, not_false_eq_true, if_true, if_false]

/-! ### By division -/

theorem tdiv_natCast (n : ℕ) : (n : ℤ).tdiv tinybarsPerHBAR = (n / 10 ^ 8 : ℕ) := by
  rw [tinybarsPerHBAR, Int.tdiv_eq_ediv_of_nonneg (by omega)]
  omega

theorem tmod_natCast (n : ℕ) : (n : ℤ).tmod tinybarsPerHBAR = (n % 10 ^ 8 : ℕ) := by
  rw [tinybarsPerHBAR, Int.tmod_eq_emod_of_nonneg (by omega)]
  omega

/-- A numeral with its unit. -/
theorem mixed_append (w : ℕ) {f : ℕ} (hf : f < 10 ^ 8) :
    (if f = 0 then toString w ++ " HBAR"
      else toString w ++ "." ++ String.ofList (trimZeros (places 8 f)) ++ " HBAR") =
      String.ofList (mixed w 8 f) ++ " HBAR" := by
  have hwhole : (toString w).toList = Nat.toDigits 10 w := Nat.toList_repr
  have hnil := trimZeros_eq_nil hf
  apply String.toList_inj.mp
  by_cases hzero : f = 0
  · rw [if_pos hzero, mixed, if_pos (hnil.mpr hzero)]
    simp only [String.toList_append, String.toList_ofList, hwhole]
  · rw [if_neg hzero, mixed, if_neg fun h => hzero (hnil.mp h)]
    simp only [String.toList_append, String.toList_ofList, hwhole, List.append_assoc]
    rfl

theorem formatTinybars_eq (n : ℕ) : formatTinybars (toString n) =
    some (String.ofList (mixed (n / 10 ^ 8) 8 (n % 10 ^ 8)) ++ " HBAR") := by
  have hf : n % 10 ^ 8 < 10 ^ 8 := Nat.mod_lt n (by norm_num)
  have hfrac : (toString ((n % 10 ^ 8 : ℕ) : ℤ)).toList.leftpad 8 '0' = places 8 (n % 10 ^ 8) := by
    rw [show (toString ((n % 10 ^ 8 : ℕ) : ℤ)).toList = Nat.toDigits 10 (n % 10 ^ 8) from
      Nat.toList_repr]
    exact leftpad_toDigits hf
  have hlength : 0 < (trimZeros (places 8 (n % 10 ^ 8))).length ↔ ¬ n % 10 ^ 8 = 0 := by
    rw [List.length_pos_iff, ne_eq, trimZeros_eq_nil hf]
  rw [← mixed_append (n / 10 ^ 8) hf, formatTinybars, Ecma.stringToBigInt_toString,
    Option.map_some, tdiv_natCast, tmod_natCast, hfrac]
  by_cases hzero : n % 10 ^ 8 = 0
  · rw [if_pos hzero]
    simp only [if_neg fun h => hlength.mp h hzero]
    rfl
  · rw [if_neg hzero]
    simp only [if_pos (hlength.mpr hzero)]
    rfl

theorem sprintf08d_natCast {f : ℕ} (hf : f < 10 ^ 8) : sprintf08d (f : ℤ) = places 8 f := by
  rw [sprintf08d, if_neg (by omega), Int.natAbs_natCast]
  exact leftpad_toDigits hf

theorem formatHBAR_eq (n : ℕ) :
    formatHBAR n = String.ofList (mixed (n / 10 ^ 8) 8 (n % 10 ^ 8)) ++ " HBAR" := by
  have hf : n % 10 ^ 8 < 10 ^ 8 := Nat.mod_lt n (by norm_num)
  rw [← mixed_append (n / 10 ^ 8) hf, formatHBAR, tdiv_natCast, tmod_natCast, sprintf08d_natCast hf]
  simp only [Int.natCast_eq_zero]
  rfl

theorem formatHBARBig_eq (n : ℕ) :
    formatHBARBig n = String.ofList (mixed (n / 10 ^ 8) 8 (n % 10 ^ 8)) ++ " HBAR" := by
  have hf : n % 10 ^ 8 < 10 ^ 8 := Nat.mod_lt n (by norm_num)
  rw [← mixed_append (n / 10 ^ 8) hf, formatHBARBig, tdiv_natCast, tmod_natCast,
    Int.natAbs_natCast, sprintf08d_natCast hf]
  simp only [Int.natCast_eq_zero]
  rfl

/-! ### What is shown -/

theorem lt_bound_iff (hd : d ≤ 8) : (n : ℚ) / 10 ^ 8 < 1 / 10 ^ d ↔ n < 10 ^ (8 - d) := by
  have height : (10 : ℚ) ^ 8 = 10 ^ d * 10 ^ (8 - d) := by
    rw [← pow_add, Nat.add_sub_cancel' hd]
  have hdigit : (0 : ℚ) < 10 ^ d := by positivity
  rw [div_lt_div_iff₀ (by norm_num) hdigit, one_mul, height, mul_comm, mul_lt_mul_iff_right₀ hdigit]
  exact_mod_cast Iff.rfl

/-- What is cut off is less than the last digit that is shown. -/
theorem cut_bounds (n : ℕ) (hd : d ≤ 8) :
    ((n / 10 ^ 8 : ℕ) : ℚ) + ((n % 10 ^ 8 / 10 ^ (8 - d) : ℕ) : ℚ) / 10 ^ d ≤ n / 10 ^ 8 ∧
      (n : ℚ) / 10 ^ 8 - (((n / 10 ^ 8 : ℕ) : ℚ) +
        ((n % 10 ^ 8 / 10 ^ (8 - d) : ℕ) : ℚ) / 10 ^ d) < 1 / 10 ^ d := by
  have height : (10 : ℚ) ^ 8 = 10 ^ d * 10 ^ (8 - d) := by
    rw [← pow_add, Nat.add_sub_cancel' hd]
  have hdigit : (0 : ℚ) < 10 ^ d := by positivity
  have hcut : (0 : ℚ) < 10 ^ (8 - d) := by positivity
  have hrest : n % 10 ^ 8 % 10 ^ (8 - d) < 10 ^ (8 - d) := Nat.mod_lt _ (Nat.pow_pos (by omega))
  have hsplit : n = 10 ^ 8 * (n / 10 ^ 8) + (10 ^ (8 - d) * (n % 10 ^ 8 / 10 ^ (8 - d)) +
      n % 10 ^ 8 % 10 ^ (8 - d)) := by
    rw [Nat.div_add_mod, Nat.div_add_mod]
  generalize n / 10 ^ 8 = w at *
  generalize n % 10 ^ 8 / 10 ^ (8 - d) = q at *
  generalize n % 10 ^ 8 % 10 ^ (8 - d) = r at *
  have hrestQ : (r : ℚ) < 10 ^ (8 - d) := by exact_mod_cast hrest
  have hvalue : (n : ℚ) / 10 ^ 8 = w + q / 10 ^ d + r / 10 ^ 8 := by
    have hsplitQ : (n : ℚ) = 10 ^ 8 * w + (10 ^ (8 - d) * q + r) := by exact_mod_cast hsplit
    rw [hsplitQ, height]
    field_simp
    ring
  have hsmall : (r : ℚ) / 10 ^ 8 < 1 / 10 ^ d := by
    rw [height, ← div_div, div_lt_iff₀ hcut, div_mul_eq_mul_div, one_mul,
      div_lt_div_iff_of_pos_right hdigit]
    exact hrestQ
  have hnonneg : 0 ≤ (r : ℚ) / 10 ^ 8 := div_nonneg (Nat.cast_nonneg r) (by norm_num)
  rw [hvalue]
  constructor <;> linarith

/-- The bound is a numeral behind its sign. -/
theorem toList_belowBound (d : ℕ) :
    (belowBound d).toList = "<0.".toList ++ List.replicate (d - 1) '0' ++ ['1'] :=
  String.toList_ofList

theorem belowBound_eq (hd : 1 ≤ d) : (belowBound d).toList = '<' :: mixed 0 d 1 := by
  obtain ⟨k, rfl⟩ : ∃ k, d = k + 1 := ⟨d - 1, by omega⟩
  have hplaces : places (k + 1) 1 = List.replicate k '0' ++ ['1'] := by
    rw [places, show 1 / 10 = 0 from rfl, places_zero]
    rfl
  have htrim : trimZeros (places (k + 1) 1) = List.replicate k '0' ++ ['1'] := by
    rw [hplaces, trimZeros, List.rdropWhile_concat_neg _ _ _ (by decide)]
  rw [mixed, htrim, if_neg (by simp), toList_belowBound, Nat.add_sub_cancel]
  rfl

theorem value_belowBound (d : ℕ) : value (belowBound d).toList = none := by
  have hsign : ∀ cs : List Char, value ('<' :: '0' :: '.' :: cs) = none := by
    intro cs
    rfl
  rw [toList_belowBound]
  exact hsign _

end Numeral

/-- **Amounts are shown exactly and alike**: the four show one numeral, and it is exact.  The short
form is that of an amount that is no larger, and too small by less than its last digit; it is zero
for zero only, and a bound for what is positive and below it. -/
theorem shown_alike (n : ℕ) :
    (∃ numeral : String, hbar (toString n) = numeral ∧
      formatTinybars (toString n) = some (numeral ++ " HBAR") ∧
      formatHBAR n = numeral ++ " HBAR" ∧ formatHBARBig n = numeral ++ " HBAR" ∧
      value numeral.toList = some (n / 10 ^ 8 : ℚ)) ∧
    ∀ d, 1 ≤ d → d ≤ 8 →
      (hbarShort (toString n) d = "0" → n = 0) ∧
      value (belowBound d).toList.tail = some (1 / 10 ^ d : ℚ) ∧
      (hbarShort (toString n) d = belowBound d →
        (0 : ℚ) < n / 10 ^ 8 ∧ (n : ℚ) / 10 ^ 8 < 1 / 10 ^ d) ∧
      (hbarShort (toString n) d ≠ belowBound d →
        ∃ v, value (hbarShort (toString n) d).toList = some v ∧ v ≤ n / 10 ^ 8 ∧
          n / 10 ^ 8 - v < 1 / 10 ^ d) := by
  refine ⟨⟨hbar (toString n), rfl, ?_, ?_, ?_, ?_⟩, fun d hd hd' => ?_⟩
  · rw [hbar_eq, formatTinybars_eq]
  · rw [hbar_eq, formatHBAR_eq]
  · rw [hbar_eq, formatHBARBig_eq]
  · have hsplit : (n : ℚ) = ((n / 10 ^ 8 : ℕ) : ℚ) * 10 ^ 8 + ((n % 10 ^ 8 : ℕ) : ℚ) := by
      have hn : n = n / 10 ^ 8 * 10 ^ 8 + n % 10 ^ 8 := by omega
      exact_mod_cast hn
    rw [hbar_eq, String.toList_ofList, value_mixed (Nat.mod_lt n (by norm_num)), hsplit, add_div,
      mul_div_cancel_right₀ _ (by norm_num)]
  · have hshort := hbarShort_eq n hd'
    have hmixed := value_mixed (w := n / 10 ^ 8) (cut_lt n hd')
    refine ⟨fun hzero => ?_, ?_, fun hbound => ?_, fun hne => ?_⟩
    · rw [hzero] at hshort
      split at hshort
      case isTrue =>
        have hsome := value_belowBound d
        rw [← hshort] at hsome
        cases hsome
      case isFalse hlarge =>
        have hvalue := congrArg (fun s : String => value s.toList) hshort
        simp only [String.toList_ofList, hmixed] at hvalue
        have hnothing : value "0".toList = some (0 : ℕ) := rfl
        obtain ⟨-, hcut⟩ := cut_bounds n hd'
        rw [← Option.some.inj (hnothing.symm.trans hvalue), Nat.cast_zero, sub_zero,
          lt_bound_iff hd'] at hcut
        omega
    · rw [belowBound_eq hd, List.tail_cons, value_mixed (Nat.one_lt_pow (by omega) (by omega))]
      norm_num
    · rw [hbound] at hshort
      split at hshort
      case isTrue hsmall =>
        have hpos : (0 : ℚ) < n := by exact_mod_cast hsmall.1
        exact ⟨div_pos hpos (by norm_num), (lt_bound_iff hd').mpr hsmall.2⟩
      case isFalse =>
        have hnone := value_belowBound d
        rw [hshort, String.toList_ofList, hmixed] at hnone
        cases hnone
    · split at hshort
      case isTrue => exact absurd hshort hne
      case isFalse =>
        rw [hshort, String.toList_ofList]
        exact ⟨_, hmixed, cut_bounds n hd'⟩

/-- 0.010002 HBAR to four places. -/
theorem shown_short : ∃ v : ℚ, value (hbarShort (toString 1000200) 4).toList = some v ∧
    v ≤ (1000200 : ℕ) / 10 ^ 8 ∧ ((1000200 : ℕ) : ℚ) / 10 ^ 8 - v < 1 / 10 ^ 4 :=
  ((shown_alike 1000200).2 4 (by decide) (by decide)).2.2.2 (by decide +kernel)

end Amounts
end Mach402
