import Mathlib.Tactic.Common
import Mathlib.Data.Int.Notation

/-!
# Decimal numerals

An integer as a numeral, with an optional sign, and back.

* `Decimal.parse`: the number that a whole string is the numeral of;
* `Decimal.parse_toString`: printing and parsing is the identity.
-/

namespace Mach402
namespace Decimal

/-- The number that the digits are, if there are any and nothing else. -/
def digits (cs : List Char) : Option ℕ :=
  if cs ≠ [] ∧ cs.all Char.isDigit then some (Nat.ofDigitChars 10 cs 0) else none

/-- The number that the string is the numeral of. -/
def parse (s : String) : Option ℤ :=
  match s.toList with
  | '-' :: cs => (digits cs).map fun n : ℕ => -(n : ℤ)
  | '+' :: cs => (digits cs).map fun n : ℕ => (n : ℤ)
  | cs => (digits cs).map fun n : ℕ => (n : ℤ)

theorem digits_toDigits (n : ℕ) : digits (Nat.toDigits 10 n) = some n := by
  have hd : (Nat.toDigits 10 n).all Char.isDigit := by
    simpa using fun c hc => Nat.isDigit_of_mem_toDigits (by omega) (by omega) hc
  rw [digits, if_pos ⟨Nat.toDigits_ne_nil, hd⟩, Nat.ofDigitChars_ten_toDigits]

/-- A numeral without a sign. -/
theorem parse_of_digits {s : String} {n : ℕ} (h : digits s.toList = some n) :
    parse s = some (n : ℤ) := by
  have hd : s.toList.all Char.isDigit := by
    unfold digits at h
    split_ifs at h with hs
    exact hs.2
  unfold parse
  split
  · next cs hs => simp [hs] at hd
  · next cs hs => simp [hs] at hd
  · rw [h]
    rfl

/-- **A printed integer is parsed.** -/
theorem parse_toString (a : ℤ) : parse (toString a) = some a := by
  show parse a.repr = some a
  rw [Int.repr_eq_if]
  split_ifs with ha
  · rw [parse_of_digits (n := a.toNat) (by rw [Nat.toList_repr, digits_toDigits]),
      Int.toNat_of_nonneg ha]
  · have hs : ("-" ++ (-a).toNat.repr).toList = '-' :: Nat.toDigits 10 (-a).toNat := by
      rw [String.toList_append, Nat.toList_repr]
      rfl
    simp only [parse, hs, digits_toDigits, Option.map_some]
    rw [Int.toNat_of_nonneg (by omega), Int.neg_neg]

end Decimal
end Mach402
