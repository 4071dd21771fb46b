import Mach402.Library.Decimal
import Mach402.Library.Search
import Mathlib.Data.Rat.Defs

/-!
# Values of ECMAScript

What `JSON.parse` returns, and what is read from it: a property, an index, and `BigInt` of it.

* `Value.get`, `Value.first`: a property, and the element at index 0; `none` is `undefined`;
* `stringToBigInt`: the integers that a string denotes to `BigInt`;
* `Value.bigInt`: `BigInt` of a value; `none` if it throws.
-/

namespace Mach402
namespace Ecma

/-- A value without functions, `undefined` and cycles. -/
inductive Value
  | null
  | boolean (b : Bool)
  /-- A finite double is a rational number. -/
  | number (n : ℚ)
  | string (s : String)
  | array (vs : List Value)
  | object (members : List (String × Value))

/-- White space and the ends of lines. -/
def isSpace (c : Char) : Bool :=
  c.toNat ∈ [9, 10, 11, 12, 13, 32, 160, 5760, 8232, 8233, 8239, 8287, 12288, 65279] ||
    (8192 ≤ c.toNat && c.toNat ≤ 8202)

/-- Without the white space around it. -/
def trim (cs : List Char) : List Char :=
  ((cs.dropWhile isSpace).reverse.dropWhile isSpace).reverse

/-- The value of a digit; 36 and more if it is none. -/
def digitValue (c : Char) : ℕ :=
  if '0' ≤ c ∧ c ≤ '9' then c.toNat - 48
  else if 'a' ≤ c ∧ c ≤ 'z' then c.toNat - 87
  else if 'A' ≤ c ∧ c ≤ 'Z' then c.toNat - 55
  else 36

/-- The number that some digits denote. -/
def ofDigits (base : ℕ) (cs : List Char) : Option ℤ :=
  if cs ≠ [] ∧ cs.all fun c => digitValue c < base then
    some (cs.foldl (fun n c => base * n + digitValue c) 0 : ℕ)
  else none

/-- The integer that a string denotes: a decimal numeral with or without a sign, or another one
with its prefix.  The empty string denotes zero. -/
def charsToBigInt : List Char → Option ℤ
  | [] => some 0
  | '0' :: 'x' :: cs | '0' :: 'X' :: cs => ofDigits 16 cs
  | '0' :: 'o' :: cs | '0' :: 'O' :: cs => ofDigits 8 cs
  | '0' :: 'b' :: cs | '0' :: 'B' :: cs => ofDigits 2 cs
  | '-' :: cs => (Decimal.digits cs).map fun n : ℕ => -(n : ℤ)
  | '+' :: cs => (Decimal.digits cs).map fun n : ℕ => (n : ℤ)
  | cs => (Decimal.digits cs).map fun n : ℕ => (n : ℤ)

/-- `BigInt(s)` of a string. -/
def stringToBigInt (s : String) : Option ℤ := charsToBigInt (trim s.toList)

theorem isSpace_of_isDigit {c : Char} (h : c.isDigit = true) : isSpace c = false := by
  simp only [Char.isDigit, Bool.and_eq_true, decide_eq_true_eq] at h
  have hlow : 48 ≤ c.toNat := h.1
  have hhigh : c.toNat ≤ 57 := h.2
  rw [Bool.eq_false_iff]
  intro hspace
  simp only [isSpace, Bool.or_eq_true, Bool.and_eq_true, decide_eq_true_eq, List.mem_cons,
    List.not_mem_nil, or_false] at hspace
  omega

theorem trim_eq_self {cs : List Char} (h : ∀ c ∈ cs, isSpace c = false) : trim cs = cs := by
  apply Search.strip_eq_self
  · exact fun c hc => h c (List.mem_of_mem_head? hc)
  · exact fun c hc => h c (List.mem_of_mem_getLast? hc)

/-- Digits have neither a sign nor a prefix. -/
theorem charsToBigInt_of_digits {cs : List Char} {n : ℕ} (h : Decimal.digits cs = some n) :
    charsToBigInt cs = some (n : ℤ) := by
  have hd : cs ≠ [] ∧ cs.all Char.isDigit = true := by
    unfold Decimal.digits at h
    split at h
    · assumption
    · cases h
  unfold charsToBigInt
  split
  · exact absurd rfl hd.1
  all_goals first
    | (rw [h]; rfl)
    | (simp at hd)

/-- **A numeral is the number that is printed so.** -/
theorem stringToBigInt_toString (n : ℕ) : stringToBigInt (toString n) = some (n : ℤ) := by
  have hspace : ∀ c ∈ Nat.toDigits 10 n, isSpace c = false := by
    intro c hc
    have hdigit := Nat.isDigit_of_mem_toDigits (by omega) (by omega) hc
    exact isSpace_of_isDigit hdigit
  rw [stringToBigInt, show (toString n).toList = Nat.toDigits 10 n from Nat.toList_repr,
    trim_eq_self hspace, charsToBigInt_of_digits (Decimal.digits_toDigits n)]

/-- An integer may have a sign. -/
theorem stringToBigInt_intToString (z : ℤ) : stringToBigInt (toString z) = some z := by
  show stringToBigInt z.repr = some z
  rw [Int.repr_eq_if]
  split_ifs with hz
  · rw [show z.toNat.repr = toString z.toNat from rfl, stringToBigInt_toString,
      Int.toNat_of_nonneg hz]
  · have htext : ("-" ++ (-z).toNat.repr).toList = '-' :: Nat.toDigits 10 (-z).toNat := by
      rw [String.toList_append, Nat.toList_repr]
      rfl
    have hspace : ∀ c ∈ '-' :: Nat.toDigits 10 (-z).toNat, isSpace c = false := by
      intro c hc
      rcases List.mem_cons.mp hc with rfl | hc
      · rfl
      · exact isSpace_of_isDigit (Nat.isDigit_of_mem_toDigits (by omega) (by omega) hc)
    rw [stringToBigInt, htext, trim_eq_self hspace, charsToBigInt, Decimal.digits_toDigits,
      Option.map_some, Int.toNat_of_nonneg (by omega), Int.neg_neg]

namespace Value

/-- A property; the last one counts. -/
def get (key : String) : Value → Option Value
  | .object members => (members.reverse.find? fun m => m.1 = key).map Prod.snd
  | _ => none

/-- The element at index 0. -/
def first : Value → Option Value
  | .array vs => vs.head?
  | .string s => s.toList.head?.map fun c => .string (String.ofList [c])
  | .object members => get "0" (.object members)
  | _ => none

/-- `BigInt` of the text that an array of one element turns into. -/
def textToBigInt : Value → Option ℤ
  | .null => some 0
  | .boolean _ => none
  -- larger numbers are written with an exponent
  | .number n => if n.den = 1 ∧ n.num.natAbs < 10 ^ 21 then some n.num else none
  | .string s => stringToBigInt s
  | .array [] => some 0
  | .array [v] => v.textToBigInt
  -- there is a comma between two elements
  | .array _ => none
  | .object _ => none

/-- `BigInt` of a value. -/
def bigInt : Value → Option ℤ
  | .null => none
  | .boolean b => some (if b then 1 else 0)
  | .number n => if n.den = 1 then some n.num else none
  | v => v.textToBigInt

end Value
end Ecma
end Mach402
