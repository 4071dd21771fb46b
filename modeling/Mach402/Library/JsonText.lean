import Mach402.Library.Bytes
import Mach402.Library.Fraction

/-!
# JSON texts

The trees that JSON texts stand for, how an encoder writes them, and how a parser reads them.
Numbers are kept as they are written.

* `Numeral`, `Tree`: what a text stands for; `Numeral.value`: the number;
* `Style`, `write`: the text of a tree; an encoder may escape more characters than it has to;
* `parse`: the tree of a text;
* `parse_write`: what has been written is read back, whatever the style.
-/

namespace Mach402
namespace JsonText

open Bytes (hexDigit hexValue hexValue_hexDigit)

/-! ### Trees -/

/-- A number as it is written, without a fraction if that has no digits. -/
structure Numeral where
  negative : Bool
  whole : ℕ
  fraction : List Char
  exponent : Option ℤ
  isDigit : ∀ c ∈ fraction, c.isDigit = true
  deriving DecidableEq

namespace Numeral

/-- The numeral of an integer. -/
def ofInt (z : ℤ) : Numeral := ⟨decide (z < 0), z.natAbs, [], none, by simp⟩

/-- The number that a numeral stands for. -/
def value (n : Numeral) : ℚ :=
  (if n.negative then -1 else 1) *
    (n.whole + (Nat.ofDigitChars 10 n.fraction 0 : ℚ) / 10 ^ n.fraction.length) *
    10 ^ n.exponent.getD 0

/-- The integer, if there is neither a fraction nor an exponent. -/
def toInt? (n : Numeral) : Option ℤ :=
  if n.fraction = [] ∧ n.exponent = none then
    some (if n.negative then -(n.whole : ℤ) else n.whole)
  else none

theorem toInt?_ofInt (z : ℤ) : (ofInt z).toInt? = some z := by
  unfold ofInt toInt?
  simp only [decide_eq_true_eq, and_self, if_true, Option.some.injEq]
  split_ifs <;> omega

theorem value_ofInt (z : ℤ) : (ofInt z).value = z := by
  have hz : (if z < 0 then -1 else 1) * ((z.natAbs : ℕ) : ℚ) = z := by
    rw [Nat.cast_natAbs]
    split_ifs with h
    · rw [abs_of_neg h]
      push_cast
      ring
    · rw [abs_of_nonneg (not_lt.mp h), one_mul]
  simpa [ofInt, value] using hz

end Numeral

/-- A JSON text.  An object may have a key twice. -/
inductive Tree
  | null
  | bool (b : Bool)
  | number (n : Numeral)
  | string (s : String)
  | array (ts : List Tree)
  | object (ms : List (String × Tree))

/-! ### Writing -/

/-- Which characters an encoder escapes that it need not, all of them in one unit of UTF-16. -/
structure Style where
  escapes : Char → Bool
  unit : ∀ c, escapes c = true → c.toNat < 65536

/-- A unit of UTF-16. -/
def hexUnit (n : ℕ) : List Char :=
  [hexDigit (n / 4096), hexDigit (n / 256 % 16), hexDigit (n / 16 % 16), hexDigit (n % 16)]

/-- The letters behind a backslash, and what they stand for. -/
def letters : List (Char × Char) :=
  [('"', '"'), ('\\', '\\'), ('/', '/'), ('b', '\x08'), ('f', '\x0c'), ('n', '\n'), ('r', '\r'),
    ('t', '\t')]

/-- The character that a letter stands for behind a backslash. -/
def unescape (e : Char) : Option Char := (letters.find? fun p => p.1 = e).map Prod.snd

/-- The letter for a character, but for the slash. -/
def letterOf (c : Char) : Option Char :=
  if c = '/' then none else (letters.find? fun p => p.2 = c).map Prod.fst

/-- A character within a string. -/
def Style.escape (style : Style) (c : Char) : List Char :=
  match letterOf c with
  | some e => ['\\', e]
  | none =>
    if c.toNat < 32 ∨ style.escapes c = true then '\\' :: 'u' :: hexUnit c.toNat else [c]

/-- The rest of a string, after its opening quote. -/
def Style.quote (style : Style) (s : String) : List Char :=
  s.toList.flatMap style.escape ++ ['"']

/-- An integer, with a sign if it is negative. -/
def signed (negative : Bool) (n : ℕ) : List Char :=
  (if negative then ['-'] else []) ++ Nat.toDigits 10 n

/-- The text of a numeral. -/
def Numeral.text (n : Numeral) : List Char :=
  signed n.negative n.whole ++ (if n.fraction = [] then [] else '.' :: n.fraction) ++
    match n.exponent with
    | none => []
    | some z => 'e' :: signed (decide (z < 0)) z.natAbs

mutual

/-- The text of a tree. -/
def write (style : Style) : Tree → List Char
  | .null => "null".toList
  | .bool true => "true".toList
  | .bool false => "false".toList
  | .number n => n.text
  | .string s => '"' :: style.quote s
  | .array [] => "[]".toList
  | .array (t :: ts) => '[' :: (write style t ++ writeElements style ts)
  | .object [] => "{}".toList
  | .object ((k, t) :: ms) =>
    '{' :: '"' :: (style.quote k ++ ':' :: (write style t ++ writeMembers style ms))

/-- The elements after the first one, and the closing bracket. -/
def writeElements (style : Style) : List Tree → List Char
  | [] => [']']
  | t :: ts => ',' :: (write style t ++ writeElements style ts)

/-- The members after the first one, and the closing brace. -/
def writeMembers (style : Style) : List (String × Tree) → List Char
  | [] => ['}']
  | (k, t) :: ms =>
    ',' :: '"' :: (style.quote k ++ ':' :: (write style t ++ writeMembers style ms))

end

/-! ### Reading -/

/-- Between tokens these are skipped. -/
def isSpace (c : Char) : Bool := c = ' ' || c = '\t' || c = '\n' || c = '\r'

/-- What follows the white space. -/
def skip (cs : List Char) : List Char := cs.dropWhile isSpace

/-- Some digits, at least one. -/
def readDigits (cs : List Char) :
    Option ({ds : List Char // ∀ c ∈ ds, c.isDigit = true} × List Char) :=
  if cs.takeWhile Char.isDigit = [] then none
  else some (⟨cs.takeWhile Char.isDigit, fun _ hc => List.mem_takeWhile_imp hc⟩,
    cs.dropWhile Char.isDigit)

/-- A minus, if there is one. -/
def readSign : List Char → Bool × List Char
  | '-' :: cs => (true, cs)
  | cs => (false, cs)

/-- Zero does not come first but alone. -/
def readWhole (cs : List Char) : Option (ℕ × List Char) :=
  (readDigits cs).bind fun r =>
    if r.1.val.head? = some '0' ∧ r.1.val ≠ ['0'] then none
    else some (Nat.ofDigitChars 10 r.1.val 0, r.2)

/-- The digits behind a point, if there is one. -/
def readFraction : List Char →
    Option ({ds : List Char // ∀ c ∈ ds, c.isDigit = true} × List Char)
  | '.' :: cs => readDigits cs
  | cs => some (⟨[], by simp⟩, cs)

/-- The sign of an exponent, which may be a plus. -/
def readExponentSign : List Char → Bool × List Char
  | '+' :: cs => (false, cs)
  | cs => readSign cs

/-- The power of ten, if there is one. -/
def readExponent : List Char → Option (Option ℤ × List Char)
  | c :: cs =>
    if c = 'e' ∨ c = 'E' then
      (readDigits (readExponentSign cs).2).map fun r =>
        (some (if (readExponentSign cs).1 then -(Nat.ofDigitChars 10 r.1.val 0 : ℤ)
          else Nat.ofDigitChars 10 r.1.val 0), r.2)
    else some (none, c :: cs)
  | [] => some (none, [])

/-- A numeral, and what follows it. -/
def readNumeral (cs : List Char) : Option (Numeral × List Char) :=
  (readWhole (readSign cs).2).bind fun w =>
    (readFraction w.2).bind fun f =>
      (readExponent f.2).map fun e => (⟨(readSign cs).1, w.1, f.1.val, e.1, f.1.property⟩, e.2)

/-- What a string is made of: characters, and units of UTF-16 by their numbers. -/
inductive Item
  | char (c : Char)
  | unit (n : ℕ)

/-- The four digits of a code unit, and what follows them. -/
def readUnit (a b c d : Char) : Option ℕ :=
  (hexValue a).bind fun a => (hexValue b).bind fun b => (hexValue c).bind fun c =>
    (hexValue d).map fun d => 4096 * a + 256 * b + 16 * c + d

/-- The items of a string, after its opening quote, and what follows it. -/
def readItems : List Char → Option (List Item × List Char)
  | [] => none
  | c :: cs =>
    if c = '"' then some ([], cs)
    else if c = '\\' then
      match cs with
      | [] => none
      | e :: cs =>
        if e = 'u' then
          match cs with
          | a :: b :: c :: d :: cs =>
            (readUnit a b c d).bind fun n =>
              (readItems cs).map fun r => (.unit n :: r.1, r.2)
          | _ => none
        else (unescape e).bind fun c => (readItems cs).map fun r => (.char c :: r.1, r.2)
    else if c.toNat < 32 then none
    else (readItems cs).map fun r => (.char c :: r.1, r.2)

/-- The first half of a character, without the second one, is replaced. -/
def alone (high : Option ℕ) : List Char := if high.isSome then ['\uFFFD'] else []

/-- The characters of the items.  Two units may be one character, of which `high` is the first. -/
def joinItems : Option ℕ → List Item → List Char
  | high, [] => alone high
  | high, .char c :: is => alone high ++ c :: joinItems none is
  | high, .unit n :: is =>
    if 0xDC00 ≤ n ∧ n < 0xE000 then
      match high with
      | some m => Char.ofNat (0x10000 + 1024 * (m - 0xD800) + (n - 0xDC00)) :: joinItems none is
      | none => '\uFFFD' :: joinItems none is
    else
      alone high ++ if 0xD800 ≤ n ∧ n < 0xDC00 then joinItems (some n) is
        else Char.ofNat n :: joinItems none is

/-- A string, after its opening quote, and what follows it. -/
def readString (cs : List Char) : Option (String × List Char) :=
  (readItems cs).map fun r => (String.ofList (joinItems none r.1), r.2)

mutual

/-- A value, and what follows it. -/
def readValue : ℕ → List Char → Option (Tree × List Char)
  | 0, _ => none
  | fuel + 1, cs =>
    match skip cs with
    | '"' :: cs => (readString cs).map fun r => (.string r.1, r.2)
    | '[' :: cs =>
      match skip cs with
      | ']' :: cs => some (.array [], cs)
      | cs => (readValue fuel cs).bind fun r =>
          (readElements fuel r.2).map fun q => (.array (r.1 :: q.1), q.2)
    | '{' :: cs =>
      match skip cs with
      | '}' :: cs => some (.object [], cs)
      | cs => (readMember fuel cs).bind fun r =>
          (readMembers fuel r.2).map fun q => (.object (r.1 :: q.1), q.2)
    | 'n' :: 'u' :: 'l' :: 'l' :: cs => some (.null, cs)
    | 't' :: 'r' :: 'u' :: 'e' :: cs => some (.bool true, cs)
    | 'f' :: 'a' :: 'l' :: 's' :: 'e' :: cs => some (.bool false, cs)
    | cs => (readNumeral cs).map fun r => (.number r.1, r.2)

/-- What follows an element of an array. -/
def readElements : ℕ → List Char → Option (List Tree × List Char)
  | 0, _ => none
  | fuel + 1, cs =>
    match skip cs with
    | ']' :: cs => some ([], cs)
    | ',' :: cs => (readValue fuel cs).bind fun r =>
        (readElements fuel r.2).map fun q => (r.1 :: q.1, q.2)
    | _ => none

/-- A member of an object, and what follows it. -/
def readMember : ℕ → List Char → Option ((String × Tree) × List Char)
  | 0, _ => none
  | fuel + 1, cs =>
    match skip cs with
    | '"' :: cs => (readString cs).bind fun k =>
        match skip k.2 with
        | ':' :: cs => (readValue fuel cs).map fun r => ((k.1, r.1), r.2)
        | _ => none
    | _ => none

/-- What follows a member of an object. -/
def readMembers : ℕ → List Char → Option (List (String × Tree) × List Char)
  | 0, _ => none
  | fuel + 1, cs =>
    match skip cs with
    | '}' :: cs => some ([], cs)
    | ',' :: cs => (readMember fuel cs).bind fun r =>
        (readMembers fuel r.2).map fun q => (r.1 :: q.1, q.2)
    | _ => none

end

/-- The tree of a text.  Every call reads a character, so that there is fuel enough. -/
def parse (cs : List Char) : Option Tree :=
  (readValue (cs.length + 1) cs).bind fun r => if skip r.2 = [] then some r.1 else none

/-! ### Strings are read back -/

section Strings

variable {style : Style} {c : Char} {n : ℕ} {cs rest : List Char}

theorem readUnit_hexUnit (h : n < 65536) :
    readUnit (hexDigit (n / 4096)) (hexDigit (n / 256 % 16)) (hexDigit (n / 16 % 16))
      (hexDigit (n % 16)) = some n := by
  unfold readUnit
  rw [hexValue_hexDigit _ (by omega), hexValue_hexDigit _ (by omega),
    hexValue_hexDigit _ (by omega), hexValue_hexDigit _ (by omega)]
  simp only [Option.bind_some, Option.map_some, Option.some.injEq]
  omega

/-- What a letter stands for is read. -/
theorem unescape_letterOf {e : Char} (h : letterOf c = some e) :
    unescape e = some c ∧ e ≠ 'u' := by
  have hall : ∀ p ∈ letters, unescape p.1 = some p.2 ∧ p.1 ≠ 'u' := by decide
  unfold letterOf at h
  split_ifs at h
  obtain ⟨p, hp, rfl⟩ := Option.map_eq_some_iff.mp h
  have hc : p.2 = c := by simpa using List.find?_some hp
  rw [← hc]
  exact hall p (List.mem_of_find?_eq_some hp)

/-- Quotes and backslashes have letters. -/
theorem ne_of_letterOf (h : letterOf c = none) : c ≠ '"' ∧ c ≠ '\\' := by
  constructor
  · rintro rfl
    exact absurd h (by decide)
  · rintro rfl
    exact absurd h (by decide)

/-- The item that a character is written as. -/
def Style.item (style : Style) (c : Char) : Item :=
  match letterOf c with
  | some _ => .char c
  | none => if c.toNat < 32 ∨ style.escapes c = true then .unit c.toNat else .char c

theorem readItems_escape (style : Style) (c : Char) (rest : List Char) :
    readItems (style.escape c ++ rest) =
      (readItems rest).map fun r => (style.item c :: r.1, r.2) := by
  unfold Style.escape Style.item
  cases hletter : letterOf c with
  | some e =>
    obtain ⟨hc, hu⟩ := unescape_letterOf hletter
    simp [readItems.eq_def ('\\' :: _), hc, hu]
  | none =>
    obtain ⟨hquote, hslash⟩ := ne_of_letterOf hletter
    simp only
    split_ifs with hescaped
    · have hunit : c.toNat < 65536 := by
        rcases hescaped with h | h
        · omega
        · exact style.unit c h
      simp [readItems.eq_def ('\\' :: _), hexUnit, readUnit_hexUnit hunit]
    · rw [not_or] at hescaped
      simp [readItems.eq_def (c :: _), hquote, hslash, hescaped.1]

/-- A unit that is a character by itself. -/
theorem joinItems_item (style : Style) (c : Char) (is : List Item) :
    joinItems none (style.item c :: is) = c :: joinItems none is := by
  unfold Style.item
  split
  · rfl
  · split_ifs
    · have hvalid : c.toNat < 0xD800 ∨ 0xDFFF < c.toNat ∧ c.toNat < 0x110000 := c.valid
      rw [joinItems, if_neg (by omega), if_neg (by omega), Char.ofNat_toNat]
      rfl
    · rfl

/-- **A string is read back**, whatever follows. -/
theorem readString_quote (style : Style) (s : String) (rest : List Char) :
    readString (style.quote s ++ rest) = some (s, rest) := by
  have hitems : ∀ cs : List Char, readItems (cs.flatMap style.escape ++ '"' :: rest) =
      some (cs.map style.item, rest) := by
    intro cs
    induction cs with
    | nil => simp [readItems.eq_def ('"' :: _)]
    | cons c cs ih =>
      rw [List.flatMap_cons, List.append_assoc, readItems_escape, ih]
      rfl
  have hjoin : ∀ cs : List Char, joinItems none (cs.map style.item) = cs := by
    intro cs
    induction cs with
    | nil => rfl
    | cons c cs ih => rw [List.map_cons, joinItems_item, ih]
  rw [readString, Style.quote, List.append_assoc, List.singleton_append, hitems]
  simp [hjoin]

end Strings

/-! ### Numerals are read back -/

section Numerals

variable {n : ℕ} {ds rest : List Char}

/-- No numeral goes on there. -/
def Ends (rest : List Char) : Prop :=
  ∀ c ∈ rest.head?, c.isDigit = false ∧ c ≠ '.' ∧ c ≠ 'e' ∧ c ≠ 'E'

/-- No digits go on there. -/
def EndsDigits (rest : List Char) : Prop := ∀ c ∈ rest.head?, c.isDigit = false

theorem readDigits_append (hds : ∀ c ∈ ds, c.isDigit = true) (hne : ds ≠ [])
    (hrest : EndsDigits rest) : readDigits (ds ++ rest) = some (⟨ds, hds⟩, rest) := by
  have htake : (ds ++ rest).takeWhile Char.isDigit = ds := by
    rw [List.takeWhile_append_of_pos hds]
    cases rest with
    | nil => simp
    | cons c cs => simp [hrest c rfl]
  have hdrop : (ds ++ rest).dropWhile Char.isDigit = rest := by
    rw [List.dropWhile_append_of_pos hds]
    cases rest with
    | nil => rfl
    | cons c cs => simp [hrest c rfl]
  unfold readDigits
  simp only [htake, hdrop, if_neg hne]

theorem isDigit_toDigits (n : ℕ) : ∀ c ∈ Nat.toDigits 10 n, c.isDigit = true :=
  fun _ hc => Nat.isDigit_of_mem_toDigits (by omega) (by omega) hc

theorem readDigits_toDigits (hrest : EndsDigits rest) :
    readDigits (Nat.toDigits 10 n ++ rest) = some (⟨Nat.toDigits 10 n, isDigit_toDigits n⟩, rest) :=
  readDigits_append (isDigit_toDigits n) Nat.toDigits_ne_nil hrest

theorem readWhole_toDigits (hrest : EndsDigits rest) :
    readWhole (Nat.toDigits 10 n ++ rest) = some (n, rest) := by
  have hzero : ¬ ((Nat.toDigits 10 n).head? = some '0' ∧ Nat.toDigits 10 n ≠ ['0']) := by
    rintro ⟨hhead, hne⟩
    rcases Nat.eq_zero_or_pos n with rfl | hn
    · exact hne (Nat.toDigits_zero 10)
    · obtain ⟨c, cs, hcs, hc, -⟩ := Decimal.toDigits_head hn
      rw [hcs] at hhead
      cases hhead
      exact absurd hc (by decide)
  rw [readWhole, readDigits_toDigits hrest]
  simp only [Option.bind_some, if_neg hzero, Nat.ofDigitChars_ten_toDigits]

/-- A numeral does not begin with a sign unless it is negative. -/
theorem readSign_signed (negative : Bool) (n : ℕ) (rest : List Char) :
    readSign (signed negative n ++ rest) = (negative, Nat.toDigits 10 n ++ rest) := by
  cases negative with
  | true => rfl
  | false =>
    obtain ⟨c, cs, hcs⟩ := List.exists_cons_of_ne_nil (Nat.toDigits_ne_nil (n := n) (b := 10))
    have hc := isDigit_toDigits n c (by simp [hcs])
    simp only [signed, Bool.false_eq_true, if_false, List.nil_append, hcs, List.cons_append]
    unfold readSign
    split
    · rename_i heq
      cases heq
      cases hc
    · rfl

theorem readExponentSign_signed (negative : Bool) (n : ℕ) (rest : List Char) :
    readExponentSign (signed negative n ++ rest) = (negative, Nat.toDigits 10 n ++ rest) := by
  have hplus : ∀ cs, signed negative n ++ rest ≠ '+' :: cs := by
    intro cs h
    have hmem : '+' ∈ (signed negative n ++ rest).head? := by rw [h]; rfl
    obtain ⟨c, ds, hds⟩ := List.exists_cons_of_ne_nil (Nat.toDigits_ne_nil (n := n) (b := 10))
    have hc := isDigit_toDigits n c (by simp [hds])
    cases negative with
    | true => cases hmem
    | false =>
      simp only [signed, Bool.false_eq_true, if_false, List.nil_append, hds, List.cons_append,
        List.head?_cons, Option.mem_some_iff] at hmem
      subst hmem
      cases hc
  unfold readExponentSign
  split
  · rename_i heq
    exact absurd heq (hplus _)
  · exact readSign_signed negative n rest

theorem readExponent_text (e : Option ℤ) (hrest : Ends rest) :
    readExponent ((match e with
      | none => []
      | some z => 'e' :: signed (decide (z < 0)) z.natAbs) ++ rest) = some (e, rest) := by
  cases e with
  | none =>
    cases rest with
    | nil => rfl
    | cons c cs =>
      obtain ⟨-, -, he, hE⟩ := hrest c rfl
      simp [readExponent, he, hE]
  | some z =>
    have hdigits : EndsDigits rest := fun c hc => (hrest c hc).1
    simp only [List.cons_append, readExponent, true_or, if_true, readExponentSign_signed,
      readDigits_toDigits hdigits, Option.map_some, Nat.ofDigitChars_ten_toDigits,
      decide_eq_true_eq, Option.some.injEq, Prod.mk.injEq, and_true]
    split_ifs <;> omega

/-- **A numeral is read back**, if what follows ends it. -/
theorem readNumeral_text (n : Numeral) (hrest : Ends rest) :
    readNumeral (n.text ++ rest) = some (n, rest) := by
  obtain ⟨negative, whole, fraction, exponent, hfraction⟩ := n
  obtain ⟨after, hafter⟩ : ∃ after, after = (match exponent with
    | none => []
    | some z => 'e' :: signed (decide (z < 0)) z.natAbs) ++ rest := ⟨_, rfl⟩
  -- neither the exponent nor what follows is a fraction
  have hends : EndsDigits after ∧ ∀ cs, after ≠ '.' :: cs := by
    cases exponent with
    | none =>
      rw [List.nil_append] at hafter
      subst hafter
      exact ⟨fun c hc => (hrest c hc).1, fun cs h => (hrest '.' (by rw [h]; rfl)).2.1 rfl⟩
    | some z =>
      subst hafter
      refine ⟨fun c hc => ?_, nofun⟩
      cases hc
      rfl
  have hfrac : readFraction ((if fraction = [] then [] else '.' :: fraction) ++ after) =
      some (⟨fraction, hfraction⟩, after) := by
    split_ifs with hnil
    · subst hnil
      rw [List.nil_append]
      unfold readFraction
      split
      · exact absurd rfl (hends.2 _)
      · rfl
    · exact readDigits_append hfraction hnil hends.1
  have hwhole : EndsDigits ((if fraction = [] then [] else '.' :: fraction) ++ after) := by
    split_ifs with hnil
    · exact hends.1
    · intro c hc
      cases hc
      rfl
  have htext : Numeral.text ⟨negative, whole, fraction, exponent, hfraction⟩ ++ rest =
      signed negative whole ++ ((if fraction = [] then [] else '.' :: fraction) ++ after) := by
    rw [hafter, Numeral.text, List.append_assoc, List.append_assoc]
  rw [htext, readNumeral, readSign_signed]
  simp only [readWhole_toDigits hwhole, Option.bind_some, hfrac]
  rw [hafter, readExponent_text exponent hrest]
  rfl

end Numerals

/-! ### Trees are read back -/

section Trees

variable {style : Style} {c : Char} {cs rest : List Char}

theorem skip_cons (h : isSpace c = false) : skip (c :: cs) = c :: cs :=
  List.dropWhile_cons_of_neg (by rw [h]; exact Bool.false_ne_true)

/-- A numeral begins with a sign or a digit. -/
theorem head_text (n : Numeral) (rest : List Char) :
    ∃ c cs, n.text ++ rest = c :: cs ∧ (c = '-' ∨ c.isDigit = true) := by
  obtain ⟨d, ds, hds⟩ := List.exists_cons_of_ne_nil (Nat.toDigits_ne_nil (n := n.whole) (b := 10))
  have hd := isDigit_toDigits n.whole d (by simp [hds])
  unfold Numeral.text signed
  rw [hds]
  cases n.negative with
  | true => exact ⟨'-', _, rfl, .inl rfl⟩
  | false => exact ⟨d, _, rfl, .inr hd⟩

theorem isSpace_start (hc : c = '-' ∨ c.isDigit = true) : isSpace c = false := by
  rcases hc with rfl | hc
  · rfl
  · rw [Bool.eq_false_iff]
    intro hspace
    simp only [isSpace, Bool.or_eq_true, decide_eq_true_eq] at hspace
    rcases hspace with ((rfl | rfl) | rfl) | rfl <;> cases hc

theorem readValue_numeral (n : Numeral) (hrest : Ends rest) (fuel : ℕ) :
    readValue (fuel + 1) (n.text ++ rest) = some (.number n, rest) := by
  obtain ⟨c, cs, hcs, hc⟩ := head_text n rest
  have hread := readNumeral_text n hrest
  rw [hcs] at hread ⊢
  rw [readValue, skip_cons (isSpace_start hc)]
  split
  all_goals first
    | (rename_i heq
       cases heq
       rcases hc with hc | hc <;> cases hc)
    | (rw [hread]; rfl)

/-- What follows an element or a member ends a numeral. -/
theorem ends_writeElements (style : Style) (ts : List Tree) (rest : List Char) :
    Ends (writeElements style ts ++ rest) := by
  intro c hc
  cases ts with
  | nil => cases hc; decide
  | cons t ts => cases hc; decide

theorem ends_writeMembers (style : Style) (ms : List (String × Tree)) (rest : List Char) :
    Ends (writeMembers style ms ++ rest) := by
  intro c hc
  cases ms with
  | nil => cases hc; decide
  | cons m ms => cases hc; decide

theorem readMember_write {k : String} {t : Tree} {fuel : ℕ}
    (h : readValue fuel (write style t ++ rest) = some (t, rest)) :
    readMember (fuel + 1) ('"' :: (style.quote k ++ ':' :: (write style t ++ rest))) =
      some ((k, t), rest) := by
  rw [readMember, skip_cons rfl]
  simp only [readString_quote, Option.bind_some]
  rw [skip_cons rfl]
  simp only [h, Option.map_some]

/-- A value does not begin with white space, nor does it close anything. -/
theorem head_write (style : Style) (t : Tree) (rest : List Char) :
    ∃ c cs, write style t ++ rest = c :: cs ∧ isSpace c = false ∧ c ≠ ']' ∧ c ≠ '}' := by
  cases t with
  | null => exact ⟨_, _, rfl, by decide⟩
  | bool b => cases b <;> exact ⟨_, _, rfl, by decide⟩
  | number n =>
    obtain ⟨c, cs, hcs, hc⟩ := head_text n rest
    refine ⟨c, cs, by rw [write, hcs], isSpace_start hc, ?_, ?_⟩
    · rintro rfl
      rcases hc with hc | hc <;> cases hc
    · rintro rfl
      rcases hc with hc | hc <;> cases hc
  | string s => exact ⟨_, _, by rw [write, List.cons_append], by decide⟩
  | array ts =>
    cases ts with
    | nil => exact ⟨_, _, rfl, by decide⟩
    | cons t ts => exact ⟨_, _, by rw [write, List.cons_append], by decide⟩
  | object ms =>
    cases ms with
    | nil => exact ⟨_, _, rfl, by decide⟩
    | cons m ms => exact ⟨_, _, by rw [write, List.cons_append], by decide⟩

mutual

/-- A value is read back, with fuel for its characters. -/
theorem readValue_write (style : Style) (t : Tree) (rest : List Char) (fuel : ℕ)
    (hrest : Ends rest) (hfuel : (write style t).length ≤ fuel) :
    readValue (fuel + 1) (write style t ++ rest) = some (t, rest) := by
  cases t with
  | null => rfl
  | bool b => cases b <;> rfl
  | number n => exact readValue_numeral n hrest fuel
  | string s =>
    rw [write, List.cons_append, readValue, skip_cons rfl]
    simp only [readString_quote, Option.map_some]
  | array ts =>
    cases ts with
    | nil => rfl
    | cons t ts =>
      rw [write, List.length_cons, List.length_append] at hfuel
      obtain ⟨fuel, rfl⟩ : ∃ n, fuel = n + 1 := ⟨fuel - 1, by omega⟩
      have hvalue := readValue_write style t (writeElements style ts ++ rest) fuel
        (ends_writeElements style ts rest) (by omega)
      have helements := readElements_write style ts rest (fuel + 1) (by omega)
      obtain ⟨c, cs, hcs, hspace, hclose, -⟩ :=
        head_write style t (writeElements style ts ++ rest)
      rw [write, List.cons_append, List.append_assoc, readValue, skip_cons rfl]
      rw [hcs] at hvalue ⊢
      simp only [skip_cons hspace]
      split
      · rename_i heq
        cases heq
        exact absurd rfl hclose
      · simp only [hvalue, Option.bind_some, helements, Option.map_some]
  | object ms =>
    cases ms with
    | nil => rfl
    | cons m ms =>
      obtain ⟨k, t⟩ := m
      rw [write] at hfuel
      simp only [List.length_cons, List.length_append] at hfuel
      obtain ⟨fuel, rfl⟩ : ∃ n, fuel = n + 2 := ⟨fuel - 2, by omega⟩
      have hmember := readMember_write (k := k) (readValue_write style t
        (writeMembers style ms ++ rest) fuel (ends_writeMembers style ms rest) (by omega))
      have hmembers := readMembers_write style ms rest (fuel + 2) (by omega)
      rw [write]
      simp only [List.cons_append, List.append_assoc]
      rw [readValue, skip_cons rfl]
      simp only [skip_cons (c := '"') rfl]
      split
      · rename_i heq
        cases heq
      · simp only [hmember, Option.bind_some, hmembers, Option.map_some]

theorem readElements_write (style : Style) (ts : List Tree) (rest : List Char) (fuel : ℕ)
    (hfuel : (writeElements style ts).length ≤ fuel) :
    readElements fuel (writeElements style ts ++ rest) = some (ts, rest) := by
  cases ts with
  | nil =>
    obtain ⟨fuel, rfl⟩ : ∃ n, fuel = n + 1 := ⟨fuel - 1, by simp [writeElements] at hfuel; omega⟩
    rfl
  | cons t ts =>
    rw [writeElements, List.length_cons, List.length_append] at hfuel
    have hpos : 0 < (writeElements style ts).length := by cases ts <;> exact Nat.succ_pos _
    obtain ⟨fuel, rfl⟩ : ∃ n, fuel = n + 2 := ⟨fuel - 2, by omega⟩
    have hvalue := readValue_write style t (writeElements style ts ++ rest) fuel
      (ends_writeElements style ts rest) (by omega)
    have helements := readElements_write style ts rest (fuel + 1) (by omega)
    rw [writeElements, List.cons_append, List.append_assoc, readElements, skip_cons rfl]
    simp only [hvalue, Option.bind_some, helements, Option.map_some]

theorem readMembers_write (style : Style) (ms : List (String × Tree)) (rest : List Char)
    (fuel : ℕ) (hfuel : (writeMembers style ms).length ≤ fuel) :
    readMembers fuel (writeMembers style ms ++ rest) = some (ms, rest) := by
  cases ms with
  | nil =>
    obtain ⟨fuel, rfl⟩ : ∃ n, fuel = n + 1 := ⟨fuel - 1, by simp [writeMembers] at hfuel; omega⟩
    rfl
  | cons m ms =>
    obtain ⟨k, t⟩ := m
    rw [writeMembers] at hfuel
    simp only [List.length_cons, List.length_append] at hfuel
    obtain ⟨fuel, rfl⟩ : ∃ n, fuel = n + 3 := ⟨fuel - 3, by omega⟩
    have hmember := readMember_write (k := k) (readValue_write style t
      (writeMembers style ms ++ rest) fuel (ends_writeMembers style ms rest) (by omega))
    have hmembers := readMembers_write style ms rest (fuel + 2) (by omega)
    rw [writeMembers]
    simp only [List.cons_append, List.append_assoc]
    rw [readMembers, skip_cons rfl]
    simp only [hmember, Option.bind_some, hmembers, Option.map_some]

end

/-- **What has been written is read back**, whatever the style. -/
theorem parse_write (style : Style) (t : Tree) : parse (write style t) = some t := by
  have hread := readValue_write style t [] (write style t).length nofun le_rfl
  rw [List.append_nil] at hread
  rw [parse, hread]
  rfl

end Trees

end JsonText
end Mach402
