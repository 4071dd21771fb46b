import Mathlib.Data.List.Basic
import Mathlib.Tactic

/-!
# JSON objects of strings

The encoding of a record whose fields are all strings, as bytes, and the decoding of what has been
encoded so.  The order of the fields is fixed, and a decoder expects that order.

* `Json.quote`, `Json.unquote`: a string with its escapes, and back;
* `Json.members`, `Json.parseMembers`: the members of an object, each behind its key and what
  stands around it;
* `Json.parseMembers_members`: what has been encoded is decoded to itself;
* `Json.newline_not_mem_members`: no newline is left unescaped.
-/

namespace Mach402
namespace Json

/-- A text, by its bytes. -/
abbrev Bytes : Type := List UInt8

/-- A hexadecimal digit. -/
def hexDigit (n : ℕ) : UInt8 := UInt8.ofNat (if n < 10 then 48 + n else 87 + n)

/-- The number of a hexadecimal digit. -/
def hexValue (d : UInt8) : ℕ := if d.toNat < 58 then d.toNat - 48 else d.toNat - 87

/-- A byte within a string.  Quotes and backslashes are escaped by a backslash; control characters
and `<`, `>`, `&` by their number. -/
def escape (b : UInt8) : Bytes :=
  if b = 34 ∨ b = 92 then [92, b]
  else if b < 32 ∨ b = 60 ∨ b = 62 ∨ b = 38 then
    [92, 117, 48, 48, hexDigit (b.toNat / 16), hexDigit (b.toNat % 16)]
  else [b]

/-- The rest of a string, after its opening quote. -/
def quote (s : Bytes) : Bytes := s.flatMap escape ++ [34]

/-- A string, after its opening quote, and what follows it. -/
def unquote : Bytes → Option (Bytes × Bytes)
  | [] => none
  | b :: bs =>
    if b = 34 then some ([], bs)
    else if b = 92 then
      match bs with
      | [] => none
      | e :: bs =>
        if e = 117 then
          match bs with
          | _ :: _ :: x :: y :: bs =>
            (unquote bs).map fun r => (UInt8.ofNat (16 * hexValue x + hexValue y) :: r.1, r.2)
          | _ => none
        else (unquote bs).map fun r => (e :: r.1, r.2)
    else (unquote bs).map fun r => (b :: r.1, r.2)

/-- The members of an object that are left, before its closing brace. -/
def members : List (Bytes × Bytes) → Bytes
  | [] => [125]
  | (k, v) :: ms => k ++ quote v ++ members ms

/-- The values of the members, if they have the keys that are expected. -/
def parseMembers : List Bytes → Bytes → Option (List Bytes)
  | [], bs => if bs = [125] then some [] else none
  | k :: ks, bs =>
    if k <+: bs then
      (unquote (bs.drop k.length)).bind fun r => (parseMembers ks r.2).map fun vs => r.1 :: vs
    else none

theorem hexValue_hexDigit : ∀ n < 16, hexValue (hexDigit n) = n := by decide

theorem hexDigit_ne_newline : ∀ n < 16, hexDigit n ≠ 10 := by decide

theorem hex_eq (b : UInt8) :
    UInt8.ofNat (16 * hexValue (hexDigit (b.toNat / 16)) + hexValue (hexDigit (b.toNat % 16))) =
      b := by
  have hb : b.toNat < 256 := b.toNat_lt
  rw [hexValue_hexDigit _ (by omega), hexValue_hexDigit _ (by omega), Nat.div_add_mod,
    UInt8.ofNat_toNat]

theorem unquote_escape (b : UInt8) (bs : Bytes) :
    unquote (escape b ++ bs) = (unquote bs).map fun r => (b :: r.1, r.2) := by
  unfold escape
  split_ifs with h1 h2
  · rcases h1 with rfl | rfl <;> simp [unquote.eq_def (92 :: _)]
  · simp only [List.cons_append, List.nil_append, unquote.eq_def (92 :: _), hex_eq,
      show ¬ (92 : UInt8) = 34 by decide, if_false, if_true]
  · rw [not_or] at h1
    simp [unquote.eq_def (b :: _), h1]

/-- A quoted string is read back, whatever follows. -/
theorem unquote_quote (s bs : Bytes) : unquote (quote s ++ bs) = some (s, bs) := by
  unfold quote
  induction s with
  | nil => simp [unquote.eq_def (34 :: _)]
  | cons b s ih =>
    rw [List.flatMap_cons, List.append_assoc, List.append_assoc, unquote_escape,
      ← List.append_assoc, ih, Option.map_some]

/-- **What has been encoded is decoded to itself.** -/
theorem parseMembers_members (ms : List (Bytes × Bytes)) :
    parseMembers (ms.map Prod.fst) (members ms) = some (ms.map Prod.snd) := by
  induction ms with
  | nil => rfl
  | cons m ms ih =>
    have hk : m.1 <+: m.1 ++ (quote m.2 ++ members ms) := List.prefix_append _ _
    simp only [List.map_cons, members, parseMembers, List.append_assoc, if_pos hk, List.drop_left,
      unquote_quote, Option.bind_some, ih, Option.map_some]

theorem newline_not_mem_escape (b : UInt8) : 10 ∉ escape b := by
  have hb : b.toNat < 256 := b.toNat_lt
  have hhigh := hexDigit_ne_newline (b.toNat / 16) (by omega)
  have hlow := hexDigit_ne_newline (b.toNat % 16) (by omega)
  unfold escape
  split_ifs with h1 h2
  · rcases h1 with rfl | rfl <;> decide
  · simp [hhigh.symm, hlow.symm]
  · rw [List.mem_singleton]
    rintro rfl
    exact h2 (by decide)

/-- **No newline is left**, if there is none in the keys. -/
theorem newline_not_mem_members {ms : List (Bytes × Bytes)} (h : ∀ m ∈ ms, 10 ∉ m.1) :
    10 ∉ members ms := by
  induction ms with
  | nil => decide
  | cons m ms ih =>
    have hm := h m (List.mem_cons_self ..)
    have hms := ih fun m hm => h m (List.mem_cons_of_mem _ hm)
    simp only [members, quote, List.mem_append, List.mem_flatMap, not_or, not_exists, not_and]
    exact ⟨⟨hm, fun b _ => newline_not_mem_escape b, by decide⟩, hms⟩

end Json
end Mach402
