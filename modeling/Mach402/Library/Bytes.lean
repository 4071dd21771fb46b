import Mathlib.Data.List.Flatten
import Mathlib.Data.List.Induction
import Mathlib.Tactic.Ring

/-!
# Numbers and texts as bytes, and bytes as hexadecimal digits

* `number`, `bigEndian`: the number that bytes write, the highest first, and a number in so many
  bytes; each undoes the other;
* `bigEndian_add`: the lower bytes of a number are what it is written with in fewer bytes;
* `word`, `word_flatten`: the words of a fixed width that bytes are cut into;
* `sized`, `readStrings`: strings with their lengths before them, and how they are read again;
* `encodeHex`, `decodeHex`: bytes as digits in lower case, and digits in either case read as bytes;
* `utf8`, `utf8Decode`: the bytes of a text, and back.
-/

namespace Mach402
namespace Bytes

variable {n k : ℕ} {bs : List UInt8}

/-! ### Numbers -/

/-- The number that bytes write, the highest first. -/
def number (bs : List UInt8) : ℕ := bs.foldl (fun n b => 256 * n + b.toNat) 0

/-- The lowest bytes of a number, the highest of them first. -/
def bigEndian : ℕ → ℕ → List UInt8
  | 0, _ => []
  | k + 1, n => bigEndian k (n / 256) ++ [UInt8.ofNat (n % 256)]

@[simp] theorem number_nil : number [] = 0 := rfl

@[simp] theorem number_concat (bs : List UInt8) (b : UInt8) :
    number (bs ++ [b]) = 256 * number bs + b.toNat := by
  rw [number, List.foldl_append]
  rfl

@[simp] theorem length_bigEndian (k n : ℕ) : (bigEndian k n).length = k := by
  induction k generalizing n with
  | zero => rfl
  | succ k ih => rw [bigEndian, List.length_append, ih, List.length_singleton]

theorem number_bigEndian (h : n < 256 ^ k) : number (bigEndian k n) = n := by
  induction k generalizing n with
  | zero =>
    rw [pow_zero] at h
    rw [bigEndian, number_nil]
    omega
  | succ k ih =>
    have hlt : n / 256 < 256 ^ k := by
      rw [pow_succ] at h
      omega
    have hlow : (UInt8.ofNat (n % 256)).toNat = n % 256 := by
      rw [UInt8.toNat_ofNat']
      omega
    rw [bigEndian, number_concat, ih hlt, hlow]
    omega

theorem bigEndian_number (bs : List UInt8) : bigEndian bs.length (number bs) = bs := by
  induction bs using List.reverseRecOn with
  | nil => rfl
  | append_singleton bs b ih =>
    have hb := b.toNat_lt
    have hhigh : (256 * number bs + b.toNat) / 256 = number bs := by omega
    have hlow : (256 * number bs + b.toNat) % 256 = b.toNat := by omega
    rw [List.length_append, List.length_singleton, bigEndian, number_concat, hhigh, hlow, ih,
      UInt8.ofNat_toNat]

theorem number_lt (bs : List UInt8) : number bs < 256 ^ bs.length := by
  induction bs using List.reverseRecOn with
  | nil => decide
  | append_singleton bs b ih =>
    have hb := b.toNat_lt
    rw [List.length_append, List.length_singleton, number_concat, pow_succ]
    omega

theorem bigEndian_inj {m : ℕ} (hm : m < 256 ^ k) (hn : n < 256 ^ k) :
    bigEndian k m = bigEndian k n ↔ m = n := by
  constructor
  · intro h
    rw [← number_bigEndian hm, h, number_bigEndian hn]
  · rintro rfl
    rfl

/-- Below the highest bytes stand the lowest. -/
theorem bigEndian_add (j k n : ℕ) :
    bigEndian (j + k) n = bigEndian j (n / 256 ^ k) ++ bigEndian k n := by
  induction k generalizing n with
  | zero => rw [pow_zero, Nat.div_one, bigEndian, List.append_nil, Nat.add_zero]
  | succ k ih =>
    rw [← Nat.add_assoc, bigEndian, ih, bigEndian, Nat.div_div_eq_div_mul, ← pow_succ',
      List.append_assoc]

/-! ### Words -/

/-- So many bytes, that many times as far in.  Nothing if there are too few. -/
def word (width index : ℕ) (data : List UInt8) : Option (List UInt8) :=
  if index * width + width ≤ data.length then some ((data.drop (index * width)).take width)
  else none

theorem length_flatten_words {width : ℕ} {ws : List (List UInt8)}
    (h : ∀ w ∈ ws, w.length = width) : ws.flatten.length = ws.length * width := by
  induction ws with
  | nil => simp
  | cons w ws ih =>
    rw [List.flatten_cons, List.length_append, h w List.mem_cons_self,
      ih fun v hv => h v (List.mem_cons_of_mem w hv), List.length_cons]
    ring

/-- Words of one width are found again. -/
theorem word_flatten {width : ℕ} {ws : List (List UInt8)} (h : ∀ w ∈ ws, w.length = width)
    {i : ℕ} {w : List UInt8} (hi : ws[i]? = some w) : word width i ws.flatten = some w := by
  induction ws generalizing i with
  | nil => cases hi
  | cons v ws ih =>
    have hv : v.length = width := h v List.mem_cons_self
    have hws : ∀ w ∈ ws, w.length = width := fun w hw => h w (List.mem_cons_of_mem v hw)
    cases i with
    | zero =>
      obtain rfl : v = w := by simpa using hi
      rw [word, List.flatten_cons, if_pos]
      · rw [Nat.zero_mul, List.drop_zero, ← hv, List.take_left]
      · rw [List.length_append]
        omega
    | succ i =>
      have hfound := ih hws (by simpa using hi)
      rw [word] at hfound ⊢
      split at hfound
      case isFalse => cases hfound
      case isTrue hle =>
        have hshift : (i + 1) * width = v.length + i * width := by
          rw [hv]
          ring
        rw [hshift, List.flatten_cons, if_pos, List.drop_length_add_append, hfound]
        rw [List.length_append]
        omega

/-! ### Strings with their lengths -/

/-- A string with its length in four bytes before it. -/
def sized (s : List UInt8) : List UInt8 := bigEndian 4 s.length ++ s

/-- The first string, and what comes after it. -/
def readSized (data : List UInt8) : Option (List UInt8 × List UInt8) :=
  let after := data.drop 4
  let k := number (data.take 4)
  if 4 ≤ data.length ∧ k ≤ after.length then some (after.take k, after.drop k) else none

theorem length_readSized {data s rest : List UInt8} (h : readSized data = some (s, rest)) :
    rest.length < data.length := by
  unfold readSized at h
  simp only at h
  split at h
  case isFalse => cases h
  case isTrue hle =>
    obtain ⟨-, rfl⟩ := Prod.mk.inj (Option.some.inj h)
    rw [List.length_drop, List.length_drop]
    omega

/-- All of them.  Nothing is left over. -/
def readStrings (data : List UInt8) : Option (List (List UInt8)) :=
  if data = [] then some []
  else
    match _h : readSized data with
    | none => none
    | some (s, rest) => (readStrings rest).map (s :: ·)
  termination_by data.length
  decreasing_by exact length_readSized _h

theorem readSized_sized {s : List UInt8} (h : s.length < 256 ^ 4) (rest : List UInt8) :
    readSized (sized s ++ rest) = some (s, rest) := by
  have hlen := length_bigEndian 4 s.length
  have htake : (sized s ++ rest).take 4 = bigEndian 4 s.length := by
    rw [sized, List.append_assoc]
    exact List.take_left' hlen
  have hdrop : (sized s ++ rest).drop 4 = s ++ rest := by
    rw [sized, List.append_assoc]
    exact List.drop_left' hlen
  have hle : 4 ≤ (sized s ++ rest).length ∧ s.length ≤ (s ++ rest).length := by
    rw [sized, List.length_append, List.length_append, List.length_append, hlen]
    omega
  unfold readSized
  simp only [htake, hdrop, number_bigEndian h]
  rw [if_pos hle, List.take_left, List.drop_left]

theorem readStrings_sized {s : List UInt8} (h : s.length < 256 ^ 4) (rest : List UInt8) :
    readStrings (sized s ++ rest) = (readStrings rest).map (s :: ·) := by
  have hne : sized s ++ rest ≠ [] := by
    intro hnil
    have hlen := congrArg List.length hnil
    rw [sized, List.length_append, List.length_append, length_bigEndian, List.length_nil] at hlen
    omega
  have hread := readSized_sized h rest
  rw [readStrings, if_neg hne]
  split
  case h_1 hnone =>
    rw [hread] at hnone
    cases hnone
  case h_2 s' rest' hsome =>
    rw [hread] at hsome
    cases hsome
    rfl

/-- **Strings are read again, one after the other, if their lengths fit.** -/
theorem readStrings_flatMap {ss : List (List UInt8)} (h : ∀ s ∈ ss, s.length < 256 ^ 4) :
    readStrings (ss.flatMap sized) = some ss := by
  induction ss with
  | nil => rw [List.flatMap_nil, readStrings, if_pos rfl]
  | cons s ss ih =>
    have hss := ih fun t ht => h t (List.mem_cons_of_mem s ht)
    rw [List.flatMap_cons, readStrings_sized (h s List.mem_cons_self), hss]
    rfl

/-! ### Hexadecimal digits -/

/-- The digit of a number below sixteen. -/
def hexDigit (n : ℕ) : Char := "0123456789abcdef".toList.getD n '0'

/-- The number of a digit, in either case. -/
def hexValue (c : Char) : Option ℕ :=
  if '0' ≤ c ∧ c ≤ '9' then some (c.toNat - '0'.toNat)
  else if 'a' ≤ c ∧ c ≤ 'f' then some (c.toNat - 'a'.toNat + 10)
  else if 'A' ≤ c ∧ c ≤ 'F' then some (c.toNat - 'A'.toNat + 10)
  else none

/-- Two digits for each byte. -/
def encodeHex (bs : List UInt8) : List Char :=
  bs.flatMap fun b => [hexDigit (b.toNat / 16), hexDigit (b.toNat % 16)]

/-- Why digits cannot be read. -/
inductive HexError
  | invalidByte (b : UInt8)
  | length
  deriving DecidableEq

/-- Of a character that is no digit the first byte is reported. -/
def HexError.of (c : Char) : HexError := .invalidByte ((String.utf8EncodeChar c).headD 0)

/-- The text of the error.  What it names is shown as `U+00E9 'é'`, the character only if it can be
printed. -/
def HexError.text : HexError → String
  | .length => "encoding/hex: odd length hex string"
  | .invalidByte b =>
    let code := [hexDigit (b.toNat / 16), hexDigit (b.toNat % 16)].map Char.toUpper
    let printed := if (32 ≤ b ∧ b < 127) ∨ (161 ≤ b ∧ b ≠ 173) then
      " '" ++ String.singleton (Char.ofNat b.toNat) ++ "'" else ""
    "encoding/hex: invalid byte: U+00" ++ String.ofList code ++ printed

/-- Two digits at a time. -/
def decodeHex : List Char → Except HexError (List UInt8)
  | [] => .ok []
  | [p] => .error (if (hexValue p).isSome then .length else .of p)
  | p :: q :: cs =>
    match hexValue p, hexValue q with
    | none, _ => .error (.of p)
    | some _, none => .error (.of q)
    | some high, some low =>
      (decodeHex cs).map fun bs => UInt8.ofNat (16 * high + low) :: bs

theorem hexValue_hexDigit : ∀ n < 16, hexValue (hexDigit n) = some n := by decide

@[simp] theorem length_encodeHex (bs : List UInt8) : (encodeHex bs).length = 2 * bs.length := by
  induction bs with
  | nil => rfl
  | cons b bs ih =>
    rw [encodeHex, List.flatMap_cons, List.length_append, ← encodeHex, ih]
    simp only [List.length_cons, List.length_nil]
    omega

theorem mem_encodeHex {c : Char} (h : c ∈ encodeHex bs) : ∃ n < 16, c = hexDigit n := by
  obtain ⟨b, -, hc⟩ := List.mem_flatMap.mp h
  have hb := b.toNat_lt
  simp only [List.mem_cons, List.not_mem_nil, or_false] at hc
  rcases hc with rfl | rfl
  · exact ⟨b.toNat / 16, by omega, rfl⟩
  · exact ⟨b.toNat % 16, by omega, rfl⟩

/-- **Digits are read as the bytes that they write.** -/
theorem decodeHex_encodeHex (bs : List UInt8) : decodeHex (encodeHex bs) = .ok bs := by
  induction bs with
  | nil => rfl
  | cons b bs ih =>
    have hb := b.toNat_lt
    have hhigh := hexValue_hexDigit (b.toNat / 16) (by omega)
    have hlow := hexValue_hexDigit (b.toNat % 16) (by omega)
    have hbyte : 16 * (b.toNat / 16) + b.toNat % 16 = b.toNat := by omega
    have hcons : encodeHex (b :: bs) =
        hexDigit (b.toNat / 16) :: hexDigit (b.toNat % 16) :: encodeHex bs := rfl
    rw [hcons, decodeHex, hhigh, hlow]
    simp only [ih, hbyte, Except.map, UInt8.ofNat_toNat]

theorem encodeHex_injective : Function.Injective encodeHex := by
  intro as bs h
  have hread := decodeHex_encodeHex as
  rw [h, decodeHex_encodeHex] at hread
  exact (Except.ok.inj hread).symm

/-! ### Texts -/

/-- The bytes of a text. -/
def utf8 (cs : List Char) : List UInt8 := cs.flatMap String.utf8EncodeChar

/-- The text that bytes encode, if they do. -/
def utf8Decode (bs : List UInt8) : Option (List Char) :=
  (ByteArray.utf8Decode? ⟨bs.toArray⟩).map Array.toList

theorem utf8Decode_utf8 (cs : List Char) : utf8Decode (utf8 cs) = some cs := by
  have hbytes : (⟨(utf8 cs).toArray⟩ : ByteArray) = cs.utf8Encode := by
    rw [utf8, List.utf8Encode]
    exact ByteArray.ext List.data_toByteArray.symm
  rw [utf8Decode, hbytes, List.utf8Decode?_utf8Encode]
  rfl

end Bytes
end Mach402
