import Mach402.Library.Bytes

/-!
# Base64

Bytes as letters of an alphabet of sixty-four, six bits a letter.

* `group`, `encode`: three bytes as four letters.  A last group of fewer bytes is filled up with
  zero bits to whole letters, and with padding to four;
* `ungroup`, `decode`: the bytes that letters write.  There is padding only at the end, and the bits
  that filled up the last letter are zero;
* `decode_encode`: encoded bytes are decoded;
* `decodeLoose`, `decodeLoose_encode`: a decoder that skips what it does not know does the same;
* `length_encode`, `mem_encode`: how many letters there are, and which.
-/

namespace Mach402
namespace Base64

open Bytes (number bigEndian number_lt bigEndian_number)

variable {k n : ℕ} {bs : List UInt8} {ns : List ℕ}

/-! ### Letters -/

/-- The letters, by their numbers. -/
def alphabet : List Char :=
  "ABCDEFGHIJKLMNOPQRSTUVWXYZabcdefghijklmnopqrstuvwxyz0123456789+/".toList

/-- What fills the last group. -/
def padding : Char := '='

/-- The letter of a number below sixty-four. -/
def letter (n : ℕ) : Char := alphabet[n]?.getD padding

/-- The number of a letter. -/
def letterValue (c : Char) : Option ℕ := alphabet.idxOf? c

theorem letterValue_letter : ∀ n < 64, letterValue (letter n) = some n := by decide +kernel

theorem letter_ne_padding : ∀ n < 64, letter n ≠ padding := by decide +kernel

theorem letter_mem (h : n < 64) : letter n ∈ alphabet := by
  have hlen : alphabet.length = 64 := by decide +kernel
  have hn : n < alphabet.length := by omega
  rw [letter, List.getElem?_eq_getElem hn, Option.getD_some]
  exact List.getElem_mem hn

theorem mapM_letterValue (h : ∀ n ∈ ns, n < 64) :
    (ns.map letter).mapM letterValue = some ns := by
  induction ns with
  | nil => rfl
  | cons n ns ih =>
    have hn := letterValue_letter n (h n List.mem_cons_self)
    have hns := ih fun m hm => h m (List.mem_cons_of_mem n hm)
    rw [List.map_cons, List.mapM_cons, hn, hns]
    rfl

/-! ### Six bits at a time -/

/-- The lowest digits of a number to base sixty-four, the highest of them first. -/
def sextets : ℕ → ℕ → List ℕ
  | 0, _ => []
  | k + 1, n => sextets k (n / 64) ++ [n % 64]

/-- The number that digits to base sixty-four write. -/
def ofSextets (ns : List ℕ) : ℕ := ns.foldl (fun n s => 64 * n + s) 0

@[simp] theorem length_sextets (k n : ℕ) : (sextets k n).length = k := by
  induction k generalizing n with
  | zero => rfl
  | succ k ih => rw [sextets, List.length_append, ih, List.length_singleton]

theorem sextets_lt (k n : ℕ) : ∀ s ∈ sextets k n, s < 64 := by
  induction k generalizing n with
  | zero => simp [sextets]
  | succ k ih =>
    intro s hs
    rw [sextets, List.mem_append, List.mem_singleton] at hs
    rcases hs with hs | rfl
    · exact ih _ s hs
    · omega

theorem ofSextets_sextets (h : n < 64 ^ k) : ofSextets (sextets k n) = n := by
  induction k generalizing n with
  | zero =>
    rw [pow_zero] at h
    have hzero : n = 0 := by omega
    rw [hzero]
    rfl
  | succ k ih =>
    have hlt : n / 64 < 64 ^ k := by
      rw [pow_succ] at h
      omega
    have hconcat : ofSextets (sextets k (n / 64) ++ [n % 64]) =
        64 * ofSextets (sextets k (n / 64)) + n % 64 := by
      rw [ofSextets, List.foldl_append]
      rfl
    rw [sextets, hconcat, ih hlt]
    omega

/-! ### A group -/

/-- One, two or three bytes as four letters. -/
def group (bs : List UInt8) : List Char :=
  (sextets (bs.length + 1) (number bs * 4 ^ (3 - bs.length))).map letter ++
    List.replicate (3 - bs.length) padding

/-- The bytes of four letters. -/
def ungroup (cs : List Char) : Option (List UInt8) :=
  let letters := cs.takeWhile (· ≠ padding)
  let k := letters.length - 1
  if 1 ≤ k ∧ cs.drop letters.length = List.replicate (3 - k) padding then
    (letters.mapM letterValue).bind fun ns =>
      if ofSextets ns % 4 ^ (3 - k) = 0 then some (bigEndian k (ofSextets ns / 4 ^ (3 - k)))
      else none
  else none

theorem length_group (h : bs.length ≤ 3) : (group bs).length = 4 := by
  rw [group, List.length_append, List.length_map, length_sextets, List.length_replicate]
  omega

theorem mem_group {c : Char} (h : c ∈ group bs) : c ∈ padding :: alphabet := by
  rw [group, List.mem_append, List.mem_map] at h
  rcases h with ⟨s, hs, rfl⟩ | h
  · exact List.mem_cons_of_mem padding (letter_mem (sextets_lt _ _ s hs))
  · rw [List.eq_of_mem_replicate h]
    exact List.mem_cons_self

theorem group_one (a : UInt8) :
    group [a] = [letter (a.toNat / 4), letter (a.toNat % 4 * 16), padding, padding] := by
  have ha := a.toNat_lt
  have hsextets : sextets 2 (number [a] * 16) = [a.toNat / 4, a.toNat % 4 * 16] := by
    simp only [number, List.foldl, sextets, List.nil_append, List.cons_append, List.cons.injEq,
      and_true]
    omega
  exact congrArg (fun ns => ns.map letter ++ [padding, padding]) hsextets

theorem group_two (a b : UInt8) :
    group [a, b] = [letter (a.toNat / 4), letter (a.toNat % 4 * 16 + b.toNat / 16),
      letter (b.toNat % 16 * 4), padding] := by
  have ha := a.toNat_lt
  have hb := b.toNat_lt
  have hsextets : sextets 3 (number [a, b] * 4) =
      [a.toNat / 4, a.toNat % 4 * 16 + b.toNat / 16, b.toNat % 16 * 4] := by
    simp only [number, List.foldl, sextets, List.nil_append, List.cons_append, List.cons.injEq,
      and_true]
    omega
  exact congrArg (fun ns => ns.map letter ++ [padding]) hsextets

theorem group_three (a b c : UInt8) :
    group [a, b, c] = [letter (a.toNat / 4), letter (a.toNat % 4 * 16 + b.toNat / 16),
      letter (b.toNat % 16 * 4 + c.toNat / 64), letter (c.toNat % 64)] := by
  have ha := a.toNat_lt
  have hb := b.toNat_lt
  have hc := c.toNat_lt
  have hsextets : sextets 4 (number [a, b, c] * 1) =
      [a.toNat / 4, a.toNat % 4 * 16 + b.toNat / 16, b.toNat % 16 * 4 + c.toNat / 64,
        c.toNat % 64] := by
    simp only [number, List.foldl, sextets, List.nil_append, List.cons_append, List.cons.injEq,
      and_true]
    omega
  exact congrArg (fun ns => ns.map letter) hsextets

/-- Filled up with zero bits, the bytes of a group fit into its letters. -/
theorem number_fits (h : bs.length ≤ 3) :
    number bs * 4 ^ (3 - bs.length) < 64 ^ (bs.length + 1) := by
  have hlt := number_lt bs
  have hpos : 0 < 4 ^ (3 - bs.length) := Nat.pow_pos (by omega)
  have hpow : 256 ^ bs.length * 4 ^ (3 - bs.length) = 64 ^ (bs.length + 1) := by
    generalize bs.length = k at h
    have hk : k = 0 ∨ k = 1 ∨ k = 2 ∨ k = 3 := by omega
    rcases hk with rfl | rfl | rfl | rfl <;> rfl
  rw [← hpow]
  exact Nat.mul_lt_mul_of_pos_right hlt hpos

theorem ungroup_group (hpos : 1 ≤ bs.length) (hle : bs.length ≤ 3) :
    ungroup (group bs) = some bs := by
  have hsmall := sextets_lt (bs.length + 1) (number bs * 4 ^ (3 - bs.length))
  have hlen := length_sextets (bs.length + 1) (number bs * 4 ^ (3 - bs.length))
  have hvalue := ofSextets_sextets (number_fits hle)
  generalize hn : sextets (bs.length + 1) (number bs * 4 ^ (3 - bs.length)) = ns at *
  have hletters : (group bs).takeWhile (· ≠ padding) = ns.map letter := by
    rw [group, hn, List.takeWhile_append_of_pos]
    · cases 3 - bs.length <;> simp [List.replicate_succ]
    · intro c hc
      obtain ⟨s, hs, rfl⟩ := List.mem_map.mp hc
      simpa using letter_ne_padding s (hsmall s hs)
  have hk : (ns.map letter).length - 1 = bs.length := by
    rw [List.length_map, hlen]
    omega
  have hrest : (group bs).drop (ns.map letter).length =
      List.replicate (3 - bs.length) padding := by
    rw [group, hn, List.drop_left]
  have hfour : 0 < 4 ^ (3 - bs.length) := Nat.pow_pos (by omega)
  unfold ungroup
  simp only [hletters, hk, hrest]
  rw [if_pos ⟨hpos, trivial⟩, mapM_letterValue hsmall, Option.bind_some, hvalue,
    Nat.mul_mod_left, if_pos rfl, Nat.mul_div_cancel _ hfour, bigEndian_number]

/-! ### All of them -/

/-- Three bytes at a time. -/
def encode : List UInt8 → List Char
  | [] => []
  | [a] => group [a]
  | [a, b] => group [a, b]
  | a :: b :: c :: bs => group [a, b, c] ++ encode bs

theorem encode_of_ne_nil (h : bs ≠ []) : encode bs = group (bs.take 3) ++ encode (bs.drop 3) := by
  match bs with
  | [] => exact absurd rfl h
  | [_] | [_, _] => exact (List.append_nil _).symm
  | _ :: _ :: _ :: _ => rfl

/-- Four letters at a time. -/
def decode : List Char → Option (List UInt8)
  | [] => some []
  | p :: q :: r :: s :: cs =>
    (ungroup [p, q, r, s]).bind fun bs =>
      if bs.length < 3 ∧ cs ≠ [] then none else (decode cs).map (bs ++ ·)
  | _ => none

theorem decode_group {cs : List Char} (hpos : 1 ≤ bs.length) (hle : bs.length ≤ 3)
    (hlast : bs.length < 3 → cs = []) :
    decode (group bs ++ cs) = (decode cs).map (bs ++ ·) := by
  have hlen := length_group hle
  have hbytes := ungroup_group hpos hle
  match hgroup : group bs with
  | [p, q, r, s] =>
    have hcons : [p, q, r, s] ++ cs = p :: q :: r :: s :: cs := rfl
    have hmore : ¬(bs.length < 3 ∧ cs ≠ []) := fun h => h.2 (hlast h.1)
    rw [hgroup] at hbytes
    rw [hcons, decode, hbytes, Option.bind_some, if_neg hmore]
  | [] | [_] | [_, _] | [_, _, _] | _ :: _ :: _ :: _ :: _ :: _ =>
    rw [hgroup] at hlen
    simp only [List.length_cons, List.length_nil] at hlen
    omega

/-- **Encoded bytes are decoded.** -/
theorem decode_encode (bs : List UInt8) : decode (encode bs) = some bs := by
  induction bs using encode.induct with
  | case1 => rfl
  | case2 a =>
    rw [encode, ← List.append_nil (group [a]), decode_group (by simp) (by simp) fun _ => rfl]
    rfl
  | case3 a b =>
    rw [encode, ← List.append_nil (group [a, b]), decode_group (by simp) (by simp) fun _ => rfl]
    rfl
  | case4 a b c bs ih =>
    rw [encode, decode_group (by simp) (by simp) (by simp), ih]
    rfl

theorem length_encode (bs : List UInt8) : (encode bs).length = 4 * ((bs.length + 2) / 3) := by
  induction bs using encode.induct with
  | case1 => rfl
  | case2 a =>
    have hgroup : (group [a]).length = 4 := length_group (by simp)
    rw [encode, hgroup]
    simp only [List.length_cons, List.length_nil]
  | case3 a b =>
    have hgroup : (group [a, b]).length = 4 := length_group (by simp)
    rw [encode, hgroup]
    simp only [List.length_cons, List.length_nil]
  | case4 a b c bs ih =>
    have hgroup : (group [a, b, c]).length = 4 := length_group (by simp)
    rw [encode, List.length_append, hgroup, ih]
    simp only [List.length_cons]
    omega

theorem mem_encode {c : Char} (h : c ∈ encode bs) : c ∈ padding :: alphabet := by
  induction bs using encode.induct with
  | case1 => cases h
  | case2 a => exact mem_group h
  | case3 a b => exact mem_group h
  | case4 a b d bs ih =>
    rw [encode, List.mem_append] at h
    rcases h with h | h
    · exact mem_group h
    · exact ih h

/-! ### A lenient decoder -/

/-- The letters of the alphabet for URLs are known as well. -/
def looseValue (c : Char) : Option ℕ :=
  if c = '-' then some 62 else if c = '_' then some 63 else letterValue c

/-- Four numbers at a time; the last ones may be fewer. -/
def ofSextetsLoose : List ℕ → List UInt8
  | p :: q :: r :: s :: ns =>
    [UInt8.ofNat (4 * p + q / 16), UInt8.ofNat (q % 16 * 16 + r / 4),
      UInt8.ofNat (r % 4 * 64 + s)] ++ ofSextetsLoose ns
  | [p, q, r] => [UInt8.ofNat (4 * p + q / 16), UInt8.ofNat (q % 16 * 16 + r / 4)]
  | [p, q] => [UInt8.ofNat (4 * p + q / 16)]
  | _ => []

/-- What is no letter is skipped, and the padding ends the text. -/
def decodeLoose (cs : List Char) : List UInt8 :=
  ofSextetsLoose ((cs.takeWhile (· ≠ padding)).filterMap looseValue)

theorem looseValue_letter : ∀ n < 64, looseValue (letter n) = some n := by decide +kernel

/-- Letters up to the padding, or to more letters. -/
theorem loose_letters (ns : List ℕ) (cs : List Char) (h : ∀ n ∈ ns, n < 64) :
    ((ns.map letter ++ cs).takeWhile (· ≠ padding)).filterMap looseValue =
      ns ++ (cs.takeWhile (· ≠ padding)).filterMap looseValue := by
  induction ns with
  | nil => rfl
  | cons n ns ih =>
    rw [List.forall_mem_cons] at h
    simp only [List.map_cons, List.cons_append] at ih ⊢
    rw [List.takeWhile_cons_of_pos (by simpa using letter_ne_padding n h.1),
      List.filterMap_cons_some (looseValue_letter n h.1), ih h.2]

/-- **The lenient decoder decodes encoded bytes.** -/
theorem decodeLoose_encode (bs : List UInt8) : decodeLoose (encode bs) = bs := by
  have hbyte : ∀ {b : UInt8} {n : ℕ}, n = b.toNat → UInt8.ofNat n = b := by
    rintro b n rfl
    exact UInt8.ofNat_toNat
  induction bs using encode.induct with
  | case1 => rfl
  | case2 a =>
    have ha := a.toNat_lt
    have hloose := loose_letters [a.toNat / 4, a.toNat % 4 * 16] [padding, padding]
      (by simp; omega)
    have hnil : ([padding, padding].takeWhile (· ≠ padding)).filterMap looseValue = [] := rfl
    rw [hnil, List.append_nil] at hloose
    rw [encode, group_one, decodeLoose]
    refine (congrArg ofSextetsLoose hloose).trans ?_
    rw [ofSextetsLoose, hbyte (b := a) (by omega)]
  | case3 a b =>
    have ha := a.toNat_lt
    have hb := b.toNat_lt
    have hloose := loose_letters
      [a.toNat / 4, a.toNat % 4 * 16 + b.toNat / 16, b.toNat % 16 * 4] [padding] (by simp; omega)
    have hnil : ([padding].takeWhile (· ≠ padding)).filterMap looseValue = [] := rfl
    rw [hnil, List.append_nil] at hloose
    rw [encode, group_two, decodeLoose]
    refine (congrArg ofSextetsLoose hloose).trans ?_
    rw [ofSextetsLoose, hbyte (b := a) (by omega), hbyte (b := b) (by omega)]
  | case4 a b c bs ih =>
    have ha := a.toNat_lt
    have hb := b.toNat_lt
    have hc := c.toNat_lt
    have hloose := loose_letters
      [a.toNat / 4, a.toNat % 4 * 16 + b.toNat / 16, b.toNat % 16 * 4 + c.toNat / 64, c.toNat % 64]
      (encode bs) (by simp; omega)
    rw [encode, group_three, decodeLoose]
    refine (congrArg ofSextetsLoose hloose).trans ?_
    simp only [List.cons_append, List.nil_append, ofSextetsLoose]
    rw [hbyte (b := a) (by omega), hbyte (b := b) (by omega), hbyte (b := c) (by omega)]
    exact congrArg (fun bs => a :: b :: c :: bs) ih

end Base64
end Mach402
