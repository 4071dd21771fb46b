import Mathlib.Data.String.Basic
import Mathlib.Data.List.Induction
import Mathlib.Algebra.BigOperators.Group.List.Basic

/-!
# Relative paths

A relative path goes up some levels, and then down by names.  Relative paths are a monoid: to join
two is to follow one and then the other, where a name that is left again does not count.

* `Relative`, `mul_mul_eq_iff`: to join with a path a second time changes nothing just if the path
  goes up as many levels as it goes down;
* `Name`, `of`, `text`: the relative path that a text denotes, and its shortest text;
* `push`, `foldl_push`: the stack of components with which it is computed;
* `splitOn_eq`: `String.splitOn` of one character.
-/

namespace Mach402
namespace Paths

/-! ### The monoid -/

/-- So many levels up, and then down by these names. -/
@[ext] structure Relative (α : Type) where
  ups : ℕ
  names : List α
  deriving DecidableEq

namespace Relative

variable {α : Type}

/-- One path, and then the other. -/
def mul (a b : Relative α) : Relative α where
  ups := a.ups + (b.ups - a.names.length)
  names := a.names.take (a.names.length - b.ups) ++ b.names

theorem mul_assoc (a b c : Relative α) : (a.mul b).mul c = a.mul (b.mul c) := by
  ext1
  · simp only [mul, List.length_append, List.length_take]
    omega
  · have hcut : min ((a.names.take (a.names.length - b.ups) ++ b.names).length - c.ups)
        (a.names.length - b.ups) =
        a.names.length - (b.ups + (c.ups - b.names.length)) := by
      simp only [List.length_append, List.length_take]
      omega
    have hkeep : (a.names.take (a.names.length - b.ups) ++ b.names).length - c.ups -
        (a.names.take (a.names.length - b.ups)).length = b.names.length - c.ups := by
      simp only [List.length_append, List.length_take]
      omega
    simp only [mul]
    rw [List.take_append, List.take_take, hcut, hkeep, List.append_assoc]

instance : Monoid (Relative α) where
  mul := mul
  one := ⟨0, []⟩
  mul_assoc := mul_assoc
  one_mul a := by
    show mul ⟨0, []⟩ a = a
    simp [mul]
  mul_one a := by
    show mul a ⟨0, []⟩ = a
    simp [mul]

@[simp] theorem one_ups : (1 : Relative α).ups = 0 := rfl

@[simp] theorem one_names : (1 : Relative α).names = [] := rfl

@[simp] theorem mul_ups (a b : Relative α) :
    (a * b).ups = a.ups + (b.ups - a.names.length) := rfl

@[simp] theorem mul_names (a b : Relative α) :
    (a * b).names = a.names.take (a.names.length - b.ups) ++ b.names := rfl

/-- **A path can be joined with twice** just if it goes up as many levels as it goes down. -/
theorem mul_mul_eq_iff (a b : Relative α) : a * (a * b) = a * b ↔ a.ups = a.names.length := by
  constructor
  · intro h
    have hups := congrArg ups h
    have hnames := congrArg (fun c => c.names.length) h
    simp only [mul_ups, mul_names, List.length_append, List.length_take] at hups hnames
    omega
  · intro h
    ext1
    · simp only [mul_ups]
      omega
    · have hzero : a.names.length - (a * b).ups = 0 := by
        rw [mul_ups]
        omega
      rw [mul_names a (a * b), hzero, List.take_zero, List.nil_append]

/-- One level up. -/
def up : Relative α := ⟨1, []⟩

/-- Down by one name. -/
def down (n : α) : Relative α := ⟨0, [n]⟩

theorem mul_down (a : Relative α) (n : α) : a * down n = ⟨a.ups, a.names ++ [n]⟩ := by
  ext1
  · simp [down]
  · simp [down]

theorem mul_up_nil (u : ℕ) : (⟨u, []⟩ : Relative α) * up = ⟨u + 1, []⟩ := rfl

theorem mul_up_concat (u : ℕ) (ns : List α) (n : α) : ⟨u, ns ++ [n]⟩ * up = ⟨u, ns⟩ := by
  ext1
  · simp [up]
  · simp [up]

end Relative

/-! ### Texts -/

/-- A component that goes down. -/
abbrev Name : Type := { n : String // n ≠ "" ∧ n ≠ "." ∧ n ≠ ".." ∧ '/' ∉ n.toList }

/-- What a component does. -/
def ofPart (part : String) : Relative Name :=
  if part = ".." then .up
  else if h : part ≠ "" ∧ part ≠ "." ∧ part ≠ ".." ∧ '/' ∉ part.toList then .down ⟨part, h⟩
  else 1

/-- The path that consists of these components. -/
def ofParts (parts : List String) : Relative Name := (parts.map ofPart).prod

/-- The components of a text. -/
def split (s : String) : List String := (s.toList.splitOn '/').map String.ofList

/-- The relative path that a text denotes. -/
def of (s : String) : Relative Name := ofParts (split s)

/-- Its components. -/
def parts (a : Relative Name) : List String :=
  List.replicate a.ups ".." ++ a.names.map Subtype.val

/-- Its shortest text. -/
def text (a : Relative Name) : String := if a = 1 then "." else "/".intercalate (parts a)

section Texts

variable {s t : String} {a : Relative Name}

theorem not_mem_of_mem_splitOn {α : Type} [DecidableEq α] {sep : α} {l p : List α}
    (h : p ∈ l.splitOn sep) : sep ∉ p := by
  induction l generalizing p with
  | nil =>
    rw [List.splitOn_nil, List.mem_singleton] at h
    rw [h]
    exact List.not_mem_nil
  | cons a l ih =>
    rw [List.splitOn_cons_eq_if_modifyHead] at h
    split_ifs at h with ha
    · rcases List.mem_cons.1 h with rfl | h
      · exact List.not_mem_nil
      · exact ih h
    · cases hl : l.splitOn sep with
      | nil => exact absurd hl (List.splitOn_ne_nil sep l)
      | cons q qs =>
        rw [hl, List.modifyHead_cons, List.mem_cons] at h
        rcases h with rfl | h
        · have hq := ih (hl ▸ List.mem_cons_self)
          intro hmem
          rcases List.mem_cons.1 hmem with rfl | hmem
          · exact ha (beq_self_eq_true sep)
          · exact hq hmem
        · exact ih (hl ▸ List.mem_cons_of_mem q h)

theorem not_mem_of_mem_split {part : String} (h : part ∈ split s) : '/' ∉ part.toList := by
  obtain ⟨cs, hcs, rfl⟩ := List.mem_map.1 h
  rw [String.toList_ofList]
  exact not_mem_of_mem_splitOn hcs

/-- To join two texts is to join their paths. -/
theorem of_join (s t : String) : of (s ++ "/" ++ t) = of s * of t := by
  have hsplit : split (s ++ "/" ++ t) = split s ++ split t := by
    simp only [split, String.toList_append, List.append_assoc]
    show List.map _ ((s.toList ++ '/' :: t.toList).splitOn '/') = _
    rw [List.splitOn_append_cons_self, List.map_append]
  rw [of, hsplit, ofParts, List.map_append, List.prod_append]
  rfl

theorem ofPart_val (n : Name) : ofPart n.1 = .down n := by
  rw [ofPart, if_neg n.2.2.2.1, dif_pos n.2]

theorem ofParts_parts (a : Relative Name) : ofParts (parts a) = a := by
  have hups : ∀ u : ℕ, ((List.replicate u "..").map ofPart).prod = ⟨u, []⟩ := by
    intro u
    induction u with
    | zero => rfl
    | succ u ih =>
      rw [List.replicate_succ', List.map_append, List.prod_append, ih]
      rfl
  have hnames : ∀ ns : List Name, ∀ u : ℕ,
      (⟨u, []⟩ : Relative Name) * ((ns.map Subtype.val).map ofPart).prod = ⟨u, ns⟩ := by
    intro ns u
    induction ns using List.reverseRec with
    | nil => rfl
    | append_singleton ns n ih =>
      rw [List.map_append, List.map_append, List.prod_append, ← mul_assoc, ih,
        List.map_singleton, List.map_singleton, List.prod_singleton, ofPart_val, Relative.mul_down]
  rw [ofParts, parts, List.map_append, List.prod_append, hups, hnames]

theorem parts_ne_nil (h : a ≠ 1) : parts a ≠ [] := by
  intro hnil
  obtain ⟨hups, hnames⟩ := List.append_eq_nil_iff.1 hnil
  refine h (Relative.ext ?_ ?_)
  · simpa using hups
  · exact List.map_eq_nil_iff.1 hnames

/-- A component of a path. -/
theorem mem_parts {part : String} (h : part ∈ parts a) : part ≠ "" ∧ '/' ∉ part.toList := by
  rcases List.mem_append.1 h with h | h
  · rw [(List.mem_replicate.1 h).2]
    decide
  · obtain ⟨n, -, rfl⟩ := List.mem_map.1 h
    exact ⟨n.2.1, n.2.2.2.2⟩

theorem toList_text (h : a ≠ 1) :
    (text a).toList = ['/'].intercalate ((parts a).map String.toList) := by
  rw [text, if_neg h, String.toList_intercalate]
  rfl

/-- **A path is denoted by its text.** -/
theorem of_text (a : Relative Name) : of (text a) = a := by
  by_cases h : a = 1
  · rw [h]
    rfl
  · have hsplit : split (text a) = parts a := by
      rw [split, toList_text h, List.splitOn_intercalate _ ?_ ?_, List.map_map]
      · simp [Function.comp_def]
      · intro l hl
        obtain ⟨part, hpart, rfl⟩ := List.mem_map.1 hl
        exact (mem_parts hpart).2
      · exact fun hnil => parts_ne_nil h (List.map_eq_nil_iff.1 hnil)
    rw [of, hsplit, ofParts_parts]

/-- A text of a relative path is neither empty nor rooted. -/
theorem exists_toList_text (a : Relative Name) : ∃ c cs, (text a).toList = c :: cs ∧ c ≠ '/' := by
  by_cases h : a = 1
  · rw [h]
    exact ⟨'.', [], by decide, by decide⟩
  · obtain ⟨part, ps, hparts⟩ := List.exists_cons_of_ne_nil (parts_ne_nil h)
    obtain ⟨hne, hnot⟩ := mem_parts (hparts ▸ List.mem_cons_self : part ∈ parts a)
    obtain ⟨c, cs, hcs⟩ := List.exists_cons_of_ne_nil
      (fun hnil => hne (String.toList_eq_nil_iff.1 hnil) : part.toList ≠ [])
    have hc : c ≠ '/' := by
      rintro rfl
      exact hnot (hcs ▸ List.mem_cons_self)
    refine ⟨c, ['/'].intercalate (cs :: ps.map String.toList), ?_, hc⟩
    rw [toList_text h, hparts, List.map_cons, hcs, List.intercalate_cons_cons_left]

theorem text_ne_empty (a : Relative Name) : text a ≠ "" := by
  obtain ⟨c, cs, hcs, -⟩ := exists_toList_text a
  intro h
  rw [h] at hcs
  cases hcs

theorem text_injective : Function.Injective text := fun a b h => by
  rw [← of_text a, h, of_text]

end Texts

/-! ### The stack -/

/-- The stack of the components so far, the last one first, with one more.  A rooted path cannot go
above its root. -/
def push (rooted : Bool) (stack : List String) (part : String) : List String :=
  if part = "" ∨ part = "." then stack
  else if part ≠ ".." then part :: stack
  else match stack with
    | [] => if rooted then [] else [".."]
    | last :: rest => if last = ".." then ".." :: stack else rest

section Stack

variable {a : Relative Name} {part : String}

theorem push_parts (h : '/' ∉ part.toList) :
    push false (parts a).reverse part = (parts (a * ofPart part)).reverse := by
  obtain ⟨u, ns⟩ := a
  simp only [push, Bool.false_eq_true, if_false]
  split_ifs with hskip hdown
  · have hone : ofPart part = 1 := by
      rcases hskip with rfl | rfl <;> rfl
    rw [hone, mul_one]
  · rw [not_or] at hskip
    have hpart : ofPart part = .down ⟨part, hskip.1, hskip.2, hdown, h⟩ := by
      rw [ofPart, if_neg hdown, dif_pos ⟨hskip.1, hskip.2, hdown, h⟩]
    rw [hpart, Relative.mul_down]
    simp [parts]
  · rw [not_not] at hdown
    subst hdown
    have hup : ofPart ".." = .up := rfl
    rw [hup]
    induction ns using List.reverseRec with
    | nil =>
      rw [Relative.mul_up_nil]
      cases u with
      | zero => rfl
      | succ u => simp [parts, List.replicate_succ']
    | append_singleton ns n ih =>
      rw [Relative.mul_up_concat]
      have hn : n.1 ≠ ".." := n.2.2.2.1
      simp [parts, hn]

/-- **The stack computes the path.** -/
theorem foldl_push {ps : List String} (h : ∀ part ∈ ps, '/' ∉ part.toList) :
    ps.foldl (push false) (parts a).reverse = (parts (a * ofParts ps)).reverse := by
  induction ps generalizing a with
  | nil => rw [List.foldl_nil, ofParts, List.map_nil, List.prod_nil, mul_one]
  | cons part ps ih =>
    rw [List.forall_mem_cons] at h
    rw [List.foldl_cons, push_parts h.1, ih h.2, mul_assoc]
    rfl

theorem foldl_push_split (s : String) :
    (split s).foldl (push false) [] = (parts (of s)).reverse := by
  have h := foldl_push (a := 1) fun part (hpart : part ∈ split s) => not_mem_of_mem_split hpart
  rwa [one_mul] at h

end Stack

/-! ### `String.splitOn` -/

section SplitOn

open String

theorem splitOnAux_of_valid (c : Char) (l m r : List Char) (acc : List String) :
    splitOnAux (ofList (l ++ m ++ r)) (ofList [c]) ⟨utf8Len l⟩ ⟨utf8Len l + utf8Len m⟩ 0 acc =
      acc.reverse ++ (List.splitOnPPrepend (· == c) r m.reverse).map ofList := by
  have hget : Pos.Raw.get (ofList [c]) 0 = c := get_of_valid [] [c]
  have hnext : Pos.Raw.next (ofList [c]) 0 = ⟨c.utf8Size⟩ := by simpa using next_of_valid [] c []
  induction r generalizing l m acc with
  | nil =>
    have hend : Pos.Raw.atEnd (ofList (l ++ m ++ [])) ⟨utf8Len l + utf8Len m⟩ = true := by
      simpa using atEnd_of_valid (l ++ m) []
    rw [splitOnAux, if_pos hend, extract_of_valid]
    simp
  | cons d r ih =>
    have hend : ¬ Pos.Raw.atEnd (ofList (l ++ m ++ d :: r)) ⟨utf8Len l + utf8Len m⟩ = true := by
      simpa using (atEnd_of_valid (l ++ m) (d :: r)).not.2 (List.cons_ne_nil d r)
    have hget' : Pos.Raw.get (ofList (l ++ m ++ d :: r)) ⟨utf8Len l + utf8Len m⟩ = d := by
      simpa using get_of_valid (l ++ m) (d :: r)
    have hnext' : Pos.Raw.next (ofList (l ++ m ++ d :: r)) ⟨utf8Len l + utf8Len m⟩ =
        ⟨utf8Len l + utf8Len m + d.utf8Size⟩ := by
      simpa using next_of_valid (l ++ m) d r
    rw [splitOnAux, List.splitOnPPrepend_cons_eq_if]
    simp only [if_neg hend, hget, hget', hnext]
    split_ifs with hd hat
    · have hc := beq_iff_eq.1 hd
      have hoff : Pos.Raw.unoffsetBy ⟨utf8Len l + utf8Len m + d.utf8Size⟩ ⟨c.utf8Size⟩ =
          ⟨utf8Len l + utf8Len m⟩ := by
        simp [Pos.Raw.unoffsetBy, hc]
      rw [hnext', hoff, extract_of_valid]
      simpa [Nat.add_assoc] using ih (l ++ m ++ [d]) [] (ofList m :: acc)
    · have hat' : Pos.Raw.atEnd (ofList [c]) ⟨c.utf8Size⟩ = true := by
        simpa using atEnd_of_valid [c] []
      exact absurd hat' hat
    · have hoff : Pos.Raw.unoffsetBy ⟨utf8Len l + utf8Len m⟩ 0 = ⟨utf8Len l + utf8Len m⟩ := by
        simp [Pos.Raw.unoffsetBy]
      rw [hoff, hnext']
      simpa [Nat.add_assoc] using ih l (m ++ [d]) acc

theorem splitOn_eq (s : String) (c : Char) :
    s.splitOn (ofList [c]) = (s.toList.splitOn c).map ofList := by
  rw [splitOn, if_neg (by simp)]
  simpa [List.splitOn_eq_splitOnP] using splitOnAux_of_valid c [] [] s.toList []

end SplitOn

end Paths
end Mach402
