import Mathlib.Data.List.Infix
import Mathlib.Data.List.TakeWhile
import Mathlib.Tactic.Common

/-!
# Searching a list

* `find`, `find_eq_some`: what is found at the first position at which it can be;
* `strip_eq_self`: nothing is dropped at the ends if nothing is to be dropped there;
* `contains`, `contains_iff`: whether one list is part of another;
* `cut_of_mem`, `cut_append`: a list in two, at the first place at which a separator stands.
-/

namespace Mach402
namespace Search

variable {α β : Type}

/-- What `here` finds at the first position at which it finds anything. -/
def find (here : List α → Option β) : List α → Option β
  | [] => here []
  | a :: l => (here (a :: l)).or (find here l)

variable {here : List α → Option β} {l : List α} {b : β}

/-- Nothing is found earlier in a list with one element more just if nothing is found in front of
that element either. -/
theorem forall_before_cons {a : α} {n : ℕ} :
    (∀ before after, a :: l = before ++ after → before.length < n + 1 → here after = none) ↔
      here (a :: l) = none ∧
        ∀ before after, l = before ++ after → before.length < n → here after = none := by
  constructor
  · intro h
    refine ⟨h [] (a :: l) rfl (by simp), fun before after hl hlt => ?_⟩
    exact h (a :: before) after (by rw [hl, List.cons_append]) (by simpa using hlt)
  · rintro ⟨hhere, h⟩ before after hl hlt
    cases before with
    | nil =>
      rw [List.nil_append] at hl
      rw [← hl, hhere]
    | cons c before =>
      rw [List.cons_append, List.cons.injEq] at hl
      exact h before after hl.2 (by simpa using hlt)

/-- **The first position counts.** -/
theorem find_eq_some : find here l = some b ↔ ∃ before after, l = before ++ after ∧
    here after = some b ∧
      ∀ before' after', l = before' ++ after' → before'.length < before.length →
        here after' = none := by
  induction l with
  | nil =>
    constructor
    · intro h
      exact ⟨[], [], rfl, h, by simp⟩
    · rintro ⟨before, after, hl, h, -⟩
      rw [(List.append_eq_nil_iff.1 hl.symm).2] at h
      exact h
  | cons a l ih =>
    rw [find]
    cases ha : here (a :: l) with
    | some b' =>
      rw [Option.some_or, Option.some.injEq]
      constructor
      · rintro rfl
        exact ⟨[], a :: l, rfl, ha, by simp⟩
      · rintro ⟨before, after, hl, h, hfirst⟩
        cases before with
        | nil =>
          rw [List.nil_append] at hl
          rw [← hl, ha] at h
          exact Option.some.inj h
        | cons c before =>
          have hnone := (forall_before_cons.mp hfirst).1
          rw [ha] at hnone
          cases hnone
    | none =>
      rw [Option.none_or, ih]
      constructor
      · rintro ⟨before, after, rfl, h, hfirst⟩
        exact ⟨a :: before, after, rfl, h, forall_before_cons.mpr ⟨ha, hfirst⟩⟩
      · rintro ⟨before, after, hl, h, hfirst⟩
        cases before with
        | nil =>
          rw [List.nil_append] at hl
          rw [← hl, ha] at h
          cases h
        | cons c before =>
          rw [List.cons_append, List.cons.injEq] at hl
          exact ⟨before, after, hl.2, h, (forall_before_cons.mp hfirst).2⟩

theorem find_eq_none : find here l = none ↔ ∀ after, after <:+ l → here after = none := by
  induction l with
  | nil => simp [find]
  | cons a l ih =>
    rw [find, Option.or_eq_none_iff, ih]
    simp only [List.suffix_cons_iff, forall_eq_or_imp]

/-- Nothing is dropped at the ends if nothing is to be dropped there. -/
theorem strip_eq_self {p : α → Bool} (hfirst : ∀ a ∈ l.head?, p a = false)
    (hlast : ∀ a ∈ l.getLast?, p a = false) :
    ((l.dropWhile p).reverse.dropWhile p).reverse = l := by
  have hself : ∀ {l : List α}, (∀ a ∈ l.head?, p a = false) → l.dropWhile p = l := by
    intro l hl
    cases l with
    | nil => rfl
    | cons a l => rw [List.dropWhile_cons_of_neg (by simp [hl a rfl])]
  have hback : ∀ a ∈ l.reverse.head?, p a = false := by
    rw [List.head?_reverse]
    exact hlast
  rw [hself hfirst, hself hback, List.reverse_reverse]

variable [DecidableEq α]

/-- Whether `part` occurs in the list. -/
def contains (part : List α) (l : List α) : Bool :=
  (find (fun after => if part.isPrefixOf after then some () else none) l).isSome

theorem contains_iff {part : List α} : contains part l = true ↔ part <:+: l := by
  rw [contains, Option.isSome_iff_ne_none, ne_eq, find_eq_none, List.infix_iff_prefix_suffix]
  push Not
  simp only [ne_eq, ite_eq_right_iff, reduceCtorEq, imp_false, not_not, List.isPrefixOf_iff_prefix]
  exact ⟨fun ⟨t, ht, hp⟩ => ⟨t, hp, ht⟩, fun ⟨t, hp, ht⟩ => ⟨t, ht, hp⟩⟩

variable {c : α} {before after : List α}

/-- A separator cuts a list in two. -/
theorem cut_of_mem (h : c ∈ l) :
    l = l.takeWhile (· ≠ c) ++ c :: (l.dropWhile (· ≠ c)).tail ∧ c ∉ l.takeWhile (· ≠ c) := by
  constructor
  · induction l with
    | nil => cases h
    | cons a l ih =>
      by_cases ha : a = c
      · subst ha
        simp
      · have hl : c ∈ l := (List.mem_cons.1 h).resolve_left fun hc => ha hc.symm
        have hkeep : decide (a ≠ c) = true := decide_eq_true ha
        simp only [List.takeWhile_cons, List.dropWhile_cons, hkeep, if_true, List.cons_append]
        rw [← ih hl]
  · intro hc
    simpa using List.mem_takeWhile_imp hc

/-- The first separator is the one that cuts. -/
theorem cut_append (after : List α) (h : c ∉ before) :
    (before ++ c :: after).takeWhile (· ≠ c) = before ∧
      ((before ++ c :: after).dropWhile (· ≠ c)).tail = after := by
  have hbefore : ∀ a ∈ before, decide (a ≠ c) = true := fun a ha =>
    decide_eq_true fun hac => h (hac ▸ ha)
  rw [List.takeWhile_append_of_pos hbefore, List.dropWhile_append_of_pos hbefore]
  simp

end Search
end Mach402
