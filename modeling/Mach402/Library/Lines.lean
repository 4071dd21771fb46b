import Mathlib.Data.List.Basic
import Mathlib.Data.List.Induction
import Mathlib.Tactic.Common

/-!
# Lines

A text that is written line by line, each line ended by a separator.  A write may stop anywhere, so
the text need not end with one.

* `Lines.complete`: the lines that are ended;
* `Lines.Terminated`: nothing follows the last of them;
* `Lines.complete_prefix`: no write takes a complete line away;
* `Lines.complete_line`: a line is complete on its own only after a terminated text;
* `Lines.splitOn_intercalate`: what is joined is split again, each piece on its own.
-/

namespace Mach402
namespace Lines

variable {α : Type} [DecidableEq α] {sep : α}

/-- The lines that a separator ends. -/
def complete (sep : α) (l : List α) : List (List α) := (l.splitOn sep).dropLast

/-- A text after which a line can begin. -/
def Terminated (sep : α) (l : List α) : Prop := l = [] ∨ l.getLast? = some sep

instance (sep : α) (l : List α) : Decidable (Terminated sep l) :=
  inferInstanceAs (Decidable (_ ∨ _))

theorem splitOn_concat_sep (l : List α) : (l ++ [sep]).splitOn sep = l.splitOn sep ++ [[]] := by
  rw [List.splitOn_append_cons_self, List.splitOn_nil]

/-- A symbol that is not a separator goes to the last piece. -/
theorem splitOn_concat_of_ne {l : List α} {a : α} (ha : a ≠ sep) {ls : List (List α)}
    {t : List α} (h : l.splitOn sep = ls ++ [t]) :
    (l ++ [a]).splitOn sep = ls ++ [t ++ [a]] := by
  induction l generalizing ls t with
  | nil =>
    have hls : ls = [] ∧ t = [] := by
      rw [List.splitOn_nil] at h
      cases ls with
      | nil => simpa [eq_comm] using h
      | cons x ls => simp at h
    rw [hls.1, hls.2]
    exact List.splitOn_eq_singleton (by simpa using ha.symm)
  | cons b l ih =>
    obtain ⟨ls', t', hl⟩ := List.eq_nil_or_concat' (l.splitOn sep) |>.resolve_left
      (List.splitOn_ne_nil sep l)
    have hla := ih hl
    rw [List.cons_append, List.splitOn_cons_eq_if_modifyHead, hla]
    rw [List.splitOn_cons_eq_if_modifyHead, hl] at h
    split_ifs at h ⊢ with hb
    · rw [← List.cons_append] at h ⊢
      obtain ⟨hls, ht⟩ := List.append_inj' h rfl
      rw [hls, List.singleton_inj.1 ht]
    · cases ls' with
      | nil =>
        have h' : [] ++ [b :: t'] = ls ++ [t] := h
        obtain ⟨hls, ht⟩ := List.append_inj' h' rfl
        rw [← hls, ← List.singleton_inj.1 ht]
        rfl
      | cons x ls' =>
        have h' : ((b :: x) :: ls') ++ [t'] = ls ++ [t] := h
        obtain ⟨hls, ht⟩ := List.append_inj' h' rfl
        rw [← hls, ← List.singleton_inj.1 ht]
        rfl

/-- The complete lines and what follows them. -/
theorem exists_splitOn (sep : α) (l : List α) :
    ∃ t, l.splitOn sep = complete sep l ++ [t] := by
  obtain ⟨ls, t, h⟩ := List.eq_nil_or_concat' (l.splitOn sep) |>.resolve_left
    (List.splitOn_ne_nil sep l)
  exact ⟨t, by rw [complete, h, List.dropLast_concat]⟩

theorem complete_concat_sep (l : List α) : complete sep (l ++ [sep]) = l.splitOn sep := by
  rw [complete, splitOn_concat_sep, List.dropLast_concat]

theorem complete_concat_of_ne {l : List α} {a : α} (ha : a ≠ sep) :
    complete sep (l ++ [a]) = complete sep l := by
  obtain ⟨t, ht⟩ := exists_splitOn sep l
  rw [complete, splitOn_concat_of_ne ha ht, List.dropLast_concat]

/-- **What is complete stays complete.** -/
theorem complete_prefix (l m : List α) : complete sep l <+: complete sep (l ++ m) := by
  induction m using List.reverseRecOn with
  | nil => simp
  | append_singleton m a ih =>
    rw [← List.append_assoc]
    refine ih.trans ?_
    by_cases ha : a = sep
    · rw [ha, complete_concat_sep]
      exact List.dropLast_prefix _
    · simp only [complete_concat_of_ne ha, List.prefix_rfl]

/-- **A line after a terminated text** is a complete line of its own. -/
theorem complete_line {l x : List α} (h : Terminated sep l) (hx : sep ∉ x) :
    complete sep (l ++ (x ++ [sep])) = complete sep l ++ [x] := by
  rw [← List.append_assoc, complete_concat_sep]
  rcases h with rfl | h
  · exact List.splitOn_eq_singleton hx
  · obtain ⟨g, rfl⟩ := List.getLast?_eq_some_iff.1 h
    rw [complete_concat_sep, List.append_assoc, List.singleton_append,
      List.splitOn_append_cons_self, List.splitOn_eq_singleton hx]

/-- Pieces that are joined are split again, with the separators they have themselves. -/
theorem splitOn_intercalate (sep : α) {ls : List (List α)} (h : ls ≠ []) :
    ([sep].intercalate ls).splitOn sep = ls.flatMap (·.splitOn sep) := by
  induction ls with
  | nil => exact absurd rfl h
  | cons l ls ih =>
    cases ls with
    | nil => simp
    | cons m ls =>
      have hjoin : [sep].intercalate (l :: m :: ls) = l ++ sep :: [sep].intercalate (m :: ls) := by
        rw [List.intercalate_cons_cons]
        simp
      rw [hjoin, List.splitOn_append_cons_self, ih (by simp)]
      simp only [List.flatMap_cons]

end Lines
end Mach402
