import Mathlib.Data.List.Basic
import Mathlib.Tactic

/-!
# Hosts and ports

A network address as one string: `host:port`, with brackets around a host that has colons.

* `HostPort.cutLast`: what stands before and after the last occurrence of a character;
* `HostPort.split`, `HostPort.join`: strict splitting, which takes one port and one pair of brackets
  at most, and joining;
* `HostPort.authority`: the lenient splitting of an URL, which takes a port just if it is a number;
* `HostPort.split_eq_some`: what can be split, and `HostPort.split_join`: what has been joined is
  split again, or not at all.
-/

namespace Mach402
namespace HostPort

/-- A text, by its characters. -/
abbrev Str : Type := List Char

/-- What stands before and after the last `c`. -/
def cutLast (c : Char) : Str → Option (Str × Str)
  | [] => none
  | x :: s =>
    match cutLast c s with
    | some r => some (x :: r.1, r.2)
    | none => if x = c then some ([], s) else none

section CutLast

variable {c : Char} {s a b : Str}

theorem cutLast_eq_none : cutLast c s = none ↔ c ∉ s := by
  induction s with
  | nil => simp [cutLast]
  | cons x s ih =>
    rw [List.mem_cons, not_or, ← ih, cutLast]
    cases cutLast c s with
    | none => simp [eq_comm]
    | some r => simp

theorem cutLast_append (a : Str) (h : c ∉ b) : cutLast c (a ++ c :: b) = some (a, b) := by
  induction a with
  | nil => simp [cutLast, cutLast_eq_none.2 h]
  | cons x a ih => simp [cutLast, ih]

theorem of_cutLast (h : cutLast c s = some (a, b)) : s = a ++ c :: b ∧ c ∉ b := by
  induction s generalizing a with
  | nil => cases h
  | cons x s ih =>
    rw [cutLast] at h
    cases hs : cutLast c s with
    | none =>
      simp only [hs] at h
      split_ifs at h with hx
      cases h
      exact ⟨by rw [hx, List.nil_append], cutLast_eq_none.1 hs⟩
    | some r =>
      simp only [hs, Option.some.injEq, Prod.mk.injEq] at h
      obtain ⟨rfl, rfl⟩ := h
      obtain ⟨hs', hb⟩ := ih hs
      exact ⟨by rw [List.cons_append, ← hs'], hb⟩

end CutLast

/-- No brackets. -/
def Clean (s : Str) : Prop := '[' ∉ s ∧ ']' ∉ s

instance (s : Str) : Decidable (Clean s) := inferInstanceAs (Decidable (_ ∧ _))

/-- What stands between a bracket at the start and one at the end. -/
def unbracket : Str → Option Str
  | '[' :: s => if s.getLast? = some ']' then some s.dropLast else none
  | _ => none

/-- **Strict splitting.** -/
def split (s : Str) : Option (Str × Str) :=
  match cutLast ':' s with
  | none => none
  | some (a, port) =>
    if s.head? = some '[' then
      match unbracket a with
      | none => none
      | some host => if Clean host ∧ Clean port then some (host, port) else none
    else if ':' ∉ a ∧ Clean a ∧ Clean port then some (a, port)
    else none

/-- `net.JoinHostPort`: a host with colons is bracketed. -/
def join (host port : Str) : Str :=
  if ':' ∈ host then '[' :: (host ++ ']' :: ':' :: port) else host ++ ':' :: port

/-- **Lenient splitting**: a host, without its brackets, and a port, which may be missing. -/
def authority (s : Str) : Str × Str :=
  let r : Str × Str :=
    match cutLast ':' s with
    | none => (s, [])
    | some (a, port) => if port.all Char.isDigit then (a, port) else (s, [])
  ((unbracket r.1).getD r.1, r.2)

section Split

variable {s host port : Str}

theorem unbracket_append (s : Str) : unbracket ('[' :: (s ++ [']'])) = some s := by
  simp [unbracket]

theorem of_unbracket (h : unbracket s = some host) : s = '[' :: (host ++ [']']) := by
  unfold unbracket at h
  split at h
  · next t =>
    split_ifs at h with ht
    cases h
    rw [List.dropLast_append_getLast? _ ht]
  · cases h

theorem unbracket_of_head (h : s.head? ≠ some '[') : unbracket s = none := by
  unfold unbracket
  split
  · exact absurd rfl h
  · rfl

theorem Clean.head (h : Clean s) : s.head? ≠ some '[' := by
  intro hs
  cases s with
  | nil => cases hs
  | cons x s =>
    rw [List.head?_cons, Option.some.injEq] at hs
    exact h.1 (by rw [hs]; exact List.mem_cons_self)

theorem head_append (h : host.head? ≠ some '[') :
    (host ++ ':' :: port).head? ≠ some '[' := by
  cases host with
  | nil => simp
  | cons x host => exact h

theorem cutLast_bracketed (host : Str) (h : ':' ∉ port) :
    cutLast ':' ('[' :: (host ++ ']' :: ':' :: port)) = some ('[' :: (host ++ [']']), port) := by
  rw [← cutLast_append ('[' :: (host ++ [']'])) h]
  simp

/-- **What can be split.** -/
theorem split_eq_some :
    split s = some (host, port) ↔ Clean host ∧ Clean port ∧ ':' ∉ port ∧
      (s = host ++ ':' :: port ∧ ':' ∉ host ∨ s = '[' :: (host ++ ']' :: ':' :: port)) := by
  constructor
  · intro h
    unfold split at h
    cases hcut : cutLast ':' s with
    | none => simp [hcut] at h
    | some r =>
      obtain ⟨a, b⟩ := r
      obtain ⟨hs, hb⟩ := of_cutLast hcut
      simp only [hcut] at h
      split_ifs at h with hhead hclean
      · cases hun : unbracket a with
        | none => simp [hun] at h
        | some t =>
          simp only [hun] at h
          split_ifs at h with hclean
          cases h
          refine ⟨hclean.1, hclean.2, hb, Or.inr ?_⟩
          rw [hs, of_unbracket hun]
          simp
      · cases h
        exact ⟨hclean.2.1, hclean.2.2, hb, Or.inl ⟨hs, hclean.1⟩⟩
  · rintro ⟨hhost, hport, hcolon, ⟨rfl, h⟩ | rfl⟩
    · rw [split, cutLast_append host hcolon]
      simp only
      rw [if_neg (head_append hhost.head), if_pos ⟨h, hhost, hport⟩]
    · rw [split, cutLast_bracketed host hcolon]
      simp only [List.head?_cons, if_true, unbracket_append]
      rw [if_pos ⟨hhost, hport⟩]

/-- **What has been joined** is split again into the same host or not at all, but for brackets
around a host without colons. -/
theorem split_join {h p : Str} (hcolon : ':' ∉ port)
    (hhead : ':' ∈ host ∨ host.head? ≠ some '[') (hsplit : split (join host port) = some (h, p)) :
    h = host := by
  unfold join at hsplit
  split_ifs at hsplit with hmem
  · rw [split, cutLast_bracketed host hcolon] at hsplit
    simp only [List.head?_cons, if_true, unbracket_append] at hsplit
    split_ifs at hsplit
    cases hsplit
    rfl
  · rw [split, cutLast_append host hcolon] at hsplit
    simp only [if_neg (head_append (hhead.resolve_left hmem))] at hsplit
    split_ifs at hsplit
    cases hsplit
    rfl

theorem authority_of_not_mem (h : ':' ∉ s) : authority s = ((unbracket s).getD s, []) := by
  rw [authority, cutLast_eq_none.2 h]

theorem authority_append (a : Str) (h : port.all Char.isDigit = true) :
    authority (a ++ ':' :: port) = ((unbracket a).getD a, port) := by
  have hcolon : ':' ∉ port := fun hmem => by simpa using List.all_eq_true.1 h ':' hmem
  rw [authority, cutLast_append a hcolon]
  simp only [h, if_true]

/-- Where strict splitting gives a host and a number, lenient splitting gives them too. -/
theorem authority_of_split (h : split s = some (host, port))
    (hport : port.all Char.isDigit = true) : authority s = (host, port) := by
  obtain ⟨hclean, -, -, ⟨rfl, -⟩ | rfl⟩ := split_eq_some.1 h
  · rw [authority_append host hport, unbracket_of_head hclean.head, Option.getD_none]
  · have hs : '[' :: (host ++ ']' :: ':' :: port) = ('[' :: (host ++ [']'])) ++ ':' :: port := by
      simp
    rw [hs, authority_append _ hport, unbracket_append, Option.getD_some]

end Split

end HostPort
end Mach402
