import Mathlib.Logic.Relation
import Mathlib.Tactic.Common

/-!
# Labelled transition systems

A system has one initial state and, for every label, at most one successor.  Nondeterminism lives
in the choice of the label.

* `System.Run C`: the runs of which every step meets a condition `C` on the state it leaves and the
  label it takes; `System.Reach C` starts them at the initial state, `System.Reachable` drops the
  condition;
* `Reach.invariant`: what holds initially and is kept by every admitted step holds in every state
  reached;
* `exec`: the executable form of a run; `exists_reach` reads off it what a run reaches.
-/

namespace Mach402

/-- A labelled transition system. -/
structure System (σ ℓ : Type) where
  init : σ
  step : σ → ℓ → Option σ

namespace System

variable {σ ℓ : Type} {S : System σ ℓ} {C D : σ → ℓ → Prop}

/-- One step whose label meets `C`. -/
def Step (S : System σ ℓ) (C : σ → ℓ → Prop) (s t : σ) : Prop :=
  ∃ l, C s l ∧ S.step s l = some t

/-- A finite run of steps that all meet `C`. -/
abbrev Run (S : System σ ℓ) (C : σ → ℓ → Prop) : σ → σ → Prop :=
  Relation.ReflTransGen (S.Step C)

/-- The states reached from the initial one by steps that all meet `C`. -/
def Reach (S : System σ ℓ) (C : σ → ℓ → Prop) (s : σ) : Prop := S.Run C S.init s

/-- No condition on the steps. -/
def Any : σ → ℓ → Prop := fun _ _ => True

instance (s : σ) (l : ℓ) : Decidable (Any s l) := inferInstanceAs (Decidable True)

/-- The states reached by any run. -/
abbrev Reachable (S : System σ ℓ) (s : σ) : Prop := S.Reach Any s

theorem Reach.init : S.Reach C S.init := Relation.ReflTransGen.refl

theorem Reach.step {s t : σ} {l : ℓ} (h : S.Reach C s) (hc : C s l) (ht : S.step s l = some t) :
    S.Reach C t :=
  Relation.ReflTransGen.tail h ⟨l, hc, ht⟩

theorem Run.mono {s t : σ} (hCD : ∀ s l, C s l → D s l) (h : S.Run C s t) : S.Run D s t :=
  Relation.ReflTransGen.mono (fun s _ ⟨l, hc, ht⟩ => ⟨l, hCD s l hc, ht⟩) _ _ h

theorem Reach.mono {s : σ} (hCD : ∀ s l, C s l → D s l) (h : S.Reach C s) : S.Reach D s :=
  Run.mono hCD h

theorem Reach.reachable {s : σ} (h : S.Reach C s) : S.Reachable s :=
  h.mono fun _ _ _ => trivial

/-- **Invariance.**  The step case may use that the state it leaves is reached. -/
theorem Reach.invariant {I : σ → Prop} (h0 : I S.init)
    (hs : ∀ s l t, S.Reach C s → I s → C s l → S.step s l = some t → I t) {s : σ}
    (h : S.Reach C s) : I s := by
  induction h with
  | refl => exact h0
  | tail hst hl ih =>
    obtain ⟨l, hc, ht⟩ := hl
    exact hs _ l _ hst ih hc ht

/-- **Invariance along a run** that starts anywhere. -/
theorem Run.invariant {I : σ → Prop} {s t : σ} (h : S.Run C s t) (h0 : I s)
    (hs : ∀ u l v, I u → C u l → S.step u l = some v → I v) : I t := by
  induction h with
  | refl => exact h0
  | tail _ hl ih =>
    obtain ⟨l, hc, ht⟩ := hl
    exact hs _ l _ ih hc ht

/-- Run a list of labels, each of which must meet `C`. -/
def exec (S : System σ ℓ) (C : σ → ℓ → Prop) [∀ s l, Decidable (C s l)] : σ → List ℓ → Option σ
  | s, [] => some s
  | s, l :: ls => if C s l then (S.step s l).bind fun t => S.exec C t ls else none

section Exec

variable [∀ s l, Decidable (C s l)]

theorem run_of_exec {ls : List ℓ} {s t : σ} (h : S.exec C s ls = some t) : S.Run C s t := by
  induction ls generalizing s with
  | nil => cases h; exact Relation.ReflTransGen.refl
  | cons l ls ih =>
    rw [exec] at h
    split_ifs at h with hc
    obtain ⟨u, hu, ht⟩ := Option.bind_eq_some_iff.1 h
    exact Relation.ReflTransGen.head ⟨l, hc, hu⟩ (ih ht)

/-- A trace that computes shows what can be reached. -/
theorem exists_reach {p : σ → Bool} (ls : List ℓ) (h : (S.exec C S.init ls).any p) :
    ∃ s, S.Reach C s ∧ p s := by
  obtain ⟨s, hs, hp⟩ := (Option.any_eq_true _ _).1 h
  exact ⟨s, run_of_exec hs, hp⟩

end Exec

end System
end Mach402
