import Mach402.Library.Transition
import Mathlib.Algebra.BigOperators.Group.List.Basic
import Mathlib.Data.List.Pairwise
import Mathlib.Algebra.Order.BigOperators.Group.List
import Mathlib.Tactic

/-!
# Threads over shared state

A `Machine` runs any number of threads, each at a program point, over one shared state.  An atomic
action reads the shared state, chooses one operation on it and moves its own thread on; the
environment may change the shared state between actions, and new threads start at any time.

* `alone`, `Leads`: one thread by itself;
* `Outline`: an annotation of every program point, with the local and the interference-freedom
  obligations, and `Outline.holds`: the annotations hold in every state reached;
* `always`: what holds of the program points of all threads;
* `attended_elsewhere`, `attended_among`, `attended`: what some thread attends to;
* `account_eq`, `account_le`: the accounting rules.  A measure of the shared state plus a weight for
  each thread is constant (never falls) if every action keeps it (does not lower it);
* `Histories`: what a run leaves in a history that no action can see; `Histories.invariant`.
-/

namespace Mach402

/-- What the atomic actions, the operations and the environment do. -/
structure Machine (S Op P O R E : Type) where
  act : S → P → O → Option (Op × P)
  apply : S → Op → S
  start : R → P
  env : S → E → S

namespace Machine

variable {S Op P O R E : Type}

/-- The shared state and the program points of all threads, past and present. -/
structure Config (S P : Type) where
  shared : S
  threads : List P

/-- A change of the environment, a new thread, or one action of thread `i` with outcome `o`. -/
inductive Label (O R E : Type)
  | env (e : E)
  | start (r : R)
  | run (i : ℕ) (o : O)

/-- One step. -/
def step (M : Machine S Op P O R E) (c : Config S P) : Label O R E → Option (Config S P)
  | .env e => some { c with shared := M.env c.shared e }
  | .start r => some { c with threads := c.threads ++ [M.start r] }
  | .run i o =>
    c.threads[i]?.bind fun p => (M.act c.shared p o).map fun a =>
      ⟨M.apply c.shared a.1, c.threads.set i a.2⟩

/-- One thread by itself. -/
def alone (M : Machine S Op P O R E) : S → P → List O → Option (S × P)
  | s, p, [] => some (s, p)
  | s, p, o :: os => (M.act s p o).bind fun a => M.alone (M.apply s a.1) a.2 os

/-- What every action keeps, one thread by itself keeps. -/
theorem alone_invariant {M : Machine S Op P O R E} {I : S → P → Prop}
    (hact : ∀ s p o op p', I s p → M.act s p o = some (op, p') → I (M.apply s op) p')
    {os : List O} {s s' : S} {p p' : P} (h0 : I s p) (h : M.alone s p os = some (s', p')) :
    I s' p' := by
  induction os generalizing s p with
  | nil => cases h; exact h0
  | cons o os ih =>
    obtain ⟨⟨op, q⟩, ha, h⟩ := Option.bind_eq_some_iff.1 h
    exact ih (hact s p o op q h0 ha) h

/-- By itself, a thread gets from `p` to `p'`. -/
def Leads (M : Machine S Op P O R E) (s : S) (p : P) (s' : S) (p' : P) : Prop :=
  ∃ os, M.alone s p os = some (s', p')

section Leads

variable {M : Machine S Op P O R E} {s s' s'' : S} {p p' p'' : P}

theorem Leads.refl : M.Leads s p s p := ⟨[], rfl⟩

theorem Leads.step {o : O} {op : Op} (ha : M.act s p o = some (op, p'))
    (h : M.Leads (M.apply s op) p' s'' p'') : M.Leads s p s'' p'' := by
  obtain ⟨os, h⟩ := h
  exact ⟨o :: os, by rw [alone, ha, Option.bind_some, h]⟩

theorem Leads.trans (h : M.Leads s p s' p') (h' : M.Leads s' p' s'' p'') :
    M.Leads s p s'' p'' := by
  obtain ⟨os, h⟩ := h
  induction os generalizing s p with
  | nil => cases h; exact h'
  | cons o os ih =>
    obtain ⟨⟨op, q⟩, ha, h⟩ := Option.bind_eq_some_iff.1 h
    exact .step ha (ih h)

end Leads

/-- A condition on the actions alone. -/
def Guard (g : Config S P → ℕ → P → O → Bool) (c : Config S P) : Label O R E → Prop
  | .run i o => (c.threads[i]?.all fun p => g c i p o) = true
  | _ => True

instance (g : Config S P → ℕ → P → O → Bool) (c : Config S P) :
    (l : Label O R E) → Decidable (Guard g c l)
  | .run _ _ => inferInstanceAs (Decidable (_ = true))
  | .env _ | .start _ => inferInstanceAs (Decidable True)

theorem Guard.run {g : Config S P → ℕ → P → O → Bool} {c : Config S P} {i : ℕ} {o : O} {p : P}
    (h : Guard g c (.run i o : Label O R E)) (hp : c.threads[i]? = some p) : g c i p o = true := by
  simpa [Guard, hp] using h

theorem Guard.mono {g g' : Config S P → ℕ → P → O → Bool} {c : Config S P} {l : Label O R E}
    (hg : ∀ c i p o, g c i p o = true → g' c i p o = true) (h : Guard g c l) : Guard g' c l := by
  cases l with
  | env | start => trivial
  | run i o =>
    cases hp : c.threads[i]? with
    | none => simp [Guard, hp]
    | some p => simpa [Guard, hp] using hg c i p o (h.run hp)

/-- The machine as a transition system. -/
def system (M : Machine S Op P O R E) (s : S) : System (Config S P) (Label O R E) where
  init := ⟨s, []⟩
  step := M.step

variable {M : Machine S Op P O R E} {σ : S} {C : Config S P → Label O R E → Prop}

theorem step_run {c c' : Config S P} {i : ℕ} {o : O} (h : M.step c (.run i o) = some c') :
    ∃ (p : P) (op : Op) (p' : P), c.threads[i]? = some p ∧ M.act c.shared p o = some (op, p') ∧
      c' = ⟨M.apply c.shared op, c.threads.set i p'⟩ := by
  obtain ⟨p, hp, h⟩ := Option.bind_eq_some_iff.1 h
  obtain ⟨⟨op, p'⟩, ha, rfl⟩ := Option.map_eq_some_iff.1 h
  exact ⟨p, op, p', hp, ha, rfl⟩

/-- What a thread does by itself, it does among others that wait. -/
theorem Leads.reachable {s' : S} {p p' : P} {c : Config S P} {i : ℕ}
    (h : M.Leads c.shared p s' p') (hp : c.threads[i]? = some p) (hc : (M.system σ).Reachable c) :
    (M.system σ).Reachable ⟨s', c.threads.set i p'⟩ := by
  obtain ⟨os, h⟩ := h
  have hi := (List.getElem?_eq_some_iff.1 hp).1
  induction os generalizing c p with
  | nil =>
    cases h
    rwa [← (List.getElem?_eq_some_iff.1 hp).2, List.set_getElem_self]
  | cons o os ih =>
    obtain ⟨⟨op, q⟩, ha, h⟩ := Option.bind_eq_some_iff.1 h
    have hstep : (M.system σ).step c (.run i o) =
        some ⟨M.apply c.shared op, c.threads.set i q⟩ := by
      show M.step c (.run i o) = _
      rw [Machine.step, hp, Option.bind_some, ha, Option.map_some]
    simpa using ih (c := ⟨M.apply c.shared op, c.threads.set i q⟩) (List.getElem?_set_self hi)
      (hc.step trivial hstep) h (by simpa using hi)

/-! ### The shared state -/

/-- **What every action keeps of the shared state** lasts over a run. -/
theorem shared_of_run {I : S → Prop} (henv : ∀ s e, I s → I (M.env s e))
    (hact : ∀ (c : Config S P) (i : ℕ) (o : O) (p : P) (op : Op) (p' : P),
      (M.system σ).Reach C c → c.threads[i]? = some p → C c (.run i o) →
      M.act c.shared p o = some (op, p') → I c.shared → I (M.apply c.shared op))
    {c c' : Config S P} (hc : (M.system σ).Reach C c) (h : (M.system σ).Run C c c')
    (h0 : I c.shared) : I c'.shared := by
  have hboth := h.invariant (I := fun d => (M.system σ).Reach C d ∧ I d.shared) ⟨hc, h0⟩
    fun d l d' ⟨hd, hI⟩ hC hs => ?_
  · exact hboth.2
  · refine ⟨hd.step hC hs, ?_⟩
    cases l with
    | env e => cases hs; exact henv d.shared e hI
    | start r => cases hs; exact hI
    | run i o =>
      obtain ⟨p, op, p', hp, ha, rfl⟩ := step_run hs
      exact hact d i o p op p' hd hp hC ha hI

/-- **An invariant of the shared state.** -/
theorem shared_of_reach {I : S → Prop} (h0 : I σ) (henv : ∀ s e, I s → I (M.env s e))
    (hact : ∀ (c : Config S P) (i : ℕ) (o : O) (p : P) (op : Op) (p' : P),
      (M.system σ).Reach C c → c.threads[i]? = some p → C c (.run i o) →
      M.act c.shared p o = some (op, p') → I c.shared → I (M.apply c.shared op))
    {c : Config S P} (h : (M.system σ).Reach C c) : I c.shared :=
  shared_of_run henv hact .init h h0

/-! ### Annotations -/

/-- An annotation of the program points, sound under interference.  `I` is about the shared state
alone, `A` annotates a program point, `X` tells which program points two different threads may
occupy at once.  The obligations of an action may use that its configuration is reached, so that
one outline can build on another. -/
structure Outline (M : Machine S Op P O R E) (σ : S) (C : Config S P → Label O R E → Prop) where
  I : S → Prop
  A : S → P → Prop
  X : P → P → Prop
  init : I σ
  symm : ∀ p q, X p q → X q p
  start : ∀ s r, A s (M.start r)
  apart : ∀ r q, X (M.start r) q
  envI : ∀ s e, I s → I (M.env s e)
  envA : ∀ s e p, A s p → A (M.env s e) p
  /-- The acting thread establishes its next annotation. -/
  act : ∀ (c : Config S P) (i : ℕ) (o : O) (p : P) (op : Op) (p' : P),
    (M.system σ).Reach C c → c.threads[i]? = some p → C c (.run i o) →
    I c.shared → A c.shared p → M.act c.shared p o = some (op, p') →
    I (M.apply c.shared op) ∧ A (M.apply c.shared op) p'
  /-- It does not disturb any other thread's. -/
  free : ∀ (c : Config S P) (i j : ℕ) (o : O) (p q : P) (op : Op) (p' : P), i ≠ j →
    (M.system σ).Reach C c → c.threads[i]? = some p → c.threads[j]? = some q → C c (.run i o) →
    I c.shared → A c.shared p → A c.shared q → X p q → M.act c.shared p o = some (op, p') →
    A (M.apply c.shared op) q ∧ X p' q

/-- What an outline says about a configuration. -/
structure Outline.Holds (L : Outline M σ C) (c : Config S P) : Prop where
  shared : L.I c.shared
  annot : ∀ (i : ℕ) (p : P), c.threads[i]? = some p → L.A c.shared p
  apart : ∀ (i j : ℕ) (p q : P), i ≠ j → c.threads[i]? = some p → c.threads[j]? = some q →
    L.X p q

theorem Outline.holds_run (L : Outline M σ C) {c c' : Config S P} {i : ℕ} {o : O}
    (hr : (M.system σ).Reach C c) (hc : L.Holds c) (hC : C c (.run i o))
    (h : M.step c (.run i o) = some c') : L.Holds c' := by
  obtain ⟨p, op, p', hp, ha, rfl⟩ := step_run h
  obtain ⟨hI, hA⟩ := L.act c i o p op p' hr hp hC hc.shared (hc.annot i p hp) ha
  have hfree : ∀ (j : ℕ) (q : P), i ≠ j → c.threads[j]? = some q →
      L.A (M.apply c.shared op) q ∧ L.X p' q := fun j q hij hq =>
    L.free c i j o p q op p' hij hr hp hq hC hc.shared (hc.annot i p hp) (hc.annot j q hq)
      (hc.apart i j p q hij hp hq) ha
  have hi : i < c.threads.length := (List.getElem?_eq_some_iff.1 hp).1
  refine ⟨hI, fun j q hq => ?_, fun j k q r hjk hq hr => ?_⟩
  · by_cases hij : i = j
    · subst hij
      rw [List.getElem?_set_self hi] at hq
      cases hq
      exact hA
    · rw [List.getElem?_set_ne hij] at hq
      exact (hfree j q hij hq).1
  · by_cases hij : i = j
    · subst hij
      rw [List.getElem?_set_self hi] at hq
      rw [List.getElem?_set_ne hjk] at hr
      cases hq
      exact (hfree k r hjk hr).2
    · rw [List.getElem?_set_ne hij] at hq
      by_cases hik : i = k
      · subst hik
        rw [List.getElem?_set_self hi] at hr
        cases hr
        exact L.symm _ _ (hfree j q hij hq).2
      · rw [List.getElem?_set_ne hik] at hr
        exact hc.apart j k q r hjk hq hr

theorem Outline.holds_start (L : Outline M σ C) {c : Config S P} (hc : L.Holds c) (r : R) :
    L.Holds { c with threads := c.threads ++ [M.start r] } := by
  have hget : ∀ (i : ℕ) (p : P), (c.threads ++ [M.start r])[i]? = some p →
      c.threads[i]? = some p ∨ i = c.threads.length ∧ p = M.start r := by
    intro i p hp
    rcases lt_or_ge i c.threads.length with hi | hi
    · rw [List.getElem?_append_left hi] at hp
      exact Or.inl hp
    · rw [List.getElem?_append_right hi] at hp
      obtain ⟨hlt, hp⟩ := List.getElem?_eq_some_iff.1 hp
      simp only [List.length_singleton, Nat.lt_one_iff] at hlt
      exact Or.inr ⟨by omega, by simpa [hlt] using hp.symm⟩
  refine ⟨hc.shared, fun i p hp => ?_, fun i j p q hij hp hq => ?_⟩
  · rcases hget i p hp with hp | ⟨-, rfl⟩
    · exact hc.annot i p hp
    · exact L.start _ r
  · rcases hget i p hp with hp | ⟨hi, rfl⟩
    · rcases hget j q hq with hq | ⟨-, rfl⟩
      · exact hc.apart i j p q hij hp hq
      · exact L.symm _ _ (L.apart r p)
    · exact L.apart r q

/-- **The annotations hold in every state reached.** -/
theorem Outline.holds (L : Outline M σ C) {c : Config S P} (h : (M.system σ).Reach C c) :
    L.Holds c := by
  refine h.invariant (I := L.Holds) ⟨L.init, by simp [system], by simp [system]⟩
    fun c l c' hr hc hC hs => ?_
  cases l with
  | env e =>
    cases hs
    exact ⟨L.envI _ e hc.shared, fun i p hp => L.envA _ e p (hc.annot i p hp), hc.apart⟩
  | start r =>
    cases hs
    exact L.holds_start hc r
  | run i o => exact L.holds_run hr hc hC hs

/-! ### Program points and attendance -/

/-- A property of the program points that every action keeps holds of all threads. -/
theorem always {Q : P → Prop} (hstart : ∀ r, Q (M.start r))
    (hact : ∀ s p o op p', Q p → M.act s p o = some (op, p') → Q p') {c : Config S P}
    (h : (M.system σ).Reach C c) : ∀ (i : ℕ) (p : P), c.threads[i]? = some p → Q p := by
  let L : Outline M σ C :=
    { I := fun _ => True, A := fun _ => Q, X := fun _ _ => True, init := trivial
      symm := fun _ _ _ => trivial, start := fun _ => hstart, apart := fun _ _ => trivial
      envI := fun _ _ _ => trivial, envA := fun _ _ _ h => h
      act := fun c _ o p op p' _ _ _ _ hp ha => ⟨trivial, hact c.shared p o op p' hp ha⟩
      free := fun _ _ _ _ _ _ _ _ _ _ _ _ _ _ _ hq _ _ => ⟨hq, trivial⟩ }
  exact (L.holds h).annot

/-- **Attendance.**  A condition `D` of the shared state that only comes about together with a
thread that attends to it, and that a thread stops attending to only if another one does, is
attended whenever it holds. -/
theorem attended_elsewhere {D : S → Prop} {W : P → Prop} (h0 : ¬ D σ)
    (henv : ∀ s e, D (M.env s e) → D s)
    (hact : ∀ (c : Config S P) (i : ℕ) (o : O) (p : P) (op : Op) (p' : P),
      (M.system σ).Reach C c → c.threads[i]? = some p → C c (.run i o) →
      M.act c.shared p o = some (op, p') → D (M.apply c.shared op) →
      W p' ∨ (∃ (j : ℕ) (q : P), i ≠ j ∧ c.threads[j]? = some q ∧ W q) ∨ D c.shared ∧ ¬ W p)
    {c : Config S P} (h : (M.system σ).Reach C c) (hD : D c.shared) :
    ∃ (i : ℕ) (p : P), c.threads[i]? = some p ∧ W p := by
  refine h.invariant (I := fun c => D c.shared → ∃ (i : ℕ) (p : P), c.threads[i]? = some p ∧ W p)
    (fun h => absurd h h0) (fun c l c' hc ih hC hs hD => ?_) hD
  cases l with
  | env e => cases hs; exact ih (henv c.shared e hD)
  | start r =>
    cases hs
    obtain ⟨i, p, hp, hW⟩ := ih hD
    have hi := (List.getElem?_eq_some_iff.1 hp).1
    exact ⟨i, p, by rwa [List.getElem?_append_left hi], hW⟩
  | run i o =>
    obtain ⟨p, op, p', hp, ha, rfl⟩ := step_run hs
    have hi := (List.getElem?_eq_some_iff.1 hp).1
    rcases hact c i o p op p' hc hp hC ha hD with hW | ⟨j, q, hij, hq, hWq⟩ | ⟨hD', hW⟩
    · exact ⟨i, p', by rw [List.getElem?_set_self hi], hW⟩
    · exact ⟨j, q, by rwa [List.getElem?_set_ne hij], hWq⟩
    · obtain ⟨j, q, hq, hWq⟩ := ih hD'
      -- the acting thread is not the one that attends
      have hij : i ≠ j := by
        rintro rfl
        rw [hp, Option.some.injEq] at hq
        exact hW (hq ▸ hWq)
      exact ⟨j, q, by rwa [List.getElem?_set_ne hij], hWq⟩

/-- Attendance, where the acting thread does not itself attend. -/
theorem attended_among {D : S → Prop} {W : P → Prop} (h0 : ¬ D σ)
    (henv : ∀ s e, D (M.env s e) → D s)
    (hact : ∀ (c : Config S P) (i : ℕ) (o : O) (p : P) (op : Op) (p' : P),
      (M.system σ).Reach C c → c.threads[i]? = some p → C c (.run i o) →
      M.act c.shared p o = some (op, p') → D (M.apply c.shared op) →
      W p' ∨ (∃ q ∈ c.threads, W q ∧ ¬ W p) ∨ D c.shared ∧ ¬ W p) {c : Config S P}
    (h : (M.system σ).Reach C c) (hD : D c.shared) :
    ∃ (i : ℕ) (p : P), c.threads[i]? = some p ∧ W p := by
  refine attended_elsewhere h0 henv (fun c i o p op p' hc hp hC ha hD' => ?_) h hD
  refine (hact c i o p op p' hc hp hC ha hD').imp_right (Or.imp_left ?_)
  rintro ⟨q, hq, hWq, hW⟩
  obtain ⟨j, hj⟩ := List.getElem?_of_mem hq
  refine ⟨j, q, ?_, hj, hWq⟩
  rintro rfl
  rw [hp, Option.some.injEq] at hj
  exact hW (hj ▸ hWq)

/-- Attendance, where the thread that brings the condition about attends to it. -/
theorem attended {D : S → Prop} {W : P → Prop} (h0 : ¬ D σ)
    (henv : ∀ s e, D (M.env s e) → D s)
    (hact : ∀ (c : Config S P) (i : ℕ) (o : O) (p : P) (op : Op) (p' : P),
      (M.system σ).Reach C c → c.threads[i]? = some p → C c (.run i o) →
      M.act c.shared p o = some (op, p') → D (M.apply c.shared op) →
      W p' ∨ D c.shared ∧ ¬ W p) {c : Config S P}
    (h : (M.system σ).Reach C c) (hD : D c.shared) :
    ∃ (i : ℕ) (p : P), c.threads[i]? = some p ∧ W p :=
  attended_among h0 henv (fun c i o p op p' hc hp hC ha hD' =>
    (hact c i o p op p' hc hp hC ha hD').imp_right Or.inr) h hD

/-! ### Accounting -/

/-- The weights of all threads together. -/
def weigh (f : P → ℤ) (ps : List P) : ℤ := (ps.map f).sum

theorem weigh_append (f : P → ℤ) (ps : List P) (p : P) :
    weigh f (ps ++ [p]) = weigh f ps + f p := by
  simp [weigh]

theorem weigh_set (f : P → ℤ) {ps : List P} {i : ℕ} {p : P} (q : P) (h : ps[i]? = some p) :
    weigh f (ps.set i q) = weigh f ps - f p + f q := by
  obtain ⟨hi, rfl⟩ := List.getElem?_eq_some_iff.1 h
  have := List.sum_set' (ps.map f) i (f q)
  simp only [List.length_map, hi, dif_pos, List.getElem_map] at this
  rw [weigh, List.map_set, this, weigh]
  ring

theorem weigh_nonpos {f : P → ℤ} {ps : List P}
    (h : ∀ (i : ℕ) (p : P), ps[i]? = some p → f p ≤ 0) : weigh f ps ≤ 0 := by
  induction ps with
  | nil => simp [weigh]
  | cons p ps ih =>
    have hp := h 0 p rfl
    have hps := ih fun i q hq => h (i + 1) q (by simpa using hq)
    simp only [weigh, List.map_cons, List.sum_cons] at hps ⊢
    omega

theorem weigh_eq_zero {f : P → ℤ} {ps : List P} (h : ∀ p ∈ ps, f p = 0) : weigh f ps = 0 := by
  refine List.sum_eq_zero fun x hx => ?_
  obtain ⟨p, hp, rfl⟩ := List.mem_map.1 hx
  exact h p hp

theorem weigh_neg (f : P → ℤ) (ps : List P) : weigh (fun p => -f p) ps = -weigh f ps := by
  rw [weigh, weigh, List.sum_neg, List.map_map]
  rfl

theorem weigh_count (q : P → Bool) (ps : List P) :
    weigh (fun p => if q p then 1 else 0) ps = ps.countP q := by
  induction ps with
  | nil => rfl
  | cons p ps ih =>
    simp only [weigh, List.map_cons, List.sum_cons, List.countP_cons] at ih ⊢
    rw [ih, Nat.cast_add, add_comm]
    split_ifs <;> rfl

/-- **Accounting with inequality.**  The obligation of an action may use that its configuration is
reached. -/
theorem account_le {m : S → ℤ} {f : P → ℤ} {k : ℤ} (h0 : k ≤ m σ)
    (hstart : ∀ r, 0 ≤ f (M.start r)) (henv : ∀ s e, m s ≤ m (M.env s e))
    (hact : ∀ (c : Config S P) (i : ℕ) (o : O) (p : P) (op : Op) (p' : P),
      (M.system σ).Reach C c → c.threads[i]? = some p → C c (.run i o) →
      M.act c.shared p o = some (op, p') →
      m c.shared + f p ≤ m (M.apply c.shared op) + f p') {c : Config S P}
    (h : (M.system σ).Reach C c) : k ≤ m c.shared + weigh f c.threads := by
  refine h.invariant (I := fun c => k ≤ m c.shared + weigh f c.threads)
    (by simpa [system, weigh] using h0) fun c l c' hc ih hC hs => ?_
  cases l with
  | env e => cases hs; have := henv c.shared e; simp only; omega
  | start r => cases hs; have := hstart r; simp only [weigh_append]; omega
  | run i o =>
    obtain ⟨p, op, p', hp, ha, rfl⟩ := step_run hs
    have := hact c i o p op p' hc hp hC ha
    simp only [weigh_set f p' hp]
    omega

/-- **Accounting with equality.** -/
theorem account_eq {m : S → ℤ} {f : P → ℤ}
    (hstart : ∀ r, f (M.start r) = 0) (henv : ∀ s e, m (M.env s e) = m s)
    (hact : ∀ (c : Config S P) (i : ℕ) (o : O) (p : P) (op : Op) (p' : P),
      (M.system σ).Reach C c → c.threads[i]? = some p → C c (.run i o) →
      M.act c.shared p o = some (op, p') →
      m (M.apply c.shared op) + f p' = m c.shared + f p) {c : Config S P}
    (h : (M.system σ).Reach C c) : m c.shared + weigh f c.threads = m σ := by
  refine h.invariant (I := fun c => m c.shared + weigh f c.threads = m σ)
    (by simp [system, weigh]) fun c l c' hc ih hC hs => ?_
  cases l with
  | env e => cases hs; simpa only [henv] using ih
  | start r => cases hs; simpa only [weigh_append, hstart, add_zero] using ih
  | run i o =>
    obtain ⟨p, op, p', hp, ha, rfl⟩ := step_run hs
    have := hact c i o p op p' hc hp hC ha
    simp only [weigh_set f p' hp]
    omega

/-! ### Histories -/

variable {A : Type}

/-- The machine with a history next to its shared state, to which `f` adds each action.  No action
can see it. -/
def recording (M : Machine S Op P O R E) (f : S → P → Op → A → A) :
    Machine (S × A) (Op × A) P O R E where
  act s p o := (M.act s.1 p o).map fun a => ((a.1, f s.1 p a.1 s.2), a.2)
  apply s op := (M.apply s.1 op.1, op.2)
  start := M.start
  env s e := (M.env s.1 e, s.2)

/-- The configuration without the history. -/
def Config.forget (c : Config (S × A) P) : Config S P := ⟨c.shared.1, c.threads⟩

variable {f : S → P → Op → A → A} {a₀ : A}

theorem recording_act {s : S × A} {p p' : P} {o : O} {op : Op × A}
    (h : (M.recording f).act s p o = some (op, p')) :
    M.act s.1 p o = some (op.1, p') ∧ op.2 = f s.1 p op.1 s.2 := by
  obtain ⟨a, ha, heq⟩ := Option.map_eq_some_iff.1 h
  cases heq
  exact ⟨ha, rfl⟩

theorem step_recording (c : Config (S × A) P) (l : Label O R E) :
    M.step c.forget l = ((M.recording f).step c l).map Config.forget := by
  cases l with
  | env e => rfl
  | start r => rfl
  | run i o =>
    simp only [step, Config.forget]
    cases c.threads[i]? with
    | none => rfl
    | some p =>
      simp only [Option.bind_some, recording, Option.map_map]
      rfl

/-- A run gets to `c`, and its history, which is `a₀` at the start, to `a`. -/
def Histories (M : Machine S Op P O R E) (σ : S) (C : Config S P → Label O R E → Prop)
    (f : S → P → Op → A → A) (a₀ : A) (c : Config S P) (a : A) : Prop :=
  ((M.recording f).system (σ, a₀)).Reach (fun (d : Config (S × A) P) l => C d.forget l)
    ⟨(c.shared, a), c.threads⟩

theorem Histories.init : Histories M σ C f a₀ (M.system σ).init a₀ :=
  System.Reach.init (S := (M.recording f).system (σ, a₀))

theorem reach_forget {d : Config (S × A) P}
    (h : ((M.recording f).system (σ, a₀)).Reach (fun (d : Config (S × A) P) l => C d.forget l) d) :
    (M.system σ).Reach C d.forget := by
  refine h.invariant (I := fun d => (M.system σ).Reach C d.forget) .init
    fun d l d' _ ih hC hs => ?_
  have hstep : M.step d.forget l = some d'.forget := by
    rw [step_recording (f := f), show (M.recording f).step d l = some d' from hs, Option.map_some]
  exact ih.step hC hstep

/-- A run with a history is a run. -/
theorem Histories.reach {c : Config S P} {a : A} (h : Histories M σ C f a₀ c a) :
    (M.system σ).Reach C c :=
  reach_forget h

/-- Every run has a history. -/
theorem exists_histories {c : Config S P} (h : (M.system σ).Reach C c) (f : S → P → Op → A → A)
    (a₀ : A) : ∃ a, Histories M σ C f a₀ c a := by
  refine h.invariant (I := fun c => ∃ a, Histories M σ C f a₀ c a)
    ⟨a₀, .init⟩ fun c l c' _ ⟨a, ih⟩ hC hs => ?_
  have hstep : some c' = ((M.recording f).step ⟨(c.shared, a), c.threads⟩ l).map Config.forget := by
    rw [← step_recording]
    exact hs.symm
  obtain ⟨d, hd, rfl⟩ := Option.map_eq_some_iff.1 hstep.symm
  exact ⟨d.shared.2, System.Reach.step ih hC hd⟩

/-- **An invariant of the shared state and the history.** -/
theorem Histories.invariant {I : S → A → Prop} (h0 : I σ a₀)
    (henv : ∀ s e a, I s a → I (M.env s e) a)
    (hact : ∀ (c : Config S P) (i : ℕ) (o : O) (p : P) (op : Op) (p' : P) (a : A),
      (M.system σ).Reach C c → c.threads[i]? = some p → C c (.run i o) →
      M.act c.shared p o = some (op, p') → I c.shared a →
      I (M.apply c.shared op) (f c.shared p op a))
    {c : Config S P} {a : A} (h : Histories M σ C f a₀ c a) : I c.shared a := by
  refine shared_of_reach (M := M.recording f) (I := fun s => I s.1 s.2) h0
    (fun s e ih => henv s.1 e s.2 ih) (fun d i o p op p' hd hp hC ha ih => ?_) h
  obtain ⟨hact', hop⟩ := recording_act ha
  show I (M.apply d.shared.1 op.1) op.2
  rw [hop]
  exact hact d.forget i o p op.1 p' d.shared.2 (reach_forget hd) hp hC hact' ih

end Machine
end Mach402
