import Mathlib.Logic.Function.Iterate
import Mathlib.Tactic.Common

/-!
# Bounded retries

Something is asked a bounded number of times, with a wait after each attempt but the last, and with
each wait as long as the one before it makes it.

* `retry`: the loop;
* `retry_eq_inl_iff`: what settles it is the first attempt that is not to be made again, or the
  first wait that is cut short;
* `retry_eq_inr_iff`: it gives up once every attempt has been made.
-/

namespace Mach402

/-- What an attempt comes to: an answer, or a reason to try again. -/
inductive Attempt (α ε : Type)
  | done (a : α)
  | again (e : ε)

section Retry

variable {α ε δ : Type}

/-- Ask, and up to `more` times again.  A wait may be cut short, with an answer of its own. -/
def retry (ask : ℕ → Attempt α ε) (wait : ℕ → δ → Option α) (next : δ → δ) :
    ℕ → ℕ → δ → α ⊕ ε
  | more, attempt, delay =>
    match ask attempt with
    | .done a => .inl a
    | .again e =>
      match more with
      | 0 => .inr e
      | more + 1 =>
        match wait attempt delay with
        | some a => .inl a
        | none => retry ask wait next more (attempt + 1) (next delay)

variable {ask : ℕ → Attempt α ε} {wait : ℕ → δ → Option α} {next : δ → δ}

/-- The attempts before the `k`th are all to be made again, and no wait is cut short. -/
def Passed (ask : ℕ → Attempt α ε) (wait : ℕ → δ → Option α) (next : δ → δ) (n : ℕ) (delay : δ)
    (k : ℕ) : Prop :=
  ∀ j < k, (∃ e, ask (n + j) = .again e) ∧ wait (n + j) (next^[j] delay) = none

theorem passed_zero {n : ℕ} {delay : δ} : Passed ask wait next n delay 0 := by
  intro j hj
  omega

theorem passed_succ {n k : ℕ} {delay : δ} :
    Passed ask wait next n delay (k + 1) ↔
      ((∃ e, ask n = .again e) ∧ wait n delay = none) ∧
        Passed ask wait next (n + 1) (next delay) k := by
  constructor
  · intro h
    refine ⟨h 0 (Nat.succ_pos k), fun j hj => ?_⟩
    have hstep := h (j + 1) (by omega)
    rw [Function.iterate_succ_apply, show n + (j + 1) = n + 1 + j by omega] at hstep
    exact hstep
  · rintro ⟨hfirst, hrest⟩ j hj
    cases j with
    | zero => exact hfirst
    | succ j =>
      rw [Function.iterate_succ_apply, show n + (j + 1) = n + 1 + j by omega]
      exact hrest j (by omega)

/-- The `k`th attempt settles the retry: it is done, or the wait after it is cut short. -/
def SettledAt (ask : ℕ → Attempt α ε) (wait : ℕ → δ → Option α) (next : δ → δ) (more n : ℕ)
    (delay : δ) (a : α) (k : ℕ) : Prop :=
  k ≤ more ∧ Passed ask wait next n delay k ∧ (ask (n + k) = .done a ∨
    k < more ∧ (∃ e, ask (n + k) = .again e) ∧ wait (n + k) (next^[k] delay) = some a)

theorem settledAt_zero {more n : ℕ} {delay : δ} {a : α} :
    SettledAt ask wait next more n delay a 0 ↔
      ask n = .done a ∨ 0 < more ∧ (∃ e, ask n = .again e) ∧ wait n delay = some a := by
  constructor
  · exact fun h => h.2.2
  · exact fun h => ⟨Nat.zero_le _, passed_zero, h⟩

theorem settledAt_succ {more n k : ℕ} {delay : δ} {a : α} :
    SettledAt ask wait next (more + 1) n delay a (k + 1) ↔
      ((∃ e, ask n = .again e) ∧ wait n delay = none) ∧
        SettledAt ask wait next more (n + 1) (next delay) a k := by
  rw [SettledAt, SettledAt, passed_succ, Function.iterate_succ_apply,
    show n + (k + 1) = n + 1 + k by omega, Nat.add_le_add_iff_right, Nat.add_lt_add_iff_right]
  constructor
  · rintro ⟨hk, ⟨hfirst, hpassed⟩, hsettled⟩
    exact ⟨hfirst, hk, hpassed, hsettled⟩
  · rintro ⟨hfirst, hk, hpassed, hsettled⟩
    exact ⟨hk, ⟨hfirst, hpassed⟩, hsettled⟩

/-- **What settles a retry.** -/
theorem retry_eq_inl_iff {more n : ℕ} {delay : δ} {a : α} :
    retry ask wait next more n delay = .inl a ↔
      ∃ k, SettledAt ask wait next more n delay a k := by
  rw [← Nat.or_exists_add_one, settledAt_zero]
  induction more generalizing n delay with
  | zero =>
    -- there is no second attempt
    have hnone : ¬ ∃ k, SettledAt ask wait next 0 n delay a (k + 1) := by
      rintro ⟨k, hk, -⟩
      omega
    rw [retry]
    cases hask : ask n with
    | done b => simp [hnone]
    | again e => simp [hnone]
  | succ more ih =>
    simp only [settledAt_succ]
    rw [retry]
    cases hask : ask n with
    | done b => simp
    | again e =>
      cases hwait : wait n delay with
      | some b => simp
      | none =>
        show retry ask wait next more (n + 1) (next delay) = .inl a ↔ _
        have hfirst : SettledAt ask wait next more (n + 1) (next delay) a 0 ↔ _ := settledAt_zero
        rw [ih, ← hfirst, Nat.or_exists_add_one]
        simp

/-- **A retry gives up** with what the last attempt came to. -/
theorem retry_eq_inr_iff {more n : ℕ} {delay : δ} {e : ε} :
    retry ask wait next more n delay = .inr e ↔
      Passed ask wait next n delay more ∧ ask (n + more) = .again e := by
  induction more generalizing n delay with
  | zero =>
    rw [retry]
    cases hask : ask n with
    | done b => simp
    | again e' =>
      simp only [Sum.inr.injEq, Attempt.again.injEq]
      constructor
      · intro h
        exact ⟨passed_zero, h⟩
      · exact fun h => h.2
  | succ more ih =>
    rw [retry, passed_succ, show n + (more + 1) = n + 1 + more by omega]
    cases hask : ask n with
    | done b => simp
    | again e' =>
      cases hwait : wait n delay with
      | some b => simp
      | none =>
        show retry ask wait next more (n + 1) (next delay) = .inr e ↔ _
        rw [ih]
        simp

end Retry

end Mach402
