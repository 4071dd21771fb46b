import Mathlib.Algebra.BigOperators.Group.Finset.Piecewise
import Mathlib.Algebra.Order.BigOperators.Group.Finset
import Mathlib.Tactic

/-!
# Totals

What a family of accounts holds together, and how the total moves when one account changes.
-/

namespace Mach402

variable {ι α : Type} [Fintype ι]

/-- The total of `w` over a family.  The family may be large, and is never to be enumerated. -/
@[irreducible] def total (w : α → ℕ) (f : ι → α) : ℕ := ∑ i, w (f i)

theorem total_eq_zero {w : α → ℕ} {f : ι → α} (h : ∀ i, w (f i) = 0) : total w f = 0 := by
  rw [total]
  exact Finset.sum_eq_zero fun i _ => h i

theorem le_total (w : α → ℕ) (f : ι → α) (i : ι) : w (f i) ≤ total w f := by
  rw [total]
  exact Finset.single_le_sum (f := fun i => w (f i)) (fun _ _ => Nat.zero_le _)
    (Finset.mem_univ i)

/-- **One account changes.** -/
theorem total_update [DecidableEq ι] (w : α → ℕ) (f : ι → α) (i : ι) (a : α) :
    total w (Function.update f i a) + w (f i) = total w f + w a := by
  have hi : i ∈ (Finset.univ : Finset ι) := Finset.mem_univ i
  have hcomp : ∀ j, w (Function.update f i a j) = Function.update (fun j => w (f j)) i (w a) j :=
    fun j => by simp only [Function.update_apply]; split_ifs <;> rfl
  simp only [total, hcomp, Finset.sum_update_of_mem hi]
  rw [Finset.sum_eq_add_sum_sdiff_singleton_of_mem hi fun j => w (f j)]
  omega

end Mach402
