import Mathlib.Algebra.Order.Sub.Basic
import Mathlib.Algebra.Order.Monoid.Canonical.Defs
import Mathlib.Algebra.BigOperators.Group.List.Basic
import Mathlib.Tactic

/-!
# Prepaid purses

What was paid in is either spent or left; a purse is never overdrawn, it runs dry.  Amounts are
taken from a canonically ordered monoid, so no amount is negative and every purse is well formed.

* `Purse.total_spend`, `Purse.total_pay`: spending keeps the total, paying in adds to it;
* `Purse.spend_spend`: spending in portions is spending their sum.
-/

namespace Mach402

/-- What has been spent of a sum, and what is left of it. -/
@[ext]
structure Purse (α : Type) where
  spent : α
  left : α

namespace Purse

section Pay

variable {α : Type} [AddCommMonoid α]

/-- Everything ever paid in. -/
def total (x : Purse α) : α := x.spent + x.left

/-- Pay `n` in. -/
def pay (x : Purse α) (n : α) : Purse α := { x with left := x.left + n }

@[simp] theorem left_pay (x : Purse α) (n : α) : (x.pay n).left = x.left + n := rfl
@[simp] theorem spent_pay (x : Purse α) (n : α) : (x.pay n).spent = x.spent := rfl

@[simp] theorem total_pay (x : Purse α) (n : α) : (x.pay n).total = x.total + n := by
  simp [total, add_assoc]

end Pay

section Spend

variable {α : Type} [AddCommMonoid α] [LinearOrder α] [Sub α]

/-- Spend `n`, or what is left of it. -/
def spend (x : Purse α) (n : α) : Purse α :=
  { spent := x.spent + min n x.left, left := x.left - min n x.left }

@[simp] theorem left_spend (x : Purse α) (n : α) : (x.spend n).left = x.left - min n x.left := rfl
@[simp] theorem spent_spend (x : Purse α) (n : α) :
    (x.spend n).spent = x.spent + min n x.left := rfl

variable [CanonicallyOrderedAdd α] [OrderedSub α]

@[simp] theorem spend_zero (x : Purse α) : x.spend 0 = x := by
  ext <;> simp

variable [IsOrderedCancelAddMonoid α]

@[simp] theorem total_spend (x : Purse α) (n : α) : (x.spend n).total = x.total := by
  rw [total, left_spend, spent_spend, add_assoc, add_tsub_cancel_of_le (min_le_right _ _), total]

/-- **Two portions are one.** -/
theorem spend_spend (x : Purse α) (m n : α) : (x.spend m).spend n = x.spend (m + n) := by
  have hmin : min m x.left + min n (x.left - min m x.left) = min (m + n) x.left := by
    rcases le_total m x.left with hm | hm
    · rw [min_eq_left hm, ← min_add_add_left, add_tsub_cancel_of_le hm]
    · rw [min_eq_right hm, tsub_self, min_eq_right zero_le, add_zero,
        min_eq_right (hm.trans (le_add_of_nonneg_right zero_le))]
  ext
  · simp only [spent_spend, left_spend, add_assoc, hmin]
  · simp only [left_spend, ← hmin, tsub_add_eq_tsub_tsub]

end Spend

end Purse
end Mach402
