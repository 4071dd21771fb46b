import Mathlib.Logic.Function.Basic
import Mathlib.Tactic.Common

/-!
# Reverse indexes

A store keeps, next to its records, a map from keys back to records: `key n` is the key that record
`n` has, if there is such a record, and `index k` is the record that has the key `k`, or zero.

* `Indexes`: the two agree;
* `Indexes.injective`, `Indexes.eq_zero_iff`: what that says of the keys and of the zeros;
* `Indexes.insert`, `Indexes.move`: a new record, and a record that gets another key.
-/

namespace Mach402

variable {ι κ : Type} [Zero ι]

/-- `index` maps the key of each record to the record, and everything else to zero. -/
structure Indexes (key : ι → Option κ) (index : κ → ι) : Prop where
  zero : key 0 = none
  record : ∀ (k : κ) (n : ι), key n = some k → index k = n
  keyed : ∀ k : κ, index k ≠ 0 → key (index k) = some k

namespace Indexes

variable {key : ι → Option κ} {index : κ → ι} {k k' : κ} {n m : ι}

theorem empty : Indexes (fun _ : ι => (none : Option κ)) fun _ => 0 where
  zero := rfl
  record k n h := by cases h
  keyed k h := absurd rfl h

theorem ne_zero (h : Indexes key index) (hn : key n = some k) : n ≠ 0 := by
  rintro rfl
  rw [h.zero] at hn
  cases hn

/-- No key is shared. -/
theorem injective (h : Indexes key index) (hm : key m = some k) (hn : key n = some k) : m = n := by
  rw [← h.record k m hm, h.record k n hn]

theorem eq_zero_iff (h : Indexes key index) : index k = 0 ↔ ∀ n, key n ≠ some k := by
  refine ⟨fun h0 n hn => h.ne_zero hn ?_, fun hk => ?_⟩
  · rw [← h.record k n hn, h0]
  · by_contra h0
    exact hk (index k) (h.keyed k h0)

variable [DecidableEq ι] [DecidableEq κ]

/-- **A new record**, whose key nobody has. -/
theorem insert (h : Indexes key index) (hn : n ≠ 0) (hkey : key n = none) (hk : index k = 0) :
    Indexes (Function.update key n (some k)) (Function.update index k n) where
  zero := by rw [Function.update_of_ne hn.symm, h.zero]
  record j m hm := by
    by_cases hmn : m = n
    · subst hmn
      rw [Function.update_self, Option.some.injEq] at hm
      rw [hm, Function.update_self]
    · rw [Function.update_of_ne hmn] at hm
      have hjk : j ≠ k := by
        rintro rfl
        exact h.eq_zero_iff.1 hk m hm
      rw [Function.update_of_ne hjk, h.record j m hm]
  keyed j hj := by
    by_cases hjk : j = k
    · rw [hjk, Function.update_self, Function.update_self]
    · rw [Function.update_of_ne hjk] at hj ⊢
      have hkeyed := h.keyed j hj
      have hne : index j ≠ n := by
        intro hjn
        rw [hjn, hkey] at hkeyed
        cases hkeyed
      rw [Function.update_of_ne hne, hkeyed]

/-- Without its key, a record is out of the index. -/
theorem erase (h : Indexes key index) (hn : key n = some k) :
    Indexes (Function.update key n none) (Function.update index k 0) where
  zero := by rw [Function.update_of_ne (h.ne_zero hn).symm, h.zero]
  record j m hm := by
    by_cases hmn : m = n
    · rw [hmn, Function.update_self] at hm
      cases hm
    · rw [Function.update_of_ne hmn] at hm
      have hjk : j ≠ k := by
        rintro rfl
        exact hmn (h.injective hm hn)
      rw [Function.update_of_ne hjk, h.record j m hm]
  keyed j hj := by
    by_cases hjk : j = k
    · rw [hjk, Function.update_self] at hj
      exact absurd rfl hj
    · rw [Function.update_of_ne hjk] at hj ⊢
      have hkeyed := h.keyed j hj
      have hne : index j ≠ n := by
        intro hjn
        rw [hjn, hn, Option.some.injEq] at hkeyed
        exact hjk hkeyed.symm
      rw [Function.update_of_ne hne, hkeyed]

/-- **A record gets another key**, which nobody has. -/
theorem move (h : Indexes key index) (hn : key n = some k) (hk' : index k' = 0) :
    Indexes (Function.update key n (some k'))
      (Function.update (Function.update index k 0) k' n) := by
  have hfree : Function.update index k 0 k' = 0 := by
    by_cases hkk' : k' = k
    · rw [hkk', Function.update_self]
    · rw [Function.update_of_ne hkk', hk']
  simpa using (h.erase hn).insert (h.ne_zero hn) (Function.update_self ..) hfree

end Indexes
end Mach402
