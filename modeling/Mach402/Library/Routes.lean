import Mathlib.Tactic.Common

/-!
# Routes between hosts

Hosts are attached to networks, and some networks are open to the outside.  A set of hosts is sealed
by guards if their networks are not open and carry nobody else.

* `Topology.Route`: a way out, from host to host;
* `Route.guarded`: a way out of a sealed set passes a guard before anything else.
-/

namespace Mach402

/-- Who is attached to what, and what is open. -/
structure Topology (H N : Type) where
  attached : H → N → Prop
  isOpen : N → Prop

namespace Topology

variable {H N : Type} {T : Topology H N}

/-- A way out from a host, by the hosts it passes. -/
inductive Route (T : Topology H N) : H → List H → Prop
  | out {h : H} {n : N} (hn : T.attached h n) (ho : T.isOpen n) : Route T h []
  | hop {h k : H} {n : N} {l : List H} (hn : T.attached h n) (hk : T.attached k n)
    (hl : Route T k l) : Route T h (k :: l)

/-- The hosts in `A` are on networks that are not open, with each other and with guards alone. -/
def Sealed (T : Topology H N) (A G : H → Prop) : Prop :=
  ∀ h, A h → ∀ n, T.attached h n → ¬ T.isOpen n ∧ ∀ k, T.attached k n → A k ∨ G k

/-- **A way out of a sealed set** stays in it until it passes a guard. -/
theorem Route.guarded {A G : H → Prop} (hA : T.Sealed A G) {h : H} {l : List H} (hh : A h)
    (hl : T.Route h l) : ∃ l₁ g l₂, l = l₁ ++ g :: l₂ ∧ (∀ k ∈ l₁, A k) ∧ G g := by
  induction hl with
  | out hn ho => exact absurd ho (hA _ hh _ hn).1
  | @hop h k n l hn hk hl ih =>
    rcases (hA h hh n hn).2 k hk with hAk | hG
    · obtain ⟨l₁, g, l₂, rfl, hl₁, hg⟩ := ih hAk
      refine ⟨k :: l₁, g, l₂, rfl, fun j hj => ?_, hg⟩
      rcases List.mem_cons.1 hj with rfl | hj
      · exact hAk
      · exact hl₁ j hj
    · exact ⟨[], k, l, rfl, List.forall_mem_nil _, hG⟩

end Topology
end Mach402
