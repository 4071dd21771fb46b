import Mach402.Agent.Money

/-!
# What a renter has at stake

The credit of a session is money the provider holds for its renter.  The opening payment is capped
at a chunk (`quotes_of_reach`), and so is each top-up; but a top-up is banked onto whatever credit
is left.
`capped_iff_fits`: the credit stays under the worth of a chunk in exactly those runs in which every
top-up fits under it when it is banked (`Fits`).
-/

namespace Mach402

/-! ### What is quoted -/

/-- The length the renter asks for, and the chunk the opening payment is for. -/
def Pc.quote : Pc → Option (ℤ × ℤ)
  | .validateSpec seconds chunk | .accepting seconds chunk | .collectPayment seconds chunk _
  | .mint seconds chunk _ => some (seconds, chunk)
  | .startLease o | .claimSlot o _ | .provision o | .awaitJupyter o | .failLease o _
  | .activate o | .sign o | .pointAt o | .reachable o | .settleOpening o | .markMetered o _ _
  | .setLength o _ _ => some (o.seconds, o.chunk)
  | _ => none

/-- The length is within the node's bounds, and the chunk is the one for it. -/
def Leases.Quotes (leases : Leases) (q : ℤ × ℤ) : Prop :=
  leases.validateSessionSeconds q.1 = none ∧ q.2 = leases.sessionChunk q.1

section Quote

variable {cfg : NodeConfig}

@[simp] theorem Pc.quote_of_returned {p : Pc} (h : p.returned) : p.quote = none := by
  cases p <;> first | rfl | cases h

/-- A quote is made once, for a length that passes the check. -/
theorem act_quote {s : Node} {p p' : Pc} {out : Outcome} {op : Op} {q : ℤ × ℤ}
    (h : s.act cfg p out = some (op, p')) (hq : p'.quote = some q) :
    p.quote = some q ∨ cfg.leases.Quotes q := by
  cases p with
  | create seconds =>
    simp only [Node.act] at h
    repeat' split at h
    all_goals cases h
    · cases hq
    · cases hq
    · cases hq
    · rename_i hv
      cases hq
      exact Or.inr ⟨hv, rfl⟩
  | _ =>
    simp only [Node.act] at h
    (repeat' split at h) <;> cases h <;> first | exact Or.inl hq | cases hq | simp at hq

variable {C : NodeGuard} {c : Machine.Config Node Pc}

theorem quotes_of_reach (h : (nodeSystem cfg).Reach C c) {i : ℕ} {p : Pc}
    (hp : c.threads[i]? = some p) {q : ℤ × ℤ} (hq : p.quote = some q) : cfg.leases.Quotes q :=
  Machine.always (M := node cfg) (Q := fun p => ∀ q, p.quote = some q → cfg.leases.Quotes q)
    (fun r q hq => by cases r <;> cases hq)
    (fun _ _ _ _ _ hp ha q hq => (act_quote ha hq).elim (hp q) id) h i p hp q hq

end Quote

/-- The opening payment of the thread is for a chunk at most. -/
def Pc.Chunked (cfg : NodeConfig) : Pc → Prop
  | .validateSpec _ chunk | .accepting _ chunk | .collectPayment _ chunk _ | .mint _ chunk _ =>
    chunk ≤ cfg.leases.sessionChunkSeconds
  | .startLease o | .claimSlot o _ | .provision o | .awaitJupyter o | .failLease o _
  | .activate o | .sign o | .pointAt o | .reachable o | .settleOpening o | .markMetered o _ _ =>
    o.chunk ≤ cfg.leases.sessionChunkSeconds
  | _ => True

/-! ### The cap -/

/-- No session has more credit than a chunk is worth. -/
def Node.Capped (cfg : NodeConfig) (s : Node) : Prop :=
  ∀ id, s.credit id ≤ (s.lease id).pricePerSecond * cfg.leases.sessionChunkSeconds

/-- A top-up is banked when it fits under the worth of a chunk, next to the credit that is left. -/
def Pc.fits (cfg : NodeConfig) (s : Node) : Pc → Bool
  | .addCredit p =>
    s.credit p.id + p.amount ≤ (s.lease p.id).pricePerSecond * cfg.leases.sessionChunkSeconds
  | _ => true

/-- Every top-up of the run fits. -/
abbrev Fits (cfg : NodeConfig) : NodeGuard := Machine.Guard fun c _ p _ => p.fits cfg c.shared

section Capped

variable {cfg : NodeConfig} {s : Node} {p p' : Pc} {op : Op}

theorem Pc.fits_of_idle (h : p.idle) : p.fits cfg s := by
  cases p <;> first | rfl | cases h

theorem Node.Capped.of_ledger (hc : s.Capped cfg) {s' : Node}
    (h : ∀ id, (s'.lease id).ledger = (s.lease id).ledger) : s'.Capped cfg := by
  intro id
  simpa only [Node.credit, Lease.credit, Lease.pricePerSecond, h id] using hc id

/-- An operation on a lease keeps the cap if it keeps that lease under it. -/
theorem Node.Capped.apply_lease_iff (hc : s.Capped cfg) {P : Lease → Prop} {j : LeaseId}
    (hj : s.Has P j) (lop : LeaseOp) :
    (s.apply (.lease j lop)).Capped cfg ↔ ((s.lease j).apply lop).credit ≤
      ((s.lease j).apply lop).pricePerSecond * cfg.leases.sessionChunkSeconds := by
  rw [← Node.lease_apply_lease hj]
  refine ⟨fun h => h j, fun h id => ?_⟩
  by_cases hid : id = j
  · exact hid ▸ h
  · rw [Node.credit, Node.lease_apply_of_ne hid]
    exact hc id

/-- **A step keeps the cap exactly if what it banks fits.** -/
theorem capped_step (hs : s.Sound) (hk : p.Knows s) (hch : p.Chunked cfg) (hop : op.Allowed s)
    (h : MoneyStep s p op p') (hc : s.Capped cfg) : (s.apply op).Capped cfg ↔ p.fits cfg s := by
  cases h with
  | idle hp hi hp' =>
    have hledger := fun id => (Node.sameMoney_idle hop hi id).ledger
    exact iff_of_true (hc.of_ledger hledger) (Pc.fits_of_idle hp)
  | settleOpening | settleTopUp | readNothing | readCredit | refund | refundFailed =>
    exact iff_of_true hc rfl
  | markMetered o payer transaction =>
    refine iff_of_true ((hc.apply_lease_iff hop _).2 ?_) rfl
    simp only [Lease.credit, Lease.pricePerSecond, Lease.ledger_apply, Option.map_some,
      Option.getD_some, Opening.amount]
    exact mul_le_mul_of_nonneg_left hch (Int.natCast_nonneg _)
  | addCredit p =>
    obtain ⟨g, hg⟩ := Option.ne_none_iff_exists'.1 hk.1.lease
    rw [hc.apply_lease_iff hop]
    simp [Pc.fits, Node.credit, Lease.credit, Lease.pricePerSecond, Lease.ledger_apply, hg,
      Ledger.pay]
  | burn j now m hp' =>
    have hm : s.Metered j := hk
    obtain ⟨g, hg⟩ := Option.ne_none_iff_exists'.1 hm.lease
    obtain ⟨h0, -⟩ := ((hs.lease j _ hm.leases_eq).metered g hg).2.2.chargeAt now (s.lease j)
    refine iff_of_true ((hc.apply_lease_iff hop _).2 ?_) rfl
    have hcap : g.credit ≤ g.pricePerSecond * cfg.leases.sessionChunkSeconds := by
      simpa [Node.credit, Lease.credit, Lease.pricePerSecond, hg] using hc j
    simp only [Lease.credit, Lease.pricePerSecond, Lease.ledger_apply, hg, Option.map_some,
      Option.getD_some, Ledger.spend]
    omega
  | markSettled j owed transaction e =>
    obtain ⟨g, hg⟩ := Option.ne_none_iff_exists'.1 hk.2.lease
    have hprice := ((hs.lease j _ hk.2.leases_eq).metered g hg).2.2.price
    refine iff_of_true ((hc.apply_lease_iff hop _).2 ?_) rfl
    simp only [Lease.credit, Lease.pricePerSecond, Lease.ledger_apply, hs.settleState hk.2, hg,
      if_false, Option.map_some, Option.getD_some]
    exact mul_nonneg hprice cfg.leases.chunk_pos.le

variable {C : NodeGuard} {c : Machine.Config Node Pc}

theorem chunked_of_reach (h : (nodeSystem cfg).Reach C c) {i : ℕ} {p : Pc}
    (hp : c.threads[i]? = some p) : p.Chunked cfg := by
  have hle : ∀ seconds chunk, p.quote = some (seconds, chunk) →
      chunk ≤ cfg.leases.sessionChunkSeconds := fun seconds chunk hq =>
    (quotes_of_reach h hp hq).2.trans_le (cfg.leases.sessionChunk_le seconds)
  cases p with
  | validateSpec | accepting | collectPayment | mint | startLease | claimSlot | provision
  | awaitJupyter | failLease | activate | sign | pointAt | reachable | settleOpening
  | markMetered => exact hle _ _ rfl
  | _ => trivial

/-- One step of a node under the cap. -/
theorem capped_iff_of_step (h : (nodeSystem cfg).Reach C c) (hc : c.shared.Capped cfg)
    {l : Machine.Label Outcome Request Event} {c' : Machine.Config Node Pc}
    (hs : (nodeSystem cfg).step c l = some c') : c'.shared.Capped cfg ↔ Fits cfg c l := by
  cases l with
  | env e =>
    cases hs
    exact iff_of_true (hc.of_ledger fun id => by cases e <;> rfl) trivial
  | start r =>
    cases hs
    exact iff_of_true hc trivial
  | run i out =>
    obtain ⟨p, op, p', hp, ha, rfl⟩ := Machine.step_run hs
    rw [Fits, Machine.Guard, hp]
    exact capped_step (sound_of_reach h) (knows_of_reach h hp) (chunked_of_reach h hp)
      (allowed_of_reach h hp ha) (moneyStep_of_act ha) hc

/-- **Capped exposure**, in the runs in which every top-up fits, and in no others: a run stays
under the cap up to its first top-up that does not. -/
theorem capped_iff_fits (h : (nodeSystem cfg).Reach (Fits cfg) c) :
    c.shared.Capped cfg ∧ ∀ l c', (nodeSystem cfg).step c l = some c' →
      (c'.shared.Capped cfg ↔ Fits cfg c l) := by
  have hc : c.shared.Capped cfg :=
    h.invariant (I := fun c => c.shared.Capped cfg)
      (fun id => by simp [Machine.system, Node.initial, Node.credit, Node.lease, Lease.credit,
        Lease.pricePerSecond, Lease.provisioning])
      fun c l c' hr hc hfits hs => (capped_iff_of_step hr hc hs).2 hfits
  exact ⟨hc, fun l c' hs => capped_iff_of_step h hc hs⟩

end Capped

/-- The renter buys the second minute when the first one is over. -/
def topUpWhenSpent : List (Machine.Label Outcome Request Event) :=
  openSession ++ .env (.advance 60000000000) :: .start .sweep :: turns 1 10 ++
    .start (.topUp sessionPath "t") :: turns 2 9

/-- A minute's credit again. -/
theorem capped_topUpWhenSpent :
    ∃ c, (nodeSystem .small).Reach (Fits .small) c ∧ c.shared.settled 0 = 120 ∧
      c.shared.credit 0 ≤ (c.shared.lease 0).pricePerSecond * 60 := by
  obtain ⟨c, hc, hp⟩ := System.exists_reach (S := nodeSystem .small) (C := Fits .small)
    (p := fun c => decide (c.shared.settled 0 = 120 ∧ c.shared.credit 0 = 60)) topUpWhenSpent
    (by decide +kernel)
  exact ⟨c, hc, (of_decide_eq_true hp).1, (capped_iff_fits hc).1 0⟩

/-- The renter buys the second minute at once. -/
def topUpEarly : List (Machine.Label Outcome Request Event) :=
  openSession ++ .start (.topUp sessionPath "t") :: turns 1 9

/-- **The exposure is not capped.**  Two minutes' credit, where a chunk is one. -/
theorem not_capped :
    ¬ ∀ (cfg : NodeConfig) (c : Machine.Config Node Pc), (nodeSystem cfg).Reachable c →
      c.shared.Capped cfg := by
  intro h
  obtain ⟨c, hc, hp⟩ := System.exists_reach (S := nodeSystem .small) (C := System.Any)
    (p := fun c => decide (c.shared.credit 0 = 120 ∧ (c.shared.lease 0).pricePerSecond = 1))
    topUpEarly (by decide +kernel)
  obtain ⟨hcredit, hprice⟩ := of_decide_eq_true hp
  have hle := h .small c hc 0
  rw [hcredit, hprice] at hle
  exact absurd hle (by decide)

end Mach402
