import Mach402.Agent.Money

/-!
# The refund a session reports

`Lease.Refunded` reports what has been transferred back to the renter.  `MarkSettled` is to be
idempotent, so that a session settled twice "still reports the real figure rather than the last
caller's", but every call overwrites the figure.  A settlement that found the session pending, and
reads the credit after another one has refunded it, marks the session settled with nothing.

* `Node.ShowsRefund`: the figure is the one transfer of the session;
* `SingleRefund`: a session has one transfer, before it is marked settled, and is not marked
  settled with nothing after it;
* `refund_shown`: the figure is right in every state of such a run, and the first step that breaks
  the condition makes it wrong.
-/

namespace Mach402

/-- A session has at most one transfer, and reports it once it is marked settled. -/
structure Node.ShowsRefund (s : Node) (id : LeaseId) : Prop where
  once : (s.refunds id).length ≤ 1
  before : (s.lease id).settleState ≠ .done → (s.lease id).refunded = none
  after : (s.lease id).settleState = .done → (s.lease id).refunded = some (s.refunds id).sum

/-- A transfer is made for a session that has had none and is not marked settled; a session that
has had one is marked settled with an amount. -/
def Op.singleRefund (s : Node) : Op → Bool
  | .refund id _ => decide (s.refunds id = [] ∧ (s.lease id).settleState ≠ .done)
  | .lease id (.markSettled owed) => decide (0 < owed ∨ s.refunds id = [])
  | _ => true

/-- Every step of the run is such. -/
abbrev SingleRefund (cfg : NodeConfig) : NodeGuard :=
  Machine.Guard fun c _ p out => (c.shared.act cfg p out).all fun a => a.1.singleRefund c.shared

/-! ### What the operations do to the report -/

/-- The operation transfers a refund of the session, or marks it settled. -/
def Op.settles (id : LeaseId) : Op → Bool
  | .refund j _ | .lease j (.markSettled _) => decide (j = id)
  | _ => false

section Apply

variable {s : Node} {id : LeaseId} {op : Op}

/-- **Other operations** leave the settlement of a session alone. -/
theorem settlement_apply (hs : s.Sound) (hop : op.Allowed s) (h : op.settles id = false) :
    (((s.apply op).lease id).settleState = .done ↔ (s.lease id).settleState = .done) ∧
      ((s.apply op).lease id).refunded = (s.lease id).refunded ∧
      (s.apply op).refunds id = s.refunds id := by
  cases op with
  | lease j lop =>
    by_cases hj : id = j
    · subst hj
      rw [Node.lease_apply_lease hop, Lease.settleState_apply, Lease.refunded_apply]
      cases lop with
      | markMetered =>
        obtain ⟨l, hl, hn, -⟩ := hop
        have hst := ((hs.lease id l hl).unmetered hn).1
        rw [← Node.lease_eq hl] at hst
        exact ⟨by simp [hst], rfl, rfl⟩
      | markSettled => exact absurd rfl (of_decide_eq_false h)
      | _ => exact ⟨Iff.rfl, rfl, rfl⟩
    · rw [Node.lease_apply_of_ne hj]
      exact ⟨Iff.rfl, rfl, rfl⟩
  | claim j l =>
    obtain ⟨⟨hn, -⟩, -, token, e, m, rfl⟩ := hop
    by_cases hj : id = j
    · subst hj
      simp [Node.lease, Node.apply, hn, Lease.provisioning]
    · simp [Node.lease, Node.apply, hj]
  | refund j a =>
    have hj : id ≠ j := Ne.symm (of_decide_eq_false h)
    exact ⟨Iff.rfl, rfl, by rw [Node.refunds_apply]; exact if_neg hj⟩
  | release j =>
    simp only [Node.apply]
    split_ifs <;> exact ⟨Iff.rfl, rfl, rfl⟩
  | settle | skip | mint | point | unpoint | freeze | thaw | publish => exact ⟨Iff.rfl, rfl, rfl⟩

namespace Node.ShowsRefund

theorem apply (h : s.ShowsRefund id) (hs : s.Sound) (hop : op.Allowed s)
    (hid : op.settles id = false) : (s.apply op).ShowsRefund id := by
  obtain ⟨hst, hr, hrefunds⟩ := settlement_apply hs hop hid
  constructor
  · rw [hrefunds]
    exact h.once
  · rw [Ne, hst, hr]
    exact h.before
  · rw [hst, hr, hrefunds]
    exact h.after

/-- The first transfer, before the session is marked settled. -/
theorem refund (h : s.ShowsRefund id) (hnil : s.refunds id = [])
    (hst : (s.lease id).settleState ≠ .done) (owed : ℤ) :
    (s.apply (.refund id owed)).ShowsRefund id where
  once := by simp [Node.refunds_apply, hnil]
  before := h.before
  after hdone := absurd hdone hst

/-- Marking a session settled with what has been transferred. -/
theorem markSettled (h : s.ShowsRefund id) (hs : s.Sound) (hm : s.Metered id) {owed : ℤ}
    (hop : (Op.lease id (.markSettled owed)).Allowed s) (hsum : (s.refunds id).sum = owed) :
    (s.apply (.lease id (.markSettled owed))).ShowsRefund id := by
  have hst := hs.settleState hm
  refine ⟨h.once, fun hdone => absurd ?_ hdone, fun _ => ?_⟩
  · simp [Node.lease_apply_lease hop, Lease.settleState_apply, hst]
  · rw [Node.lease_apply_lease hop, Lease.refunded_apply]
    simp [hst, Node.refunds_apply, hsum]

end Node.ShowsRefund

/-- Once a session is marked settled, a single refund does not change it. -/
theorem done_apply (hs : s.Sound) (hop : op.Allowed s) (hone : op.singleRefund s)
    (hdone : (s.lease id).settleState = .done) :
    ((s.apply op).lease id).settleState = .done ∧ (s.apply op).refunds id = s.refunds id := by
  cases hid : op.settles id with
  | false =>
    obtain ⟨hst, -, hrefunds⟩ := settlement_apply hs hop hid
    exact ⟨hst.2 hdone, hrefunds⟩
  | true =>
    cases op with
    | refund j a =>
      cases of_decide_eq_true hid
      exact absurd hdone (of_decide_eq_true hone).2
    | lease j lop =>
      cases lop with
      | markSettled owed =>
        cases of_decide_eq_true hid
        refine ⟨?_, rfl⟩
        rw [Node.lease_apply_lease hop, Lease.settleState_apply]
        simp [hdone]
      | _ => cases hid
    | _ => cases hid

end Apply

/-! ### Runs with a single refund -/

/-- What a settlement marks, it has transferred. -/
def Pc.Transferred (s : Node) : Pc → Prop
  | .markSettled id owed _ _ => 0 ≤ owed ∧ (0 < owed → s.refunds id = [owed])
  | _ => True

theorem Pc.transferred_of_idle {s : Node} {p : Pc} (h : p.idle) : p.Transferred s := by
  cases p with
  | markSettled => cases h
  | _ => trivial

/-- The amount a settlement marks is what has been transferred. -/
theorem Pc.Transferred.sum_eq {s : Node} {id : LeaseId} {owed : ℤ} {transaction : String}
    {e : Ender} (h : (Pc.markSettled id owed transaction e).Transferred s)
    (hone : (Op.lease id (.markSettled owed)).singleRefund s) : (s.refunds id).sum = owed := by
  obtain ⟨h0, hpos⟩ := h
  by_cases ho : 0 < owed
  · simp [hpos ho]
  · have hnil : s.refunds id = [] := (of_decide_eq_true hone).resolve_left ho
    rw [hnil, List.sum_nil]
    omega

section Run

variable {cfg : NodeConfig} {c c' : Machine.Config Node Pc} {i : ℕ} {p p' : Pc} {out : Outcome}
  {op : Op}

theorem singleRefund_run (hp : c.threads[i]? = some p)
    (ha : c.shared.act cfg p out = some (op, p')) :
    SingleRefund cfg c (.run i out) ↔ op.singleRefund c.shared := by
  simp [Machine.Guard, hp, ha]

/-- No transfer is of nothing. -/
theorem refunds_pos (h : (nodeSystem cfg).Reachable c) (id : LeaseId) :
    ∀ a ∈ c.shared.refunds id, 0 < a := by
  refine Machine.shared_of_reach (M := node cfg) (I := fun s => ∀ a ∈ s.refunds id, 0 < a)
    (fun a ha => by simp [Node.initial] at ha) (fun s e hpos => by cases e <;> exact hpos)
    (fun c i out p op p' hc hp _ ha hpos => ?_) h
  have hk := knows_of_reach hc hp
  show ∀ a ∈ (c.shared.apply op).refunds id, 0 < a
  cases (moneyStep_of_act ha).session (allowed_of_reach hc hp ha) id with
  | elsewhere _ hsame _ => rwa [hsame.refunds]
  | refund payer owed transaction e =>
    have howed : 0 < owed := hk.2.2
    simpa [Node.refunds_apply, or_imp, forall_and, howed] using hpos
  | _ => exact hpos

/-- Single refunds: every session reports its own, and a settlement marks what it transferred. -/
def singleOutline (cfg : NodeConfig) :
    Machine.Outline (node cfg) Node.initial (SingleRefund cfg) where
  I s := ∀ id, s.ShowsRefund id
  A s p := p.Transferred s
  X _ _ := True
  init id := ⟨Nat.zero_le _, fun _ => rfl, fun h => by cases h⟩
  symm _ _ _ := trivial
  start s r := by cases r <;> trivial
  apart _ _ := trivial
  envI s e h := by
    cases e <;> exact fun id => ⟨(h id).once, (h id).before, (h id).after⟩
  envA s e p h := by cases e <;> exact h
  act c i out p op p' hc hp hg hI hA ha := by
    have hs := sound_of_reach hc
    have hk := knows_of_reach hc hp
    have hop := allowed_of_reach hc hp ha
    have hone := (singleRefund_run hp ha).1 hg
    refine ⟨fun id => ?_, ?_⟩
    · cases hid : op.settles id with
      | false => exact (hI id).apply hs hop hid
      | true =>
        cases moneyStep_of_act ha with
        | refund j payer owed transaction e =>
          cases of_decide_eq_true hid
          obtain ⟨hnil, hst⟩ := of_decide_eq_true hone
          exact (hI _).refund hnil hst owed
        | markSettled j owed transaction e =>
          cases of_decide_eq_true hid
          exact (hI _).markSettled hs hk.2 hop (hA.sum_eq hone)
        | idle hp hi hp' =>
          cases op with
          | lease j lop => cases lop <;> first | cases hid | cases hi
          | refund => cases hi
          | _ => cases hid
        | _ => cases hid
    · show p'.Transferred (c.shared.apply op)
      cases moneyStep_of_act ha with
      | idle _ _ hp' | burn _ _ _ hp' | refundFailed _ _ _ _ hp' =>
        exact Pc.transferred_of_idle hp'
      | readNothing id e hcredit =>
        exact ⟨hs.credit_nonneg id, fun hpos => absurd hpos (not_lt.2 hcredit)⟩
      | refund id payer owed transaction e =>
        obtain ⟨hnil, -⟩ := of_decide_eq_true hone
        exact ⟨hk.2.2.le, fun _ => by simp [Node.refunds_apply, hnil]⟩
      | _ => trivial
  free c i j out p q op p' hij hc hp hq hg hI hA hAq _ ha := by
    refine ⟨?_, trivial⟩
    have hone := (singleRefund_run hp ha).1 hg
    show q.Transferred (c.shared.apply op)
    cases q with
    | markSettled id owed transaction e =>
      refine ⟨hAq.1, fun hpos => ?_⟩
      have hrefunds := hAq.2 hpos
      rw [Node.refunds_apply]
      cases op with
      | refund j a =>
        dsimp only
        split_ifs with hj
        · -- a second transfer
          subst hj
          exact absurd (of_decide_eq_true hone).1 (by simp [hrefunds])
        · exact hrefunds
      | _ => exact hrefunds
    | _ => trivial

/-- **A step after which every session reports its refund** meets the condition. -/
theorem single_of_shown (h : (nodeSystem cfg).Reach (SingleRefund cfg) c)
    (hp : c.threads[i]? = some p) (ha : c.shared.act cfg p out = some (op, p'))
    (hshown : ∀ id, (c.shared.apply op).ShowsRefund id) : op.singleRefund c.shared := by
  have hs := sound_of_reach h
  have hk := knows_of_reach h hp
  have hop := allowed_of_reach h hp ha
  have hnow := ((singleOutline cfg).holds h).shared
  cases moneyStep_of_act ha with
  | refund id payer owed transaction e =>
    have hrefunds : (c.shared.apply (.refund id owed)).refunds id =
        c.shared.refunds id ++ [owed] := by
      simp [Node.refunds_apply]
    have hnil : c.shared.refunds id = [] := by
      have hlen := (hshown id).once
      rw [hrefunds, List.length_append, List.length_singleton] at hlen
      exact List.length_eq_zero_iff.1 (by omega)
    refine decide_eq_true ⟨hnil, fun hdone => ?_⟩
    -- the lease keeps reporting that nothing was transferred
    have hzero := (hnow id).after hdone
    have howed : (c.shared.lease id).refunded = some (c.shared.refunds id ++ [owed]).sum := by
      have hafter := (hshown id).after hdone
      rwa [hrefunds] at hafter
    rw [hzero, hnil] at howed
    have hpos : 0 < owed := hk.2.2
    simp only [List.nil_append, List.sum_nil, List.sum_singleton, Option.some.injEq] at howed
    omega
  | markSettled id owed transaction e =>
    have hst := hs.settleState hk.2
    have hafter := (hshown id).after (by
      simp [Node.lease_apply_lease hop, Lease.settleState_apply, hst])
    rw [Node.lease_apply_lease hop, Lease.refunded_apply] at hafter
    simp only [hst, if_false, Option.some.injEq] at hafter
    by_cases hnil : c.shared.refunds id = []
    · exact decide_eq_true (Or.inr hnil)
    · have hsum : 0 < (c.shared.refunds id).sum :=
        List.sum_pos _ (refunds_pos h.reachable id) hnil
      exact decide_eq_true (Or.inl (hafter ▸ hsum))
  | idle _ hi _ =>
    cases op with
    | lease j lop => cases lop <;> first | rfl | cases hi
    | refund => cases hi
    | _ => rfl
  | _ => rfl

/-- Once a session is marked settled, its refund is not overwritten. -/
theorem refunded_stays {id : LeaseId} (h : (nodeSystem cfg).Reach (SingleRefund cfg) c)
    (hrun : (nodeSystem cfg).Run (SingleRefund cfg) c c')
    (hdone : (c.shared.lease id).settleState = .done) :
    (c'.shared.lease id).refunded = (c.shared.lease id).refunded := by
  have hsame := Machine.shared_of_run (M := node cfg)
    (I := fun s => (s.lease id).settleState = .done ∧ s.refunds id = c.shared.refunds id)
    (fun s e hs => by cases e <;> exact hs) (fun d i out p op p' hd hp hg ha hs => ?_) h hrun
    ⟨hdone, rfl⟩
  · rw [(((singleOutline cfg).holds h).shared id).after hdone,
      (((singleOutline cfg).holds (h.trans hrun)).shared id).after hsame.1, hsame.2]
  · obtain ⟨hst, hr⟩ := done_apply (sound_of_reach hd) (allowed_of_reach hd hp ha)
      ((singleRefund_run hp ha).1 hg) hs.1
    exact ⟨hst, hr.trans hs.2⟩

/-- **A session reports its refund** in every state of a run with a single refund, and the figure
is not overwritten.  The next step keeps this if and only if the condition holds of it.  A repeated
`MarkSettled` keeps the figure if and only if it names it. -/
theorem refund_shown (h : (nodeSystem cfg).Reach (SingleRefund cfg) c) :
    (∀ id, c.shared.ShowsRefund id) ∧
      (∀ id c', (nodeSystem cfg).Run (SingleRefund cfg) c c' →
        (c.shared.lease id).settleState = .done →
        (c'.shared.lease id).refunded = (c.shared.lease id).refunded) ∧
      (∀ lab c', (nodeSystem cfg).step c lab = some c' →
        (SingleRefund cfg c lab ↔ ∀ id, c'.shared.ShowsRefund id)) ∧
      ∀ (l : Lease) (a b : ℤ), l.settleState = .done → l.refunded = some a →
        ((l.apply (.markSettled b)).refunded = l.refunded ↔ b = a) := by
  refine ⟨((singleOutline cfg).holds h).shared, fun id c' hrun hdone => refunded_stays h hrun hdone,
    fun lab c' hs => ⟨fun hg => ?_, fun hshown => ?_⟩, fun l a b hdone hr => ?_⟩
  · exact ((singleOutline cfg).holds (h.step hg hs)).shared
  · cases lab with
    | env | start => trivial
    | run i out =>
      obtain ⟨p, op, p', hp, ha, rfl⟩ := Machine.step_run hs
      exact (singleRefund_run hp ha).2 (single_of_shown h hp ha hshown)
  · rw [Lease.refunded_apply, hr]
    simp [hdone]

end Run

/-- The renter stops once, and is shown the minute that comes back. -/
theorem refund_shown_stopSession :
    ∃ c, (nodeSystem .small).Reach (SingleRefund .small) c ∧ c.shared.refunds 0 = [60] ∧
      (c.shared.lease 0).refunded = some 60 := by
  obtain ⟨c, hc, hp⟩ := System.exists_reach (S := nodeSystem .small) (C := SingleRefund .small)
    (p := fun c => decide ((c.shared.lease 0).settleState = .done) &&
      decide (c.shared.refunds 0 = [60])) stopSession (by decide +kernel)
  simp only [Bool.and_eq_true, decide_eq_true_eq] at hp
  have hshown := ((refund_shown hc).1 0).after hp.1
  rw [hp.2] at hshown
  exact ⟨c, hc, hp.2, hshown⟩

/-- Two requests stop the session and find it pending; the second reads the credit once the first
has marked it settled. -/
def settleAgain : List (Machine.Label Outcome Request Event) :=
  openSession ++ .start (.stop sessionPath "t") :: .start (.stop sessionPath "t") ::
    turns 1 2 ++ turns 2 2 ++ turns 1 8 ++ turns 2 4 ++ turns 1 5 ++ turns 2 4

/-- **A session can report that nothing came back.**  A minute was transferred. -/
theorem not_refund_shown :
    ¬ ∀ (cfg : NodeConfig) (c : Machine.Config Node Pc), (nodeSystem cfg).Reachable c → ∀ id,
      (c.shared.lease id).settleState = .done →
        (c.shared.lease id).refunded.getD 0 = (c.shared.refunds id).sum := by
  intro h
  obtain ⟨c, hc, hp⟩ := System.exists_reach (S := nodeSystem .small) (C := System.Any)
    (p := fun c => c.threads.all Pc.isDone &&
      decide ((c.shared.lease 0).settleState = .done ∧ c.shared.refunds 0 = [60] ∧
        (c.shared.lease 0).refunded = some 0)) settleAgain (by decide +kernel)
  simp only [Bool.and_eq_true, decide_eq_true_eq] at hp
  obtain ⟨-, hdone, hrefunds, hr⟩ := hp
  have heq := h .small c hc 0 hdone
  rw [hrefunds, hr] at heq
  exact absurd heq (by decide)

end Mach402
