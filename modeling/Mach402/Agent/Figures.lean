import Mach402.Agent.Settlement

/-!
# The published figures

A tick publishes what a session has earned and what is still owed to its renter; a settlement
publishes what it has earned and what is returned.  Both read the two figures under different holds
of the lease's lock.  `figures_add_up`: the two figures of each record add up to what has been paid,
in every run in which no burn charges a session and no top-up is banked between the two halves of a
record, or after the session is refunded (`Orderly`).
-/

namespace Mach402

/-- What has been paid into the session: what the facilitator has settled for it, less the payments
that are still to be banked. -/
def banked (c : Machine.Config Node Pc) (id : LeaseId) : ℤ :=
  c.shared.settled id - Machine.weigh (Pc.inFlight id) c.threads

/-- The session is marked settled, and has been refunded. -/
def Node.repaid (s : Node) (id : LeaseId) : Bool :=
  decide ((s.lease id).settleState = .done ∧ s.refunds id ≠ [])

/-- A settlement of the session has been published, with a refund. -/
def Node.reported (s : Node) (id : LeaseId) : Bool :=
  s.audit.any fun m => decide (m.kind = .sessionSettled ∧ m.jobID = id ∧
    0 < m.refundTinybars.getD 0)

/-- The thread has read the figure a settlement returns, and not published it yet. -/
def Pc.closing (id : LeaseId) : Pc → Bool
  | .refund j .. | .markSettled j .. => decide (j = id)
  | .recordSettlement j owed .. => decide (j = id ∧ 0 < owed)
  | _ => false

/-- The thread has read one half of a record, and not published it yet. -/
def Pc.reporting (id : LeaseId) : Pc → Bool
  | .tickElapsed j _ | .tickPublish j _ _ => decide (j = id)
  | p => p.closing id

/-- A burn that charges the session, and a payment into it, finds no record of it half made, and no
refund of it published.  A tick, and a payment, finds the session not refunded. -/
def Pc.orderly (c : Machine.Config Node Pc) : Pc → Bool
  | .burn id now m =>
    (decide (((c.shared.lease id).burn now).2.1 ≤ 0) ||
      (c.threads.all fun q => !q.reporting id) && !c.shared.reported id) &&
      (decide (m ≠ .tick) || !c.shared.repaid id)
  | .addCredit p =>
    (c.threads.all fun q => !q.closing p.id) && !c.shared.reported p.id && !c.shared.repaid p.id
  | _ => true

/-- Every step of the run is orderly. -/
abbrev Orderly : NodeGuard := Machine.Guard fun c _ p _ => p.orderly c

/-! ### What has been paid -/

section Banked

variable {c : Machine.Config Node Pc} {id : LeaseId} {i : ℕ} {p p' : Pc} {op : Op}

/-- **A payment counts** when it is banked. -/
theorem banked_step (hp : c.threads[i]? = some p) (h : SessionStep c.shared id p op p') :
    banked ⟨c.shared.apply op, c.threads.set i p'⟩ id = banked c id + p.inFlight id := by
  have hset := Machine.weigh_set (Pc.inFlight id) p' hp
  suffices (c.shared.apply op).settled id = c.shared.settled id + p'.inFlight id by
    simp only [banked, hset, this]
    ring
  cases h with
  | elsewhere hp hs hp' => rw [hs.settled, Pc.inFlight_eq_zero hp', add_zero]
  | settleOpening o payer transaction hid => simp [Node.settled_apply, Pc.inFlight, hid]
  | settleTopUp price chunk payer transaction => simp [Node.settled_apply, Pc.inFlight]
  | burn now m hp' | refundFailed payer owed e hp' =>
    rw [Pc.inFlight_eq_zero hp', add_zero, Node.settled_apply]
  | _ => simp [Node.settled_apply, Pc.inFlight]

end Banked

section Frame

variable {s : Node} {id : LeaseId} {p p' : Pc} {op : Op}

/-- No step changes what a session has earned, but a burn that charges it. -/
theorem burned_stays (hs : s.Sound) (hk : p.Knows s) (hop : op.Allowed s)
    (h : SessionStep s id p op p') (hm : s.Metered id)
    (hburn : ∀ now m, p = .burn id now m → ((s.lease id).burn now).2.1 ≤ 0) :
    (s.apply op).burned id = s.burned id := by
  obtain ⟨g, hg⟩ := Option.ne_none_iff_exists'.1 hm.lease
  cases h with
  | elsewhere hp hs hp' => exact hs.burned
  | settleOpening | settleTopUp | readNothing | readCredit | refund | refundFailed => rfl
  | markMetered o payer transaction hid =>
    subst hid
    exact absurd hk.2.lease hm.lease
  | addCredit p hid =>
    subst hid
    simp [Node.burned, Node.lease_apply_lease hop, Lease.burned, Lease.ledger_apply, hg, Ledger.pay]
  | burn now m hp' =>
    have hcharge := hburn now m rfl
    rw [Lease.burn_charge hg] at hcharge
    obtain ⟨h0, -⟩ := ((hs.lease id _ hm.leases_eq).metered g hg).2.2.chargeAt now (s.lease id)
    simp only [Node.burned, Node.lease_apply_lease hop, Lease.burned, Lease.ledger_apply, hg,
      Option.map_some, Option.getD_some, Ledger.spend]
    omega
  | markSettled owed transaction e =>
    simp [Node.burned, Node.lease_apply_lease hop, Lease.burned, Lease.ledger_apply, hg,
      hs.settleState hm]

/-- No step gives a session credit, but a payment. -/
theorem credit_stays (hs : s.Sound) (hk : p.Knows s) (hop : op.Allowed s)
    (h : SessionStep s id p op p') (hm : s.Metered id) (hadd : ∀ p₀, p = .addCredit p₀ → p₀.id ≠ id)
    (hc : s.credit id = 0) : (s.apply op).credit id = 0 := by
  obtain ⟨g, hg⟩ := Option.ne_none_iff_exists'.1 hm.lease
  cases h with
  | elsewhere hp hs hp' => rw [hs.credit, hc]
  | settleOpening | settleTopUp | readNothing | readCredit | refund | refundFailed => exact hc
  | markMetered o payer transaction hid =>
    subst hid
    exact absurd hk.2.lease hm.lease
  | addCredit p hid => exact absurd hid (hadd p rfl)
  | burn now m hp' =>
    rw [Node.credit, Node.lease_apply_lease hop]
    exact Lease.credit_burn (hs.lease id _ hm.leases_eq) hc now
  | markSettled owed transaction e =>
    simp [Node.credit, Node.lease_apply_lease hop, Lease.credit, Lease.ledger_apply, hg,
      hs.settleState hm]

theorem refunds_stay (h : SessionStep s id p op p') (hr : s.refunds id ≠ []) :
    (s.apply op).refunds id ≠ [] := by
  cases h with
  | elsewhere hp hs hp' => rwa [hs.refunds]
  | refund payer owed transaction e => simp [Node.refunds_apply]
  | _ => exact hr

/-- A session that has been refunded and marked settled stays so. -/
theorem repaid_stays (hs : s.Sound) (hk : p.Knows s) (hop : op.Allowed s)
    (h : SessionStep s id p op p') (hr : s.repaid id) : (s.apply op).repaid id := by
  obtain ⟨hdone, hr⟩ := of_decide_eq_true hr
  refine decide_eq_true ⟨?_, refunds_stay h hr⟩
  cases h with
  | elsewhere hp hs hp' => rw [hs.settleState, hdone]
  | settleOpening | settleTopUp | readNothing | readCredit | refund | refundFailed => exact hdone
  | markMetered o payer transaction hid =>
    subst hid
    have hn := ((hs.lease _ _ hk.2.leases_eq).unmetered hk.2.lease).1
    rw [hdone] at hn
    cases hn
  | addCredit p hid =>
    subst hid
    rw [Node.lease_apply_lease hop, Lease.settleState_apply, hdone]
  | burn | markSettled =>
    rw [Node.lease_apply_lease hop, Lease.settleState_apply, hdone]
    try rfl

end Frame

/-! ### One step -/

/-- The figure that a settlement holds, and what has been earned, add up to what has been paid. -/
def Pc.Figured (c : Machine.Config Node Pc) : Pc → Prop
  | .refund id _ owed _ => c.shared.burned id + owed = banked c id
  | .markSettled id owed _ _ =>
    if 0 < owed then c.shared.burned id + owed = banked c id ∧ c.shared.refunds id ≠ []
    else c.shared.credit id = 0
  | .recordSettlement id owed _ _ => 0 < owed → c.shared.burned id + owed = banked c id
  | _ => True

@[simp] theorem Pc.figured_of_returned {c : Machine.Config Node Pc} {p : Pc} (h : p.returned) :
    p.Figured c := by
  cases p <;> trivial

/-- The ledger adds up to what has been paid, until the session is refunded. -/
def Even (c : Machine.Config Node Pc) (id : LeaseId) : Prop :=
  banked c id = (c.shared.lease id).worth ∨ c.shared.repaid id ∧ c.shared.credit id = 0

section Step

variable {cfg : NodeConfig} {c : Machine.Config Node Pc} {id : LeaseId} {i : ℕ} {p p' q : Pc}
  {out : Outcome} {op : Op}

theorem Node.metered_of_repaid {s : Node} (hs : s.Sound) (h : s.repaid id) : s.Metered id := by
  by_contra hn
  exact (of_decide_eq_true h).2 (hs.unrefunded id hn)

/-- **The ledger goes on to add up.** -/
theorem even_step (hs : c.shared.Sound) (hk : p.Knows c.shared) (hop : op.Allowed c.shared)
    (hp : c.threads[i]? = some p) (h : SessionStep c.shared id p op p') (hg : p.orderly c)
    (hf : p.Figured c) (he : Even c id) :
    Even ⟨c.shared.apply op, c.threads.set i p'⟩ id := by
  rcases he with he | ⟨hr, hc⟩
  · rw [Even, banked_step hp h, he]
    cases h with
    | elsewhere hp hs hp' =>
      left
      rw [Pc.inFlight_eq_zero hp, add_zero, Lease.worth, Lease.worth]
      exact congrArg₂ (· + ·) hs.burned.symm hs.credit.symm
    | settleOpening | settleTopUp | readNothing | readCredit | refund | refundFailed =>
      exact Or.inl (add_zero _)
    | markMetered o payer transaction hid =>
      subst hid
      left
      rw [Node.lease_apply_lease hop, Lease.worth_markMetered, Lease.worth_of_unmetered hk.2.lease]
      simp [Pc.inFlight]
    | addCredit p hid =>
      subst hid
      left
      rw [Node.lease_apply_lease hop, Lease.worth_addCredit hk.1.lease]
      simp [Pc.inFlight]
    | burn now m hp' =>
      left
      rw [Node.lease_apply_lease hop, Lease.worth_burn]
      exact add_zero _
    | markSettled owed transaction e =>
      have hst := hs.settleState hk.2
      have hmark := Lease.settleState_apply (c.shared.lease id) (.markSettled owed)
      have hcredit : ((c.shared.lease id).apply (.markSettled owed)).credit = 0 := by
        obtain ⟨g, hg⟩ := Option.ne_none_iff_exists'.1 hk.2.lease
        simp [Lease.credit, Lease.ledger_apply, hg, hst]
      simp only [Pc.Figured] at hf
      split_ifs at hf with howed
      · right
        refine ⟨decide_eq_true ⟨?_, hf.2⟩, ?_⟩
        · rw [Node.lease_apply_lease hop, hmark]
          exact if_neg hst
        · rw [Node.credit, Node.lease_apply_lease hop, hcredit]
      · left
        have hzero : (c.shared.lease id).credit = 0 := hf
        rw [Node.lease_apply_lease hop, Lease.worth_markSettled hst, hzero, sub_zero]
        exact add_zero _
  · refine Or.inr ⟨repaid_stays hs hk hop h hr, ?_⟩
    refine credit_stays hs hk hop h (Node.metered_of_repaid hs hr) (fun p₀ hp₀ hid => ?_) hc
    subst hp₀ hid
    simp [Pc.orderly, hr] at hg

/-- A payment is not banked while a settlement holds a figure for the session. -/
theorem inFlight_eq_zero_of_closing (hk : p.Knows c.shared) (hg : p.orderly c)
    (hm : c.shared.Metered id) (hq : q ∈ c.threads) (hcl : q.closing id) :
    p.inFlight id = 0 := by
  cases p with
  | markMetered o =>
    refine if_neg ?_
    rintro rfl
    exact hm.lease hk.2.lease
  | addCredit p₀ =>
    refine if_neg ?_
    rintro rfl
    simp only [Pc.orderly, Bool.and_eq_true, List.all_eq_true, Bool.not_eq_true'] at hg
    rw [hg.1.1 q hq] at hcl
    cases hcl
  | _ => rfl

theorem Pc.reporting_of_closing (h : q.closing id) : q.reporting id := by
  cases q with
  | refund | markSettled | recordSettlement => exact h
  | _ => cases h

/-- No burn charges a session while a record of it is half made. -/
theorem charge_le_of_reporting (hg : p.orderly c) (hq : q ∈ c.threads) (hrep : q.reporting id)
    {now : ℤ} {m : Meter} (hp : p = .burn id now m) : ((c.shared.lease id).burn now).2.1 ≤ 0 := by
  subst hp
  simp only [Pc.orderly, Bool.and_eq_true, Bool.or_eq_true, decide_eq_true_eq, List.all_eq_true,
    Bool.not_eq_true'] at hg
  refine hg.1.resolve_right fun h => ?_
  rw [h.1 q hq] at hrep
  cases hrep

/-- **The figure of a settlement goes on to add up** over the steps of others. -/
theorem Pc.Figured.later (hs : c.shared.Sound) (hk : p.Knows c.shared) (hkq : q.Knows c.shared)
    (hop : op.Allowed c.shared) (hp : c.threads[i]? = some p) (hq : q ∈ c.threads)
    (h : ∀ id, SessionStep c.shared id p op p') (hg : p.orderly c) (hf : q.Figured c) :
    q.Figured ⟨c.shared.apply op, c.threads.set i p'⟩ := by
  have hburned : ∀ id, c.shared.Metered id → q.closing id →
      (c.shared.apply op).burned id = c.shared.burned id := fun id hm hcl =>
    burned_stays hs hk hop (h id) hm fun now m =>
      charge_le_of_reporting hg hq (Pc.reporting_of_closing hcl)
  have hbanked : ∀ id, c.shared.Metered id → q.closing id →
      banked ⟨c.shared.apply op, c.threads.set i p'⟩ id = banked c id := fun id hm hcl => by
    rw [banked_step hp (h id), inFlight_eq_zero_of_closing hk hg hm hq hcl, add_zero]
  cases q with
  | refund id payer owed e =>
    have hm := hkq.2.1
    have hcl : (Pc.refund id payer owed e).closing id := decide_eq_true rfl
    simp only [Pc.Figured] at hf ⊢
    rw [hburned id hm hcl, hbanked id hm hcl, hf]
  | markSettled id owed transaction e =>
    have hm := hkq.2
    have hcl : (Pc.markSettled id owed transaction e).closing id := decide_eq_true rfl
    simp only [Pc.Figured] at hf ⊢
    split_ifs at hf ⊢ with howed
    · rw [hburned id hm hcl, hbanked id hm hcl]
      exact ⟨hf.1, refunds_stay (h id) hf.2⟩
    · refine credit_stays hs hk hop (h id) hm (fun p₀ hp₀ hid => ?_) hf
      subst hp₀ hid
      simp only [Pc.orderly, Bool.and_eq_true, List.all_eq_true, Bool.not_eq_true'] at hg
      rw [hg.1.1 _ hq] at hcl
      cases hcl
  | recordSettlement id owed transaction e =>
    intro howed
    have hm := hkq.2
    have hcl : (Pc.recordSettlement id owed transaction e).closing id := decide_eq_true ⟨rfl, howed⟩
    show (c.shared.apply op).burned id + owed = _
    rw [hburned id hm hcl, hbanked id hm hcl, hf howed]
  | _ => trivial

/-- **A settlement reads a figure** that adds up. -/
theorem figured_act (hs : c.shared.Sound) (hk : p.Knows c.shared) (hop : op.Allowed c.shared)
    (hp : c.threads[i]? = some p) (h : c.shared.act cfg p out = some (op, p'))
    (hf : p.Figured c) (he : ∀ id, Even c id) :
    p'.Figured ⟨c.shared.apply op, c.threads.set i p'⟩ := by
  have hbanked := fun id => banked_step hp ((moneyStep_of_act h).session hop id)
  cases p with
  | readCredit id e =>
    have hb : banked ⟨c.shared.apply op, c.threads.set i p'⟩ id = banked c id :=
      (hbanked id).trans (add_zero _)
    have hread : 0 < (c.shared.lease id).credit →
        c.shared.burned id + (c.shared.lease id).credit = banked c id := fun hpos =>
      (he id).elim Eq.symm fun hr => absurd hr.2 hpos.ne'
    simp only [Node.act] at h
    split_ifs at h with hc hsc <;> cases h
    · show if 0 < (c.shared.lease id).credit then _ else _
      rw [if_neg (not_lt.2 hc)]
      exact le_antisymm hc (hs.credit_nonneg id)
    · exact fun hpos => (hread hpos).trans hb.symm
    · exact (hread (not_le.1 hc)).trans hb.symm
  | refund id payer owed e =>
    have hb : banked ⟨c.shared.apply op, c.threads.set i p'⟩ id = banked c id :=
      (hbanked id).trans (add_zero _)
    cases out <;> cases h
    · show if 0 < owed then _ else _
      rw [if_pos hk.2.2]
      exact ⟨hf.trans hb.symm, by simp [Node.refunds_apply]⟩
    · simp
    · simp
  | markSettled id owed transaction e =>
    have hb : banked ⟨c.shared.apply op, c.threads.set i p'⟩ id = banked c id :=
      (hbanked id).trans (add_zero _)
    have hburned := burned_stays hs hk hop ((moneyStep_of_act h).session hop id) hk.2 (by simp)
    cases h
    intro howed
    simp only [Pc.Figured, if_pos howed] at hf
    exact (congrArg (· + owed) hburned).trans (hf.1.trans hb.symm)
  | _ =>
    simp only [Node.act] at h
    (repeat' split at h) <;> cases h <;> first | trivial | simp

end Step

/-! ### Ticks -/

/-- The session the thread has burned a tick of, and what was then left of its credit. -/
def Pc.ticks : Pc → Option (LeaseId × ℤ)
  | .tickElapsed id remaining | .tickPublish id remaining _ => some (id, remaining)
  | _ => none

@[simp] theorem Ender.ticks_return (e : Ender) (id : LeaseId) : (e.return id).ticks = none := by
  cases e <;> rfl

@[simp] theorem After.ticks_return (k : After) (id : LeaseId) : (k.return id).ticks = none := by
  cases k <;> rfl

@[simp] theorem After.ticks_cleared (k : After) (id : LeaseId) : (k.cleared id).ticks = none := by
  cases k <;> rfl

/-- Since thread `i` burned its tick, leaving `remaining`, what was earned and what was left then
add up to what had been paid by then. -/
def Ticking (cfg : NodeConfig) (c : Machine.Config Node Pc) (i : ℕ) (id : LeaseId)
    (remaining : ℤ) : Prop :=
  ∃ d : Machine.Config Node Pc, (nodeSystem cfg).Reach Orderly d ∧
    d.threads[i]? = some (.tickElapsed id remaining) ∧ (nodeSystem cfg).Run Orderly d c ∧
    c.shared.burned id + remaining = banked d id

/-- The two figures of the record add up to what had been paid at some instant of the tick that
published it: when its thread `i` had burned, and not published yet. -/
def Ticked (cfg : NodeConfig) (c : Machine.Config Node Pc) (m : AuditMessage) : Prop :=
  ∃ (d e : Machine.Config Node Pc) (i : ℕ) (remaining elapsed : ℤ),
    (nodeSystem cfg).Reach Orderly d ∧ d.threads[i]? = some (.tickElapsed m.jobID remaining) ∧
    (nodeSystem cfg).Run Orderly d e ∧
    e.threads[i]? = some (.tickPublish m.jobID remaining elapsed) ∧
    (nodeSystem cfg).Run Orderly e c ∧
    m.refundTinybars = some remaining ∧ m.amountTinybars + remaining = banked d m.jobID

section Ticks

variable {cfg : NodeConfig} {c c' : Machine.Config Node Pc} {id : LeaseId} {i : ℕ} {p p' q : Pc}
  {out : Outcome} {op : Op} {remaining : ℤ}

theorem Ticked.later {m : AuditMessage} (h : Ticked cfg c m)
    (hr : (nodeSystem cfg).Run Orderly c c') : Ticked cfg c' m := by
  obtain ⟨d, e, i, remaining, elapsed, hd, hdi, hde, hei, hec, hm, hadd⟩ := h
  exact ⟨d, e, i, remaining, elapsed, hd, hdi, hde, hei, hec.trans hr, hm, hadd⟩

theorem Ticking.later (h : Ticking cfg c i id remaining)
    (hr : (nodeSystem cfg).Run Orderly c c') (hb : c'.shared.burned id = c.shared.burned id) :
    Ticking cfg c' i id remaining := by
  obtain ⟨d, hd, hdi, hdc, hadd⟩ := h
  exact ⟨d, hd, hdi, hdc.trans hr, by rw [hb, hadd]⟩

/-- A tick starts with a burn. -/
theorem act_ticks {s : Node} (h : s.act cfg p out = some (op, p'))
    (ht : p'.ticks = some (id, remaining)) : p.ticks = some (id, remaining) ∧ op = .skip ∨
      ∃ now, p = .burn id now .tick ∧ op = .lease id (.burn now) ∧
        p' = .tickElapsed id remaining ∧ remaining = ((s.lease id).burn now).2.2 := by
  cases p with
  | burn j now m =>
    cases h
    cases m <;> cases ht
    exact Or.inr ⟨now, rfl, rfl, rfl, rfl⟩
  | tickElapsed j r => cases h; exact Or.inl ⟨ht, rfl⟩
  | tickPublish => cases h; cases ht
  | _ =>
    simp only [Node.act] at h
    (repeat' split at h) <;> cases h <;> first | cases ht | simp at ht

/-- What `Burn` leaves is the credit. -/
theorem Lease.burn_remaining {l : Lease} (h : l.ledger ≠ none) (now : ℤ) :
    (l.burn now).2.2 = (l.apply (.burn now)).credit := by
  obtain ⟨g, hg⟩ := Option.ne_none_iff_exists'.1 h
  rw [Lease.credit, Lease.ledger_apply]
  simp only [Lease.burn, hg, Lease.chargeAt, Option.map_some, Option.getD_some, Ledger.spend]
  split_ifs
  · exact (sub_zero _).symm
  · rfl

/-- A tick in progress goes on to add up. -/
theorem Ticking.later_run (hc : (nodeSystem cfg).Reach Orderly c) {j : ℕ}
    (hp : c.threads[i]? = some p) (hq : c.threads[j]? = some q)
    (hg : Orderly c (.run i out)) (ha : c.shared.act cfg p out = some (op, p'))
    (ht : q.ticks = some (id, remaining)) (h : Ticking cfg c j id remaining)
    (hr : (nodeSystem cfg).Run Orderly c ⟨c.shared.apply op, c.threads.set i p'⟩) :
    Ticking cfg ⟨c.shared.apply op, c.threads.set i p'⟩ j id remaining := by
  have hop := allowed_of_reach hc hp ha
  have hmem := List.mem_of_getElem? hq
  have hrep : q.reporting id ∧ c.shared.Metered id := by
    have hk := knows_of_reach hc hq
    cases q with
    | tickElapsed | tickPublish => cases ht; exact ⟨decide_eq_true rfl, hk⟩
    | _ => cases ht
  exact h.later hr (burned_stays (sound_of_reach hc) (knows_of_reach hc hp) hop
    ((moneyStep_of_act ha).session hop id) hrep.2 fun now m =>
      charge_le_of_reporting (hg.run hp) hmem hrep.1)

/-- **A tick begins**: what is earned and what is left add up to what has been paid. -/
theorem Ticking.start {now : ℤ} (hc : (nodeSystem cfg).Reach Orderly c)
    (hp : c.threads[i]? = some (.burn id now .tick)) (hg : (Pc.burn id now .tick).orderly c)
    (hd : (nodeSystem cfg).Reach Orderly ⟨c.shared.apply (.lease id (.burn now)),
      c.threads.set i (.tickElapsed id ((c.shared.lease id).burn now).2.2)⟩)
    (he : Even ⟨c.shared.apply (.lease id (.burn now)),
      c.threads.set i (.tickElapsed id ((c.shared.lease id).burn now).2.2)⟩ id) :
    Ticking cfg ⟨c.shared.apply (.lease id (.burn now)),
      c.threads.set i (.tickElapsed id ((c.shared.lease id).burn now).2.2)⟩ i id
        ((c.shared.lease id).burn now).2.2 := by
  have hm : c.shared.Metered id := knows_of_reach hc hp
  have hi := (List.getElem?_eq_some_iff.1 hp).1
  refine ⟨_, hd, List.getElem?_set_self hi, Relation.ReflTransGen.refl, ?_⟩
  have hfresh : ¬ (c.shared.apply (.lease id (.burn now))).repaid id := by
    have hsame : (c.shared.apply (.lease id (.burn now))).repaid id = c.shared.repaid id := by
      simp only [Node.repaid, Node.lease_apply_lease hm, Lease.settleState_apply]
      rfl
    simp only [Pc.orderly, Bool.and_eq_true, Bool.or_eq_true, decide_eq_true_eq,
      Bool.not_eq_true'] at hg
    simpa [hsame] using hg.2
  rcases he with he | hr
  · rw [he, Lease.burn_remaining hm.lease, ← Node.lease_apply_lease hm]
    rfl
  · exact absurd hr.1 hfresh

end Ticks

/-! ### What is published -/

section Publish

variable {cfg : NodeConfig} {s : Node} {p p' : Pc} {out : Outcome} {op : Op} {m : AuditMessage}

/-- **What a step publishes**: a tick and a settlement publish what is earned by then, and the
figure they hold. -/
theorem act_publish (h : s.act cfg p out = some (op, p')) (hm : m ∈ (s.apply op).audit) :
    m ∈ s.audit ∨
      (m.kind = .sessionBurn → ∃ remaining elapsed, p = .tickPublish m.jobID remaining elapsed ∧
        m.amountTinybars = s.burned m.jobID ∧ m.refundTinybars = some remaining) ∧
      (m.kind = .sessionSettled → ∃ owed transaction e,
        p = .recordSettlement m.jobID owed transaction e ∧
        m.amountTinybars = s.burned m.jobID ∧ m.refundTinybars = some owed) := by
  rw [Node.audit_apply] at hm
  have hnew : ∀ m₀ : AuditMessage, op = publishAudit cfg m₀ → m ∈ s.audit ∨ m = m₀ := by
    rintro m₀ rfl
    unfold publishAudit at hm
    split_ifs at hm
    · simpa using hm
    · exact Or.inl hm
  cases p with
  | recordLease p₀ | recordPayment p₀ =>
    cases h
    exact (hnew _ rfl).imp_right fun h => (by subst h; simp)
  | tickPublish id remaining elapsed =>
    cases h
    refine (hnew _ rfl).imp_right fun h => ?_
    subst h
    exact ⟨fun _ => ⟨remaining, elapsed, rfl, rfl, rfl⟩, fun hk => by cases hk⟩
  | recordSettlement id owed transaction e =>
    cases h
    refine (hnew _ rfl).imp_right fun h => ?_
    subst h
    exact ⟨fun hk => (by cases hk), fun _ => ⟨owed, transaction, e, rfl, rfl, rfl⟩⟩
  | _ =>
    left
    simp only [Node.act] at h
    (repeat' split at h) <;> cases h <;> exact hm

end Publish

/-! ### In every run -/

/-- The figures of a state add up. -/
structure Figures (cfg : NodeConfig) (c : Machine.Config Node Pc) : Prop where
  even : ∀ id, Even c id
  figured : ∀ p ∈ c.threads, p.Figured c
  ticking : ∀ (i : ℕ) (p : Pc) (id : LeaseId) (remaining : ℤ), c.threads[i]? = some p →
    p.ticks = some (id, remaining) → Ticking cfg c i id remaining
  ticked : ∀ m ∈ c.shared.audit, m.kind = .sessionBurn → Ticked cfg c m
  settled : ∀ m ∈ c.shared.audit, m.kind = .sessionSettled → c.shared.Metered m.jobID ∧
    ∀ refund, m.refundTinybars = some refund → 0 < refund →
      m.amountTinybars + refund = banked c m.jobID

section Reach

variable {cfg : NodeConfig} {c c' : Machine.Config Node Pc}

/-- A figure adds up as long as what it adds up from stays. -/
theorem Pc.Figured.congr {p : Pc} (h : ∀ id, c'.shared.burned id = c.shared.burned id ∧
      c'.shared.credit id = c.shared.credit id ∧ c'.shared.refunds id = c.shared.refunds id ∧
      banked c' id = banked c id) (hf : p.Figured c) : p.Figured c' := by
  cases p with
  | refund id | markSettled id | recordSettlement id =>
    obtain ⟨hb, hc, hr, hpaid⟩ := h id
    simpa only [Pc.Figured, hb, hc, hr, hpaid] using hf
  | _ => trivial

/-- A new thread changes no figure. -/
theorem Figures.start (h : Figures cfg c) (r : Request) (hr : (nodeSystem cfg).Run Orderly c
      { c with threads := c.threads ++ [r.start] }) :
    Figures cfg { c with threads := c.threads ++ [r.start] } := by
  have hpaid : ∀ id, banked { c with threads := c.threads ++ [r.start] } id = banked c id := by
    intro id
    have hzero : r.start.inFlight id = 0 := by cases r <;> rfl
    simp only [banked, Machine.weigh_append, hzero, add_zero]
  refine ⟨fun id => ?_, fun p hp => ?_, fun i p id remaining hp ht => ?_, fun m hm hk => ?_,
    fun m hm hk => ?_⟩
  · rw [Even, hpaid]
    exact h.even id
  · rcases List.mem_append.1 hp with hp | hp
    · exact Pc.Figured.congr (c := c) (fun id => ⟨rfl, rfl, rfl, hpaid id⟩) (h.figured p hp)
    · rw [List.mem_singleton.1 hp]
      cases r <;> trivial
  · rcases lt_or_ge i c.threads.length with hi | hi
    · rw [List.getElem?_append_left hi] at hp
      exact (h.ticking i p id remaining hp ht).later hr rfl
    · rw [List.getElem?_append_right hi] at hp
      have hstart := List.mem_singleton.1 (List.mem_of_getElem? hp)
      subst hstart
      cases r <;> cases ht
  · exact (h.ticked m hm hk).later hr
  · rw [hpaid]
    exact h.settled m hm hk

/-- An event of the environment changes none. -/
theorem Figures.env (h : Figures cfg c) (e : Event) (hr : (nodeSystem cfg).Run Orderly c
      { c with shared := c.shared.env e }) :
    Figures cfg { c with shared := c.shared.env e } := by
  refine ⟨fun id => ?_, fun p hp => ?_, fun i p id remaining hp ht => ?_, fun m hm hk => ?_,
    fun m hm hk => ?_⟩
  · cases e <;> exact h.even id
  · refine (h.figured p hp).congr fun id => ?_
    cases e <;> exact ⟨rfl, rfl, rfl, rfl⟩
  · refine (h.ticking i p id remaining hp ht).later hr ?_
    cases e <;> rfl
  · refine (h.ticked m ?_ hk).later hr
    cases e <;> exact hm
  · cases e <;> exact h.settled m hm hk

/-- A refund that is published goes on to add up: nothing is paid into the session any more. -/
theorem banked_of_reported {i : ℕ} {p p' : Pc} {op : Op} (hk : p.Knows c.shared)
    (hp : c.threads[i]? = some p) (h : ∀ id, SessionStep c.shared id p op p') (hg : p.orderly c)
    {m : AuditMessage} (hm : m ∈ c.shared.audit) (hkind : m.kind = .sessionSettled) {refund : ℤ}
    (hrefund : m.refundTinybars = some refund) (hpos : 0 < refund)
    (hmetered : c.shared.Metered m.jobID) :
    banked ⟨c.shared.apply op, c.threads.set i p'⟩ m.jobID = banked c m.jobID := by
  have hrep : c.shared.reported m.jobID :=
    List.any_eq_true.2 ⟨m, hm, decide_eq_true ⟨hkind, rfl, by rwa [hrefund]⟩⟩
  rw [banked_step hp (h m.jobID)]
  suffices p.inFlight m.jobID = 0 by rw [this, add_zero]
  cases p with
  | markMetered o =>
    refine if_neg fun hid => ?_
    exact hmetered.lease (hid ▸ hk.2.lease)
  | addCredit p₀ =>
    refine if_neg fun hid => ?_
    simp [Pc.orderly, hid, hrep] at hg
  | _ => rfl

/-- **An orderly step** keeps the figures. -/
theorem Figures.run (hc : (nodeSystem cfg).Reach Orderly c) (h : Figures cfg c) {i : ℕ}
    {p p' : Pc} {out : Outcome} {op : Op} (hp : c.threads[i]? = some p)
    (hg : Orderly c (.run i out)) (ha : c.shared.act cfg p out = some (op, p'))
    (hstep : (nodeSystem cfg).step c (.run i out) =
      some ⟨c.shared.apply op, c.threads.set i p'⟩) :
    Figures cfg ⟨c.shared.apply op, c.threads.set i p'⟩ := by
  have hs := sound_of_reach hc
  have hk := knows_of_reach hc hp
  have hop := allowed_of_reach hc hp ha
  have hgp := hg.run hp
  have hsession := fun id => (moneyStep_of_act ha).session hop id
  have hmem := List.mem_of_getElem? hp
  have hr : (nodeSystem cfg).Run Orderly c ⟨c.shared.apply op, c.threads.set i p'⟩ :=
    Relation.ReflTransGen.single ⟨_, hg, hstep⟩
  have hi := (List.getElem?_eq_some_iff.1 hp).1
  have heven := fun id => even_step hs hk hop hp (hsession id) hgp (h.figured p hmem) (h.even id)
  refine ⟨heven, fun q hq => ?_, fun j q id remaining hq ht => ?_, fun m hm hkind => ?_,
    fun m hm hkind => ?_⟩
  · rcases List.mem_or_eq_of_mem_set hq with hq | rfl
    · obtain ⟨j, hj⟩ := List.getElem?_of_mem hq
      exact (h.figured q hq).later hs hk (knows_of_reach hc hj) hop hp hq hsession hgp
    · exact figured_act hs hk hop hp ha (h.figured p hmem) h.even
  · by_cases hij : i = j
    · subst hij
      rw [List.getElem?_set_self hi, Option.some.injEq] at hq
      subst hq
      rcases act_ticks ha ht with ⟨ht, rfl⟩ | ⟨now, rfl, rfl, rfl, rfl⟩
      · exact (h.ticking i p id remaining hp ht).later hr rfl
      · exact Ticking.start hc hp hgp (hc.step hg hstep) (heven id)
    · rw [List.getElem?_set_ne hij] at hq
      exact (h.ticking j q id remaining hq ht).later_run hc hp hq hg ha ht hr
  · rcases act_publish ha hm with hm | ⟨hburn, -⟩
    · exact (h.ticked m hm hkind).later hr
    · obtain ⟨remaining, elapsed, rfl, hamount, hrem⟩ := hburn hkind
      obtain ⟨d, hd, hdi, hdc, hadd⟩ := h.ticking i _ m.jobID remaining hp rfl
      exact ⟨d, c, i, remaining, elapsed, hd, hdi, hdc, hp, hr, hrem, by rw [hamount, hadd]⟩
  · rcases act_publish ha hm with hm | ⟨-, hsettled⟩
    · obtain ⟨hmetered, hadd⟩ := h.settled m hm hkind
      refine ⟨(Node.later_apply hop).metered hmetered, fun refund hrefund hpos => ?_⟩
      rw [banked_of_reported hk hp hsession hgp hm hkind hrefund hpos hmetered]
      exact hadd refund hrefund hpos
    · obtain ⟨owed, transaction, e, rfl, hamount, hrefund⟩ := hsettled hkind
      have hm' := (Node.later_apply hop).metered hk.2
      refine ⟨hm', fun refund hrefund' hpos => ?_⟩
      rw [hrefund, Option.some.injEq] at hrefund'
      subst hrefund'
      rw [hamount, banked_step hp (hsession _)]
      exact (h.figured _ hmem hpos).trans (add_zero _).symm

theorem figures_of_reach (h : (nodeSystem cfg).Reach Orderly c) : Figures cfg c := by
  refine h.invariant (I := Figures cfg) ⟨fun id => Or.inl rfl, by simp [Machine.system],
    by simp [Machine.system], by simp [Machine.system, Node.initial],
    by simp [Machine.system, Node.initial]⟩ fun c l c' hc ih hg hs => ?_
  have hr : (nodeSystem cfg).Run Orderly c c' := Relation.ReflTransGen.single ⟨l, hg, hs⟩
  cases l with
  | env e => cases hs; exact ih.env e hr
  | start r => cases hs; exact ih.start r hr
  | run i out =>
    obtain ⟨p, op, p', hp, ha, rfl⟩ := Machine.step_run hs
    exact ih.run hc hp hg ha hs

/-- **Every published figure adds up.** -/
theorem figures_add_up (h : (nodeSystem cfg).Reach Orderly c) :
    (∀ m ∈ c.shared.audit, m.kind = .sessionBurn → Ticked cfg c m) ∧
    (∀ m ∈ c.shared.audit, m.kind = .sessionSettled →
      ∀ refund, m.refundTinybars = some refund → 0 < refund →
        m.amountTinybars + refund = banked c m.jobID) ∧
    ∀ id payer owed e, Pc.refund id payer owed e ∈ c.threads →
      c.shared.burned id + owed = banked c id :=
  have hf := figures_of_reach h
  ⟨hf.ticked, fun m hm hk => (hf.settled m hm hk).2, fun _ _ _ _ hp => hf.figured _ hp⟩

end Reach

/-- A session is swept after ten seconds, and stopped. -/
def sweepAndStop : List (Machine.Label Outcome Request Event) :=
  openSession ++ .env (.advance 10000000000) :: .start .sweep :: turns 1 10 ++
    .start (.stop sessionPath "t") :: turns 2 15

/-- Ten earned and fifty owed, then returned. -/
theorem figures_add_up_sweepAndStop :
    ∃ c, (nodeSystem .small).Reach Orderly c ∧
      (∃ m ∈ c.shared.audit, m.kind = .sessionBurn ∧ m.amountTinybars = 10 ∧ Ticked .small c m) ∧
      ∃ m ∈ c.shared.audit, m.kind = .sessionSettled ∧ m.amountTinybars = 10 ∧
        m.amountTinybars + 50 = banked c m.jobID := by
  obtain ⟨c, hc, hp⟩ := System.exists_reach (S := nodeSystem .small) (C := Orderly)
    (p := fun c =>
      (c.shared.audit.any fun m => decide (m.kind = .sessionBurn ∧ m.amountTinybars = 10)) &&
      c.shared.audit.any fun m => decide (m.kind = .sessionSettled ∧ m.amountTinybars = 10 ∧
        m.refundTinybars = some 50)) sweepAndStop (by decide +kernel)
  simp only [Bool.and_eq_true, List.any_eq_true, decide_eq_true_eq] at hp
  obtain ⟨⟨m, hm, hkind, hamount⟩, m', hm', hkind', hamount', hrefund'⟩ := hp
  obtain ⟨hticked, hsettled, -⟩ := figures_add_up hc
  exact ⟨c, hc, ⟨m, hm, hkind, hamount, hticked m hm hkind⟩, m', hm', hkind', hamount',
    hsettled m' hm' hkind' 50 hrefund' (by decide)⟩

/-- The sweep has read the clock for a burn when the session is stopped; it burns once the refund
has been read. -/
def burnLate : List (Machine.Label Outcome Request Event) :=
  openSession ++ .start .sweep :: turns 1 3 ++ .start (.stop sessionPath "t") :: turns 2 11 ++
    .env (.advance 10000000000) :: turns 1 2 ++ turns 2 4

/-- **A published figure need not add up.**  Ten earned and sixty returned, of sixty paid. -/
theorem not_figures_add_up :
    ¬ ∀ (cfg : NodeConfig) (c : Machine.Config Node Pc), (nodeSystem cfg).Reachable c →
      ∀ m ∈ c.shared.audit, m.kind = .sessionSettled →
        ∀ refund, m.refundTinybars = some refund → 0 < refund →
          m.amountTinybars + refund = banked c m.jobID := by
  intro h
  obtain ⟨c, hc, hp⟩ := System.exists_reach (S := nodeSystem .small) (C := System.Any)
    (p := fun c => decide (banked c 0 = 60) && c.shared.audit.any fun m =>
      decide (m.kind = .sessionSettled ∧ m.jobID = 0 ∧ m.amountTinybars = 10 ∧
        m.refundTinybars = some 60)) burnLate (by decide +kernel)
  simp only [Bool.and_eq_true, List.any_eq_true, decide_eq_true_eq] at hp
  obtain ⟨hpaid, m, hm, hkind, hid, hamount, hrefund⟩ := hp
  have hadd := h .small c hc m hm hkind 60 hrefund (by decide)
  rw [hid, hpaid, hamount] at hadd
  exact absurd hadd (by decide)

end Mach402
