import Mach402.Agent.Money

/-!
# How sessions end

A lease ends in two places, a provisioning that fails and `StopLease`, and whoever ends it gives its
slot back right after.  Two promises rest on the slot.

* `retriable_of_refunding`: a failed refund is left to the sweep to retry.  The sweep looks for it
  in the slot, which is gone; so the debt stays (`Debt.stays`), and there is none only in runs in
  which every refund goes through (`Refunding`).
* `uncharged_of_timely`: a renter is not charged for a session that has ended.  The opening chunk is
  settled and banked without another look at the lease; so this needs runs in which nobody ends a
  lease before its payment is banked (`Timely`).
-/

namespace Mach402

/-! ### Who works on a lease -/

/-- The lease a thread works on. -/
def Pc.about : Pc → Option LeaseId
  | .create _ | .validateSpec .. | .accepting .. | .collectPayment .. | .mint .. | .authorize ..
  | .endLease | .sweep | .done _ => none
  | .startLease o | .claimSlot o _ | .provision o | .awaitJupyter o | .failLease o _
  | .activate o | .sign o | .pointAt o | .reachable o | .settleOpening o | .markMetered o _ _
  | .setLength o _ _ => some o.id
  | .recordLease p | .recordDuration p | .recordPayment p _ | .respond p | .addCredit p
  | .topUpPaused p | .resume p | .unpause p => some p.id
  | .checkToken id _ _ _ | .topUpStatus id | .topUpLength id | .topUpUnpaid id _
  | .topUpCap id _ _ | .topUpCollect id _ _ | .settleTopUp id _ _ | .stopStatus id | .endStatus id
  | .endMeter id | .readClock id _ | .burn id _ _ | .sweepStatus id | .sweepMeter id
  | .tickElapsed id _ | .tickPublish id _ _ | .sweepSwitch id | .sweepFullyPaid id
  | .sweepRemaining id | .sweepOverdue id | .pause id | .pauseContainer id | .sweepPaused id
  | .stopLease id _ _ | .reap id _ | .release id _ | .clear id _ | .settleSession id _
  | .readCredit id _ | .refund id _ _ _ | .markSettled id _ _ _ | .recordSettlement id _ _ _
  | .respondState id => some id

theorem Pc.about_of_isDone {p : Pc} (h : p.isDone) : p.about = none := by
  cases p <;> first | rfl | cases h

/-- The leases an operation is about. -/
def Op.about : Op → Option LeaseId
  | .lease id _ | .claim id _ | .settle id _ | .refund id _ => some id
  | _ => none

@[simp] theorem Op.about_publishAudit (cfg : NodeConfig) (m : AuditMessage) :
    (publishAudit cfg m).about = none :=
  publishAudit_elim (P := fun op => op.about = none) rfl rfl

theorem After.about_return {k : After} {id j : LeaseId} (h : (k.return j).about = some id) :
    j = id := by
  cases k with
  | settle e | abort r => cases h; rfl
  | refuse r => cases h

theorem After.about_cleared {k : After} {id j : LeaseId} (h : (k.cleared j).about = some id) :
    j = id := by
  cases k with
  | settle e => cases h; rfl
  | abort r | refuse r => cases h

theorem Ender.about_return {e : Ender} {id j : LeaseId} (h : (e.return j).about = some id) :
    j = id := by
  cases e with
  | stop => cases h; rfl
  | evict | sweep => cases h

theorem Meter.about_return {m : Meter} {id j : LeaseId} {remaining : ℤ}
    (h : (m.return j remaining).about = some id) : j = id := by
  cases m <;> cases h <;> rfl

/-- **A thread stays with its lease**: it operates on the lease it works on, and comes to work on
one by finding it in the slot, or by minting its id. -/
theorem act_about (id : LeaseId) {cfg : NodeConfig} {s : Node} {p p' : Pc} {out : Outcome}
    {op : Op} (h : s.act cfg p out = some (op, p')) :
    (op.about = some id → p.about = some id) ∧
      (p'.about = some id → p.about = some id ∨ s.activeLease = some id ∨ id = s.nextLease) := by
  have hnone {Q : Prop} (hid : none = some id) : Q := by cases hid
  cases p with
  | mint seconds chunk price =>
    cases out <;> cases h
    · exact ⟨hnone, fun hid => Or.inr (Or.inr (by cases hid; rfl))⟩
    · exact ⟨hnone, hnone⟩
    · exact ⟨hnone, hnone⟩
  | authorize path token route =>
    simp only [Node.act] at h
    repeat' split at h
    all_goals cases h
    · exact ⟨hnone, hnone⟩
    · exact ⟨hnone, hnone⟩
    · rename_i j ha
      exact ⟨hnone, fun hid => Or.inr (Or.inl (hid ▸ ha))⟩
  | endLease | sweep =>
    simp only [Node.act] at h
    split at h <;> cases h
    · exact ⟨hnone, hnone⟩
    · rename_i j ha
      exact ⟨hnone, fun hid => Or.inr (Or.inl (hid ▸ ha))⟩
  | burn j now m =>
    cases h
    exact ⟨fun hid => hid, fun hid => Or.inl (congrArg some (Meter.about_return hid))⟩
  | stopLease j status k =>
    simp only [Node.act] at h
    split_ifs at h <;> cases h
    · exact ⟨hnone, fun hid => Or.inl (congrArg some (After.about_return hid))⟩
    · exact ⟨fun hid => hid, Or.inl⟩
  | release j k =>
    cases h
    exact ⟨hnone, fun hid => Or.inl (congrArg some (After.about_return hid))⟩
  | clear j k =>
    cases h
    exact ⟨hnone, fun hid => Or.inl (congrArg some (After.about_cleared hid))⟩
  | settleSession j e =>
    simp only [Node.act] at h
    split_ifs at h <;> cases h
    · exact ⟨hnone, fun hid => Or.inl (congrArg some (Ender.about_return hid))⟩
    · exact ⟨hnone, Or.inl⟩
  | refund j payer owed e =>
    cases out <;> cases h
    · exact ⟨fun hid => hid, Or.inl⟩
    · exact ⟨hnone, fun hid => Or.inl (congrArg some (Ender.about_return hid))⟩
    · exact ⟨hnone, fun hid => Or.inl (congrArg some (Ender.about_return hid))⟩
  | recordSettlement j refund transaction e =>
    cases h
    exact ⟨by simp, fun hid => Or.inl (congrArg some (Ender.about_return hid))⟩
  | _ =>
    simp only [Node.act] at h
    (repeat' split at h) <;> cases h <;>
      refine ⟨fun hid => ?_, fun hid => ?_⟩ <;>
      first
      | exact hid
      | exact Or.inl hid
      | cases hid
      | simp at hid

/-! ### Who ends a lease -/

/-- The operation ends the lease, if it is not over yet. -/
def LeaseOp.ends : LeaseOp → Bool
  | .setStatus status | .stop status => status.isTerminal
  | .fail _ => true
  | _ => false

/-- A lease that is over after an operation was over before, or is ended by it. -/
theorem Lease.ends_of_isTerminal {l : Lease} {op : LeaseOp}
    (h : (l.apply op).status.isTerminal) : l.status.isTerminal ∨ op.ends := by
  rw [status_apply] at h
  by_cases hl : l.status.isTerminal
  · exact Or.inl hl
  · right
    cases op with
    | setStatus | stop => simpa [hl, LeaseOp.ends] using h
    | fail => rfl
    | pause | resume =>
      dsimp only at h
      split_ifs at h
      · cases h
      · exact absurd h hl
    | _ => exact absurd h hl

section Ends

variable {cfg : NodeConfig} {s : Node} {p p' : Pc} {out : Outcome} {op : Op} {id : LeaseId}

/-- **A lease ends** in two places: a failed provisioning, and `StopLease`.  Its resources are
reaped next. -/
theorem act_ends (h : s.act cfg p out = some (op, p')) {lop : LeaseOp} (hop : op = .lease id lop)
    (hends : lop.ends) : ∃ k, p' = .reap id k ∧
      ((∃ o err, p = .failLease o err ∧ o.id = id ∧ k.opener id = some id) ∨
        ∃ status, p = .stopLease id status k) := by
  subst hop
  cases p with
  | failLease o err =>
    cases h
    exact ⟨_, rfl, Or.inl ⟨o, err, rfl, rfl, rfl⟩⟩
  | stopLease j status k =>
    simp only [Node.act] at h
    split_ifs at h <;> cases h
    exact ⟨k, rfl, Or.inr ⟨status, rfl⟩⟩
  | recordLease | recordPayment | tickPublish | recordSettlement =>
    simp only [Node.act, publishAudit] at h
    split_ifs at h <;> cases h
  | _ =>
    simp only [Node.act] at h
    (repeat' split at h) <;> cases h <;> cases hends

/-- A lease that is over after a step was over before, or is reaped next. -/
theorem over_step (hop : op.Allowed s) (h : s.act cfg p out = some (op, p'))
    (ho : (s.apply op).Over id) : s.Over id ∨ ∃ k, p' = .reap id k ∧
      ((∃ o err, p = .failLease o err ∧ o.id = id ∧ k.opener id = some id) ∨
        ∃ status, p = .stopLease id status k) := by
  obtain ⟨l, hl, ht⟩ := ho
  rcases Node.leases_apply_cases hl with hl₀ | rfl | ⟨lop, l₀, rfl, hl₀, rfl⟩
  · exact Or.inl ⟨l, hl₀, ht⟩
  · obtain ⟨-, -, token, e, m, rfl⟩ := hop
    cases ht
  · rcases Lease.ends_of_isTerminal ht with ht | hends
    · exact Or.inl ⟨l₀, hl₀, ht⟩
    · exact Or.inr (act_ends h rfl hends)

end Ends

/-! ### The slot of a lease that is over -/

/-- The thread is about to release the slot of the lease. -/
def Pc.releases (id : LeaseId) : Pc → Bool
  | .reap j _ | .release j _ => decide (j = id)
  | _ => false

section Slot

variable {cfg : NodeConfig} {C : NodeGuard} {c : Machine.Config Node Pc} {id : LeaseId}

/-- **A lease that is over gives its slot back**: as long as it holds it, some thread is about to
release it. -/
theorem release_attended (h : (nodeSystem cfg).Reach C c) (ha : c.shared.activeLease = some id)
    (ho : c.shared.Over id) : ∃ (i : ℕ) (p : Pc), c.threads[i]? = some p ∧ p.releases id := by
  refine Machine.attended (M := node cfg) (σ := Node.initial) (C := C)
    (D := fun s => s.activeLease = some id ∧ s.Over id) (W := fun p => p.releases id)
    (fun hd => by cases hd.1) (fun s e hd => by cases e <;> exact hd)
    (fun c i out p op p' hc hp _ hact ⟨ha, ho⟩ => ?_) h ⟨ha, ho⟩
  have hop := allowed_of_reach hc hp hact
  change (c.shared.apply op).activeLease = some id at ha
  rw [Node.activeLease_apply] at ha
  by_cases hw : p.releases id
  · cases p with
    | reap j k =>
      cases hact
      exact Or.inl hw
    | release j k =>
      cases hact
      obtain rfl : j = id := of_decide_eq_true hw
      dsimp only at ha
      split_ifs at ha with ha'
      exact absurd ha ha'
    | _ => cases hw
  · rcases over_step hop hact ho with ho' | ⟨k, rfl, -⟩
    · refine Or.inr ⟨⟨?_, ho'⟩, hw⟩
      cases op with
      | claim j l =>
        -- a lease that is being claimed does not exist yet
        cases ha
        obtain ⟨l', hl', -⟩ := ho'
        rw [hop.1.1] at hl'
        cases hl'
      | release j =>
        dsimp only at ha
        split_ifs at ha
        exact ha
      | _ => exact ha
    · exact Or.inl (decide_eq_true rfl)

end Slot

theorem Node.Sound.sessionID {s : Node} {id : LeaseId} (hs : s.Sound) (h : s.Metered id) :
    (s.lease id).sessionID ≠ "" := by
  obtain ⟨g, hg⟩ := Option.ne_none_iff_exists'.1 h.lease
  exact ((hs.lease id _ h.leases_eq).metered g hg).2.1

/-! ### Debts -/

/-- No thread works on the lease. -/
def Unattended (c : Machine.Config Node Pc) (id : LeaseId) : Prop :=
  ∀ p ∈ c.threads, p.about ≠ some id

/-- The session is over, its credit is owed, and no thread works on it. -/
structure Debt (c : Machine.Config Node Pc) (id : LeaseId) : Prop where
  ended : c.shared.Over id
  pending : (c.shared.lease id).settleState = .pending
  credit : 0 < c.shared.credit id
  unattended : Unattended c id

/-- A pass of the sweep comes to settle every debt. -/
def Retriable (cfg : NodeConfig) (c : Machine.Config Node Pc) : Prop :=
  ∀ id, Debt c id →
    ∃ outs s e, (node cfg).alone c.shared .sweep outs = some (s, .settleSession id e)

section Debt

variable {cfg : NodeConfig} {C : NodeGuard} {c c' : Machine.Config Node Pc} {id : LeaseId}

/-- The lease has been minted, and does not hold the slot. -/
def Node.Unslotted (s : Node) (id : LeaseId) : Prop := s.activeLease ≠ some id ∧ id < s.nextLease

/-- **A lease without the slot is out of reach** of a thread that does not work on it. -/
theorem unslotted_step {s : Node} {p p' : Pc} {out : Outcome} {op : Op} (hs : s.Unslotted id)
    (hp : p.about ≠ some id) (h : s.act cfg p out = some (op, p')) :
    (s.apply op).Unslotted id ∧ p'.about ≠ some id ∧
      (s.apply op).leases id = s.leases id ∧ (s.apply op).refunds id = s.refunds id := by
  obtain ⟨hop, hp'⟩ := act_about id h
  have hop : op.about ≠ some id := fun hid => hp (hop hid)
  refine ⟨⟨?_, ?_⟩, fun hid => ?_, ?_, ?_⟩
  · rw [Node.activeLease_apply]
    cases op with
    | claim j l => exact hop
    | release j =>
      dsimp only
      split_ifs
      · exact (Option.some_ne_none id).symm
      · exact hs.1
    | _ => exact hs.1
  · rw [Node.nextLease_apply]
    cases op with
    | mint => exact hs.2.trans (Nat.lt_succ_self _)
    | _ => exact hs.2
  · rcases hp' hid with h | h | h
    · exact hp h
    · exact hs.1 h
    · exact absurd hs.2 (h ▸ lt_irrefl _)
  · rw [Node.leases_apply]
    cases op with
    | lease j lop | claim j lop => exact if_neg fun hj : id = j => hop (congrArg some hj.symm)
    | _ => rfl
  · rw [Node.refunds_apply]
    cases op with
    | refund j a => exact if_neg fun hj : id = j => hop (congrArg some hj.symm)
    | _ => rfl

theorem Pc.about_of_releases {p : Pc} (h : p.releases id) : p.about = some id := by
  cases p with
  | reap | release => exact congrArg some (of_decide_eq_true h)
  | _ => cases h

/-- A debt has lost the slot. -/
theorem Debt.unslotted (h : (nodeSystem cfg).Reach C c) (hd : Debt c id) :
    c.shared.Unslotted id := by
  refine ⟨fun ha => ?_, ?_⟩
  · obtain ⟨i, p, hp, hr⟩ := release_attended h ha hd.ended
    exact hd.unattended p (List.mem_of_getElem? hp) (Pc.about_of_releases hr)
  · obtain ⟨l, hl, -⟩ := hd.ended
    exact (sound_of_reach h).fresh id l hl

/-- **No sweep comes to settle a debt.** -/
theorem Debt.missed (h : (nodeSystem cfg).Reach C c) (hd : Debt c id) {outs : List Outcome}
    {s : Node} {p : Pc} (ha : (node cfg).alone c.shared .sweep outs = some (s, p)) :
    p.about ≠ some id := by
  have := Machine.alone_invariant (M := node cfg) (I := fun s p => s.Unslotted id ∧
    p.about ≠ some id) (fun s p out op p' ⟨hs, hp⟩ hact =>
      ⟨(unslotted_step hs hp hact).1, (unslotted_step hs hp hact).2.1⟩)
    ⟨hd.unslotted h, by nofun⟩ ha
  exact this.2

/-- **A debt stays**: whatever the node does next, it pays nothing back. -/
theorem Debt.stays (h : (nodeSystem cfg).Reach C c) (hd : Debt c id)
    (hr : (nodeSystem cfg).Run System.Any c c') :
    Debt c' id ∧ c'.shared.refunds id = c.shared.refunds id := by
  have hkept := hr.invariant (I := fun d => d.shared.Unslotted id ∧ Unattended d id ∧
    d.shared.leases id = c.shared.leases id ∧ d.shared.refunds id = c.shared.refunds id)
    ⟨hd.unslotted h, hd.unattended, rfl, rfl⟩ fun d lab d' hI _ hs => ?_
  · obtain ⟨-, hun, hl, hrf⟩ := hkept
    have hlease : c'.shared.lease id = c.shared.lease id := by rw [Node.lease, hl, Node.lease]
    refine ⟨⟨?_, hlease ▸ hd.pending, ?_, hun⟩, hrf⟩
    · obtain ⟨l, hl', ht⟩ := hd.ended
      exact ⟨l, hl.trans hl', ht⟩
    · rw [Node.credit, hlease]
      exact hd.credit
  · obtain ⟨hu, hun, hl, hrf⟩ := hI
    cases lab with
    | env e => cases hs; cases e <;> exact ⟨hu, hun, hl, hrf⟩
    | start r =>
      cases hs
      refine ⟨hu, fun p hp => ?_, hl, hrf⟩
      rcases List.mem_append.1 hp with hp | hp
      · exact hun p hp
      · obtain rfl := List.mem_singleton.1 hp
        intro ha
        cases r <;> cases ha
    | run i out =>
      obtain ⟨p, op, p', hp, ha, rfl⟩ := Machine.step_run hs
      obtain ⟨hu', hp', hl', hrf'⟩ := unslotted_step hu (hun p (List.mem_of_getElem? hp)) ha
      refine ⟨hu', fun q hq => ?_, hl'.trans hl, hrf'.trans hrf⟩
      rcases List.mem_or_eq_of_mem_set hq with hq | rfl
      · exact hun q hq
      · exact hp'

/-- What can be retried is what is not owed. -/
theorem retriable_iff (h : (nodeSystem cfg).Reach C c) :
    Retriable cfg c ↔ ∀ id, ¬ Debt c id := by
  refine ⟨fun hr id hd => ?_, fun hn id hd => absurd hd (hn id)⟩
  obtain ⟨outs, s, e, ha⟩ := hr id hd
  exact hd.missed h ha rfl

end Debt

/-! ### Settlements that go through -/

/-- Every refund succeeds, credit is owed only by a node that can refund it, and no lease is metered
after its end. -/
def Pc.refunding (cfg : NodeConfig) (s : Node) : Pc → Outcome → Bool
  | .refund .., .ok _ _ => true
  | .refund .., _ => false
  | .readCredit id _, _ => cfg.sidecar || decide (s.credit id ≤ 0)
  | .markMetered o _ _, _ => !(s.lease o.id).status.isTerminal
  | _, _ => true

/-- Every step of the run is refunding. -/
abbrev Refunding (cfg : NodeConfig) : NodeGuard :=
  Machine.Guard fun c _ p out => p.refunding cfg c.shared out

/-- The thread is about to settle the session. -/
def Pc.settles (id : LeaseId) : Pc → Bool
  | .reap j (.settle _) | .release j (.settle _) | .clear j (.settle _) | .settleSession j _
  | .readCredit j _ | .refund j .. | .markSettled j .. => decide (j = id)
  | _ => false

theorem Pc.about_of_settles {id : LeaseId} {p : Pc} (h : p.settles id) : p.about = some id := by
  cases p with
  | reap j k | release j k | clear j k =>
    cases k with
    | settle e => exact congrArg some (of_decide_eq_true h)
    | abort r | refuse r => cases h
  | settleSession | readCredit | refund | markSettled => exact congrArg some (of_decide_eq_true h)
  | _ => cases h

section Refunding

variable {cfg : NodeConfig} {c : Machine.Config Node Pc} {id : LeaseId}

/-- The session is over, and not marked settled. -/
def Node.Unsettled (s : Node) (id : LeaseId) : Prop :=
  s.Over id ∧ (s.lease id).settleState = .pending

/-- The settle state changes when a lease is metered and when it is marked settled. -/
theorem settleState_step {s : Node} {p p' : Pc} {op : Op} (hop : op.Allowed s)
    (h : SessionStep s id p op p') :
    ((s.apply op).lease id).settleState = (s.lease id).settleState ∨
      (∃ o payer transaction, p = .markMetered o payer transaction ∧ o.id = id) ∨
      ∃ owed transaction e, p = .markSettled id owed transaction e := by
  cases h with
  | elsewhere hp hs hp' => exact Or.inl hs.settleState
  | settleOpening | settleTopUp | readNothing | readCredit | refund | refundFailed =>
    exact Or.inl rfl
  | markMetered o payer transaction hid =>
    exact Or.inr (Or.inl ⟨o, payer, transaction, rfl, hid⟩)
  | addCredit | burn =>
    exact Or.inl (Node.settleState_lease hop (fun l => Lease.settleState_apply l _) id)
  | markSettled owed transaction e => exact Or.inr (Or.inr ⟨owed, transaction, e, rfl⟩)

/-- **A settlement goes on** until its session is marked settled. -/
theorem settles_step {s : Node} (hs : s.Sound) {p p' : Pc} {out : Outcome} {op : Op}
    (hk : p.Knows s) (h : s.act cfg p out = some (op, p')) (hg : p.refunding cfg s out)
    (hp : p.settles id) (hd : (s.apply op).Unsettled id) : p'.settles id := by
  obtain ⟨ho, hst⟩ := hd
  cases p with
  | reap j k | release j k | clear j k =>
    cases k with
    | settle e => cases h; exact hp
    | abort r | refuse r => cases hp
  | settleSession j e =>
    simp only [Node.act] at h
    split_ifs at h with hq <;> cases h
    · obtain rfl : j = id := of_decide_eq_true hp
      have hst : (s.lease j).settleState = .pending := hst
      have hm := hs.metered_of_settleState (Node.Has.present hk) (by simp [hst])
      exact absurd hq (by simp [hs.sessionID hm, hst])
    · exact hp
  | readCredit j e =>
    simp only [Node.act] at h
    split_ifs at h with hc hsc <;> cases h
    · exact hp
    · have hc' : ¬ s.credit j ≤ 0 := hc
      simp only [Bool.not_eq_true'] at hsc
      simp [Pc.refunding, hsc, hc'] at hg
    · exact hp
  | refund j payer owed e =>
    cases out <;> cases h
    · exact hp
    · cases hg
    · cases hg
  | markSettled j owed transaction e =>
    cases h
    obtain rfl : j = id := of_decide_eq_true hp
    rw [Node.lease_apply_lease hk.1, Lease.settleState_apply, if_neg (hs.settleState hk.2)] at hst
    cases hst
  | _ => cases hp

/-- **A settlement starts** when the session ends. -/
theorem unsettled_step {s : Node} (hs : s.Sound) {p p' : Pc} {out : Outcome} {op : Op}
    (hk : p.Knows s) (h : s.act cfg p out = some (op, p')) (hg : p.refunding cfg s out)
    (hd : (s.apply op).Unsettled id) : p'.settles id ∨ s.Unsettled id ∧ ¬ p.settles id := by
  by_cases hp : p.settles id
  · exact Or.inl (settles_step hs hk h hg hp hd)
  obtain ⟨hop, hk'⟩ := act_knows hs hk h
  obtain ⟨ho, hst⟩ := hd
  rcases over_step hop h ho with ho' | ⟨k, rfl, -⟩
  · refine Or.inr ⟨⟨ho', ?_⟩, hp⟩
    rcases settleState_step hop ((moneyStep_of_act h).session hop id) with
      heq | ⟨o, payer, transaction, rfl, rfl⟩ | ⟨owed, transaction, e, rfl⟩
    · exact heq.symm.trans hst
    · have ht : (s.lease o.id).status.isTerminal := ho'.lease
      simp [Pc.refunding, ht] at hg
    · exact absurd (decide_eq_true rfl) hp
  · -- a lease that has a settlement is torn down to be settled
    have hm := (hs.apply hop).metered_of_settleState ho.present (by simp [hst])
    cases k with
    | settle e => exact Or.inl (decide_eq_true rfl)
    | abort r | refuse r => exact absurd hk'.2.lease hm.lease

/-- A session that is over and not marked settled is about to be, in a refunding run. -/
theorem settle_attended (h : (nodeSystem cfg).Reach (Refunding cfg) c)
    (hd : c.shared.Unsettled id) : ∃ (i : ℕ) (p : Pc), c.threads[i]? = some p ∧ p.settles id :=
  Machine.attended (M := node cfg) (σ := Node.initial) (C := Refunding cfg)
    (D := fun s => s.Unsettled id) (W := fun p => p.settles id) (fun ⟨⟨_, hl, _⟩, _⟩ => by cases hl)
    (fun s e hd => by cases e <;> exact hd)
    (fun _ _ _ _ _ _ hc hp hg ha => unsettled_step (sound_of_reach hc) (knows_of_reach hc hp) ha
      (hg.run hp)) h hd

/-- **The sweep never comes to settle a debt**, so a debt is retriable only if there is none; and
there is none in a run in which every refund goes through. -/
theorem retriable_of_refunding {c : Machine.Config Node Pc} (h : (nodeSystem cfg).Reachable c) :
    (Retriable cfg c ↔ ∀ id, ¬ Debt c id) ∧
      ((nodeSystem cfg).Reach (Refunding cfg) c → Retriable cfg c ∧ ∀ id, ¬ Debt c id) := by
  refine ⟨retriable_iff h, fun hr => ?_⟩
  have hn : ∀ id, ¬ Debt c id := by
    intro id hd
    obtain ⟨i, p, hp, hs⟩ := settle_attended hr ⟨hd.ended, hd.pending⟩
    exact hd.unattended p (List.mem_of_getElem? hp) (Pc.about_of_settles hs)
  exact ⟨(retriable_iff h).2 hn, hn⟩

end Refunding

/-- The renter stops, and the refund goes through. -/
theorem retriable_stopSession :
    ∃ c, (nodeSystem .small).Reach (Refunding .small) c ∧ c.shared.refunds 0 = [60] ∧
      Retriable .small c := by
  obtain ⟨c, hc, hp⟩ := System.exists_reach (S := nodeSystem .small) (C := Refunding .small)
    (p := fun c => decide (c.shared.refunds 0 = [60])) stopSession (by decide +kernel)
  exact ⟨c, hc, of_decide_eq_true hp, ((retriable_of_refunding hc.reachable).2 hc).1⟩

/-- The renter stops, and the refund fails. -/
def failedRefund : List (Machine.Label Outcome Request Event) :=
  openSession ++ .start (.stop sessionPath "t") :: turns 1 11 ++
    .run 1 (.fail "no HBAR") :: turns 1 1

/-- **A failed refund is not retriable.** -/
theorem not_retriable :
    ¬ ∀ (cfg : NodeConfig) (c : Machine.Config Node Pc), (nodeSystem cfg).Reachable c →
      Retriable cfg c := by
  intro h
  obtain ⟨c, hc, hp⟩ := System.exists_reach (S := nodeSystem .small) (C := System.Any)
    (p := fun c => c.threads.all Pc.isDone && (c.shared.leases 0).any (·.status.isTerminal) &&
      decide ((c.shared.lease 0).settleState = .pending ∧ 0 < c.shared.credit 0)) failedRefund
    (by decide +kernel)
  simp only [Bool.and_eq_true, List.all_eq_true, decide_eq_true_eq, Option.any_eq_true] at hp
  obtain ⟨⟨hdone, ho⟩, hpend, hcredit⟩ := hp
  have hun : Unattended c 0 := by
    intro p hp
    rw [Pc.about_of_isDone (hdone p hp)]
    nofun
  exact (retriable_iff hc).1 (h .small c hc) 0 ⟨ho, hpend, hcredit, hun⟩

/-! ### An opening session that is ended -/

/-- The thread is about to meter the lease. -/
def Pc.meters (id : LeaseId) : Pc → Bool
  | .markMetered o _ _ => decide (o.id = id)
  | _ => false

theorem Pc.meters_eq_false {id : LeaseId} {p : Pc} (h : p.carries id = false) :
    p.meters id = false := by
  cases p with
  | markMetered => exact h
  | _ => rfl

/-- The opening chunk settles only while its lease is not over, and no lease is stopped between its
settlement and its `MarkMetered`. -/
def Pc.timely (c : Machine.Config Node Pc) : Pc → Outcome → Bool
  | .settleOpening o, .ok _ _ => !(c.shared.lease o.id).status.isTerminal
  | .stopLease id _ _, _ =>
    (c.shared.lease id).status.isTerminal || c.threads.all fun q => !q.meters id
  | _, _ => true

/-- Every step of the run is timely. -/
abbrev Timely : NodeGuard := Machine.Guard fun c _ p out => p.timely c out

/-- What a thread that is about to meter a lease knows about it. -/
def Pc.InTime (s : Node) : Pc → Prop
  | .markMetered o _ _ => ¬ s.Over o.id
  | _ => True

section Timely

variable {cfg : NodeConfig} {c : Machine.Config Node Pc} {id : LeaseId}

/-- A thread comes to meter a lease by settling its opening chunk. -/
theorem act_markMetered {s : Node} {p : Pc} {out : Outcome} {op : Op} {o : Opening}
    {payer transaction : String}
    (h : s.act cfg p out = some (op, .markMetered o payer transaction)) :
    p = .settleOpening o ∧ out = .ok payer transaction ∧ op = .settle o.id o.amount := by
  cases moneyStep_of_act h with
  | idle _ _ hp' | burn _ _ _ hp' | refundFailed _ _ _ _ hp' => cases hp'
  | settleOpening =>
    cases out <;> cases h
    exact ⟨rfl, rfl, rfl⟩

/-- **Timely openings**: nobody ends a lease that is about to be metered. -/
def timelyOutline (cfg : NodeConfig) : Machine.Outline (node cfg) Node.initial Timely where
  I _ := True
  A s p := p.InTime s
  X _ _ := True
  init := trivial
  symm _ _ _ := trivial
  start s r := by cases r <;> trivial
  apart _ _ := trivial
  envI _ _ _ := trivial
  envA s e p h := by cases p <;> cases e <;> exact h
  act c i out p op p' hc hp hg _ _ ha := by
    refine ⟨trivial, ?_⟩
    cases p' with
    | markMetered o payer transaction =>
      obtain ⟨rfl, rfl, rfl⟩ := act_markMetered ha
      have hlive : Pc.timely c (.settleOpening o) (.ok payer transaction) := hg.run hp
      intro ho
      have ht : (c.shared.lease o.id).status.isTerminal := ho.lease
      simp [Pc.timely, ht] at hlive
    | _ => trivial
  free c i j out p q op p' hij hc hp hq hg _ _ hAq _ ha := by
    refine ⟨?_, trivial⟩
    cases q with
    | markMetered o payer transaction =>
      intro ho
      rcases over_step (allowed_of_reach hc hp ha) ha ho with
        ho' | ⟨k, -, ⟨o', err, rfl, hid, -⟩ | ⟨status, rfl⟩⟩
      · exact hAq ho'
      · -- the lease has one opener, and it is past its provisioning
        exact hij (opener_unique hc hp hq (congrArg some hid) rfl)
      · have hgp : Pc.timely c (.stopLease o.id status k) out := hg.run hp
        simp only [Pc.timely, Bool.or_eq_true, List.all_eq_true, Bool.not_eq_true'] at hgp
        rcases hgp with ht | hall
        · have hm := (knows_of_reach hc hq).2
          exact hAq (hm.of_lease fun _ => ht)
        · simpa [Pc.meters] using hall _ (List.mem_of_getElem? hq)
    | _ => trivial

/-- The session has been paid for, and its payment not banked. -/
def Node.Unbanked (s : Node) (id : LeaseId) : Prop :=
  (s.lease id).ledger = none ∧ s.settled id ≠ 0

theorem unbanked_step {s : Node} {p p' : Pc} {op : Op} (hk : p.Knows s) (hop : op.Allowed s)
    (h : SessionStep s id p op p') (hd : (s.apply op).Unbanked id) :
    p'.meters id ∨ s.Unbanked id ∧ ¬ p.meters id := by
  obtain ⟨hn, hpaid⟩ := hd
  -- a lease that is metered stays so
  have hmetered : ¬ s.Metered id := fun hm => ((Node.later_apply hop).metered hm).lease hn
  cases h with
  | elsewhere hp hs hp' =>
    rw [hs.ledger] at hn
    rw [hs.settled] at hpaid
    exact Or.inr ⟨⟨hn, hpaid⟩, by simp [Pc.meters_eq_false hp]⟩
  | settleOpening o payer transaction hid => exact Or.inl (decide_eq_true hid)
  | markMetered o payer transaction hid =>
    subst hid
    rw [Node.lease_apply_lease hop, Lease.ledger_apply] at hn
    cases hn
  | settleTopUp => exact absurd hk.1 hmetered
  | addCredit p hid =>
    subst hid
    exact absurd hk.1 hmetered
  | burn => exact absurd hk hmetered
  | markSettled => exact absurd hk.2 hmetered
  | readNothing | readCredit | refund | refundFailed =>
    exact Or.inr ⟨⟨hn, hpaid⟩, by simp [Pc.meters]⟩

/-- A session that has been paid for is about to be metered. -/
theorem meter_attended {C : NodeGuard} (h : (nodeSystem cfg).Reach C c)
    (hd : c.shared.Unbanked id) :
    ∃ (i : ℕ) (p : Pc), c.threads[i]? = some p ∧ p.meters id :=
  Machine.attended (M := node cfg) (σ := Node.initial) (C := C)
    (D := fun s => s.Unbanked id) (W := fun p => p.meters id) (fun hd => hd.2 rfl)
    (fun s e hd => by cases e <;> exact hd)
    (fun _ _ _ _ _ _ hc hp _ ha =>
      have hop := allowed_of_reach hc hp ha
      unbanked_step (knows_of_reach hc hp) hop ((moneyStep_of_act ha).session hop id)) h hd

/-- **A renter is not charged for a session that has ended**, in a timely run: a lease is not over
and has the slot when it is metered, and one that is over without being metered has not been
paid for. -/
theorem uncharged_of_timely (h : (nodeSystem cfg).Reach Timely c) :
    (∀ o payer transaction, Pc.markMetered o payer transaction ∈ c.threads →
      ¬ (c.shared.lease o.id).status.isTerminal ∧ c.shared.activeLease = some o.id) ∧
    ∀ id, c.shared.Over id → c.shared.Unmetered id → c.shared.settled id = 0 := by
  have hlive : ∀ (i : ℕ) (o : Opening) (payer transaction : String),
      c.threads[i]? = some (.markMetered o payer transaction) → ¬ c.shared.Over o.id :=
    fun i o payer transaction hi => ((timelyOutline cfg).holds h).annot i _ hi
  refine ⟨fun o payer transaction hmem => ?_, fun id ho hn => ?_⟩
  · obtain ⟨i, hi⟩ := List.mem_iff_getElem?.1 hmem
    have hm := (knows_of_reach h hi).2
    have ht : ¬ (c.shared.lease o.id).status.isTerminal := fun ht =>
      hlive i o payer transaction hi (hm.of_lease fun _ => ht)
    exact ⟨ht, (sound_of_reach h).slot o.id _ hm.leases_eq ht⟩
  · by_contra hpaid
    obtain ⟨i, p, hi, hp⟩ := meter_attended h ⟨hn.lease, hpaid⟩
    cases p with
    | markMetered o payer transaction =>
      obtain rfl : o.id = id := by simpa [Pc.meters] using hp
      exact hlive i o payer transaction hi ho
    | _ => cases hp

end Timely

/-- A session opens, up to the settlement of its first chunk. -/
def openUnpaid : List (Machine.Label Outcome Request Event) := .start (.create 120) :: turns 0 13

/-- It has the slot when it is about to be metered. -/
theorem uncharged_openUnpaid :
    ∃ c, (nodeSystem .small).Reach Timely c ∧ c.shared.settled 0 = 60 ∧
      c.shared.activeLease = some 0 := by
  obtain ⟨c, hc, hp⟩ := System.exists_reach (S := nodeSystem .small) (C := Timely)
    (p := fun c => decide (c.shared.settled 0 = 60) && c.threads.any fun
      | .markMetered o _ _ => o.id = 0
      | _ => false) (openUnpaid ++ turns 0 1) (by decide +kernel)
  simp only [Bool.and_eq_true, decide_eq_true_eq, List.any_eq_true] at hp
  obtain ⟨hpaid, p, hmem, hp⟩ := hp
  cases p with
  | markMetered o payer transaction =>
    obtain hid : o.id = 0 := by simpa using hp
    exact ⟨c, hc, hpaid, hid ▸ ((uncharged_of_timely hc).1 o payer transaction hmem).2⟩
  | _ => cases hp

/-- The provider ends the session before its first chunk settles. -/
def endUnpaid : List (Machine.Label Outcome Request Event) :=
  openUnpaid ++ .start .endLease :: turns 1 8 ++ turns 0 1

/-- **A renter can be charged for a session that has ended.**  A lease is stopped and has lost the
slot when it is metered; once all handlers are done, nothing of its payment has been refunded, and
nothing burned. -/
theorem not_uncharged :
    (¬ ∀ (cfg : NodeConfig) (c : Machine.Config Node Pc), (nodeSystem cfg).Reachable c →
      ∀ o payer transaction, Pc.markMetered o payer transaction ∈ c.threads →
        ¬ (c.shared.lease o.id).status.isTerminal ∧ c.shared.activeLease = some o.id) ∧
    ∃ c, (nodeSystem .small).Reachable c ∧ (∀ p ∈ c.threads, p.isDone) ∧
      (c.shared.lease 0).status = .stopped ∧ c.shared.activeLease = none ∧
      c.shared.settled 0 = 60 ∧ c.shared.burned 0 = 0 ∧ c.shared.refunds 0 = [] := by
  refine ⟨fun h => ?_, ?_⟩
  · obtain ⟨c, hc, hp⟩ := System.exists_reach (S := nodeSystem .small) (C := System.Any)
      (p := fun c => decide (c.shared.activeLease = none) && c.threads.any fun
        | .markMetered .. => true
        | _ => false) endUnpaid (by decide +kernel)
    simp only [Bool.and_eq_true, decide_eq_true_eq, List.any_eq_true] at hp
    obtain ⟨hfree, p, hmem, hp⟩ := hp
    cases p with
    | markMetered o payer transaction =>
      have := (h .small c hc o payer transaction hmem).2
      rw [hfree] at this
      cases this
    | _ => cases hp
  · obtain ⟨c, hc, hp⟩ := System.exists_reach (S := nodeSystem .small) (C := System.Any)
      (p := fun c => c.threads.all Pc.isDone && decide ((c.shared.lease 0).status = .stopped ∧
        c.shared.activeLease = none ∧ c.shared.settled 0 = 60 ∧ c.shared.burned 0 = 0 ∧
        c.shared.refunds 0 = [])) (endUnpaid ++ turns 0 6) (by decide +kernel)
    simp only [Bool.and_eq_true, List.all_eq_true, decide_eq_true_eq] at hp
    exact ⟨c, hc, hp⟩

end Mach402
