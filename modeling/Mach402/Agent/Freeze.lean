import Mach402.Agent.Length

/-!
# Frozen sessions

The sweep freezes a session that is overdue, and a top-up thaws one that it finds frozen.  The
sweep's overdue check and `PauseLease` hold the lock of the lease one after the other, and so do
`AddCredit` and the check whether to thaw; a top-up that fits in between leaves the session frozen
with its credit.  `spent_of_paused`: a frozen session that no top-up is about to thaw has no second
left, in every run in which the sweep freezes only what has none (`FreezesSpent`).
-/

namespace Mach402

/-! ### Frozen with credit -/

/-- The session is frozen, and there is a second left on it. -/
structure Lease.Stranded (l : Lease) : Prop where
  paused : l.status = .paused
  paid : 0 < l.secondsRemaining

/-- What may strand a lease that was not. -/
def LeaseOp.Strands (l : Lease) : LeaseOp → Prop
  | .pause _ => l.status = .active ∧ 0 < l.secondsRemaining
  | .addCredit _ | .markMetered .. => l.status = .paused
  | .setStatus status | .stop status => status = .paused
  | _ => False

section Lease

variable {l : Lease}

/-- A burn buys no time. -/
theorem Lease.secondsRemaining_burn_le (hl : l.Sound) (now : ℤ) :
    (l.apply (.burn now)).secondsRemaining ≤ l.secondsRemaining := by
  simp only [Lease.secondsRemaining, Lease.ledger_apply]
  cases hg : l.ledger with
  | none => rfl
  | some g =>
    obtain ⟨h0, -⟩ := (hl.metered g hg).2.2.chargeAt now l
    simp only [Option.map_some, Option.getD_some, Ledger.secondsRemaining, Ledger.spend]
    split_ifs with hp
    · exact le_rfl
    · exact Int.ediv_le_ediv (not_le.1 hp) (by omega)

/-- Nor is there any on a session that is marked settled. -/
theorem Lease.secondsRemaining_markSettled (hl : l.Sound) (r : ℤ) :
    (l.apply (.markSettled r)).secondsRemaining = 0 := by
  simp only [Lease.secondsRemaining, Lease.ledger_apply]
  cases hg : l.ledger with
  | none => split_ifs <;> rfl
  | some g =>
    simp only [(hl.metered g hg).1, if_false, Option.map_some, Option.getD_some,
      Ledger.secondsRemaining, Int.zero_ediv, ite_self]

theorem Lease.secondsRemaining_nonneg (hl : l.Sound) : 0 ≤ l.secondsRemaining := by
  simp only [Lease.secondsRemaining]
  cases hg : l.ledger with
  | none => exact le_rfl
  | some g =>
    simp only [Option.map_some, Option.getD_some, Ledger.secondsRemaining]
    split_ifs with hp
    · exact le_rfl
    · exact Int.ediv_nonneg (hl.metered g hg).2.2.credit (not_le.1 hp).le

/-- **A lease is stranded** by a freeze, by a payment while it is frozen, or was before. -/
theorem Lease.Stranded.of_apply (hl : l.Sound) {op : LeaseOp} (h : (l.apply op).Stranded) :
    l.Stranded ∨ op.Strands l := by
  obtain ⟨hst, hsec⟩ := h
  rw [Lease.status_apply] at hst
  have hsame : (l.apply op).ledger = l.ledger → 0 < l.secondsRemaining := fun hg => by
    rwa [Lease.secondsRemaining, hg] at hsec
  cases op with
  | markMetered | addCredit => exact Or.inr hst
  | burn now => exact Or.inl ⟨hst, hsec.trans_le (Lease.secondsRemaining_burn_le hl now)⟩
  | markSettled r => rw [Lease.secondsRemaining_markSettled hl] at hsec; cases hsec
  | setSessionLength | setContainer => exact Or.inl ⟨hst, hsame (Lease.ledger_apply _ _)⟩
  | setStatus status | stop status =>
    dsimp only at hst
    split_ifs at hst
    · exact Or.inl ⟨hst, hsame (Lease.ledger_apply _ _)⟩
    · exact Or.inr hst
  | fail err =>
    dsimp only at hst
    split_ifs at hst
    exact Or.inl ⟨hst, hsame (Lease.ledger_apply _ _)⟩
  | pause now =>
    have hpaid := hsame (Lease.ledger_apply _ _)
    dsimp only at hst
    split_ifs at hst with ha
    · exact Or.inr ⟨ha, hpaid⟩
    · exact Or.inl ⟨hst, hpaid⟩
  | resume now =>
    dsimp only at hst
    split_ifs at hst with hp
    exact absurd hst hp

end Lease

/-! ### One step -/

/-- The thread has banked a top-up, and is about to see whether the session needs thawing. -/
def Pc.thaws (id : LeaseId) : Pc → Bool
  | .topUpPaused p | .resume p => decide (p.id = id)
  | _ => false

/-- The sweep freezes a session that has no second left, or that a top-up is about to thaw; and no
opening chunk is banked for a session that is frozen already. -/
def Pc.freezesSpent (c : Machine.Config Node Pc) : Pc → Bool
  | .pause id =>
    let l := c.shared.lease id
    decide (l.status ≠ .active ∨ l.secondsRemaining ≤ 0) || c.threads.any (Pc.thaws id)
  | .markMetered o _ _ => decide ((c.shared.lease o.id).status ≠ .paused)
  | _ => true

/-- Every freeze of the run is of a session that is spent. -/
abbrev FreezesSpent : NodeGuard := Machine.Guard fun c _ p _ => p.freezesSpent c

section Step

variable {cfg : NodeConfig} {s : Node} {p p' : Pc} {out : Outcome} {op : Op} {id : LeaseId}

/-- A thread that is about to thaw does so, unless the session is not frozen. -/
theorem act_thaws (h : s.act cfg p out = some (op, p')) (hp : p.thaws id) :
    op = .skip ∧ (p'.thaws id ∨ (s.lease id).status ≠ .paused) ∨
      ∃ now, op = .lease id (.resume now) := by
  cases p with
  | topUpPaused p =>
    obtain rfl : p.id = id := of_decide_eq_true hp
    simp only [Node.act] at h
    split_ifs at h with hst <;> cases h
    · exact Or.inl ⟨rfl, Or.inl hp⟩
    · exact Or.inl ⟨rfl, Or.inr hst⟩
  | resume p =>
    obtain rfl : p.id = id := of_decide_eq_true hp
    cases h
    exact Or.inr ⟨s.clock, rfl⟩
  | _ => cases hp

/-- Which thread strands a lease. -/
theorem act_strands {lop : LeaseOp} (hk : p.Knows s)
    (h : s.act cfg p out = some (.lease id lop, p')) (hs : lop.Strands (s.lease id)) :
    p = .pause id ∧ (s.lease id).status = .active ∧ 0 < (s.lease id).secondsRemaining ∨
      p'.thaws id ∨
      ∃ o payer transaction, p = .markMetered o payer transaction ∧ o.id = id ∧
        (s.lease id).status = .paused := by
  cases p with
  | pause j => cases h; exact Or.inl ⟨rfl, hs⟩
  | addCredit p => cases h; exact Or.inr (Or.inl (decide_eq_true rfl))
  | markMetered o payer transaction =>
    cases h
    exact Or.inr (Or.inr ⟨o, payer, transaction, rfl, rfl, hs⟩)
  | stopLease j status k =>
    simp only [Node.act] at h
    split_ifs at h <;> cases h
    obtain rfl : status = .paused := hs
    cases hk.1
  | recordLease | recordPayment | tickPublish | recordSettlement =>
    simp only [Node.act, publishAudit] at h
    split_ifs at h <;> cases h
  | _ =>
    simp only [Node.act] at h
    (repeat' split at h) <;> cases h <;> cases hs

/-- **A step strands no lease** that it freezes spent. -/
theorem stranded_step {c : Machine.Config Node Pc} (hs : c.shared.Sound) (hk : p.Knows c.shared)
    (hop : op.Allowed c.shared) (h : c.shared.act cfg p out = some (op, p'))
    (hg : p.freezesSpent c) (hd : ((c.shared.apply op).lease id).Stranded) :
    p'.thaws id ∨ (∃ q ∈ c.threads, q.thaws id ∧ ¬ p.thaws id) ∨
      (c.shared.lease id).Stranded ∧ ¬ p.thaws id := by
  by_cases hp : p.thaws id
  · rcases act_thaws h hp with ⟨rfl, hp' | hst⟩ | ⟨now, rfl⟩
    · exact Or.inl hp'
    · exact absurd hd.paused hst
    · -- a thawed session is not frozen
      have hst := hd.paused
      rw [Node.lease_apply_lease hop, Lease.status_apply] at hst
      dsimp only at hst
      split_ifs at hst with hpaused
      exact absurd hst hpaused
  rcases Node.lease_apply_cases hop id with ⟨lop, rfl⟩ | hsame | ⟨-, token, e, m, hnew⟩
  · rw [Node.lease_apply_lease hop] at hd
    rcases hd.of_apply (hs.lease id _ hop.leases_eq) with hd | hstrands
    · exact Or.inr (Or.inr ⟨hd, hp⟩)
    rcases act_strands hk h hstrands with ⟨rfl, hactive, hpaid⟩ | hp' | ⟨o, payer, t, rfl, rfl, hst⟩
    · simp only [Pc.freezesSpent, Bool.or_eq_true, decide_eq_true_eq, List.any_eq_true] at hg
      rcases hg with (hn | hn) | ⟨q, hq, hthaws⟩
      · exact absurd hactive hn
      · exact absurd hpaid (not_lt.2 hn)
      · exact Or.inr (Or.inl ⟨q, hq, hthaws, hp⟩)
    · exact Or.inl hp'
    · exact absurd hst (of_decide_eq_true hg)
  · rw [hsame] at hd
    exact Or.inr (Or.inr ⟨hd, hp⟩)
  · rw [hnew] at hd
    cases hd.paused

end Step

/-! ### In every run -/

section Reach

variable {cfg : NodeConfig} {c : Machine.Config Node Pc} {id : LeaseId}

/-- A stranded session is about to be thawed. -/
theorem thaw_attended (h : (nodeSystem cfg).Reach FreezesSpent c)
    (hd : (c.shared.lease id).Stranded) :
    ∃ (i : ℕ) (p : Pc), c.threads[i]? = some p ∧ p.thaws id :=
  Machine.attended_among (M := node cfg) (σ := Node.initial) (C := FreezesSpent)
    (D := fun s => (s.lease id).Stranded) (W := fun p => p.thaws id)
    (fun hd => by cases hd.paused) (fun s e hd => by cases e <;> exact hd)
    (fun _ _ _ _ _ _ hc hp hg ha =>
      stranded_step (sound_of_reach hc) (knows_of_reach hc hp) (allowed_of_reach hc hp ha) ha
        (hg.run hp)) h hd

/-- **A frozen session is spent**, unless a top-up is about to thaw it. -/
theorem spent_of_paused (h : (nodeSystem cfg).Reach FreezesSpent c)
    (hin : ∀ p ∈ c.threads, p.thaws id = false)
    (hst : (c.shared.lease id).status = .paused) :
    (c.shared.lease id).secondsRemaining = 0 := by
  by_contra hne
  have hnonneg : 0 ≤ (c.shared.lease id).secondsRemaining := by
    cases hl : c.shared.leases id with
    | none => simp [Node.lease, hl, Lease.secondsRemaining, Lease.provisioning]
    | some l =>
      rw [Node.lease_eq hl]
      exact Lease.secondsRemaining_nonneg ((sound_of_reach h).lease id l hl)
  obtain ⟨i, p, hp, hthaws⟩ := thaw_attended h ⟨hst, lt_of_le_of_ne hnonneg (Ne.symm hne)⟩
  rw [hin p (List.mem_of_getElem? hp)] at hthaws
  cases hthaws

end Reach

/-- Every call to Docker succeeds. -/
abbrev DockerSucceeds : NodeGuard := Machine.Guard fun _ _ p out =>
  match p, out with
  | .provision _, .ok .. | .pauseContainer _, .ok .. | .unpause _, .ok .. => true
  | .provision _, _ | .pauseContainer _, _ | .unpause _, _ => false
  | _, _ => true

/-- A session has used its first minute, and the sweep is about to freeze it. -/
def overdue : List (Machine.Label Outcome Request Event) :=
  openSession ++ .env (.advance 60000000000) :: .start .sweep :: turns 1 10 ++
    .env (.advance 30000000000) :: .start .sweep :: turns 2 10

/-- It is frozen. -/
theorem spent_overdue :
    ∃ c, (nodeSystem .small).Reach FreezesSpent c ∧ (c.shared.lease 0).status = .paused ∧
      (c.shared.lease 0).secondsRemaining = 0 := by
  obtain ⟨c, hc, hp⟩ := System.exists_reach (S := nodeSystem .small) (C := FreezesSpent)
    (p := fun c => decide ((c.shared.lease 0).status = .paused ∧ ∀ p ∈ c.threads, ¬ p.thaws 0))
    (overdue ++ turns 2 2) (by decide +kernel)
  obtain ⟨hst, hin⟩ := of_decide_eq_true hp
  exact ⟨c, hc, hst, spent_of_paused hc (fun p hp => Bool.eq_false_iff.2 (hin p hp)) hst⟩

/-- Its renter buys the second minute before the sweep gets to it. -/
def topUpOverdue : List (Machine.Label Outcome Request Event) :=
  overdue ++ .start (.topUp sessionPath "t") :: turns 3 14 ++ turns 2 2

/-- **A paid session can be left frozen.**  It is paid in full, so it cannot even be topped up. -/
theorem not_spent :
    ¬ ∀ (cfg : NodeConfig) (c : Machine.Config Node Pc), (nodeSystem cfg).Reach DockerSucceeds c →
      (∀ p ∈ c.threads, p.isDone) → ∀ id, (c.shared.lease id).status = .paused →
        (c.shared.lease id).secondsRemaining = 0 := by
  intro h
  obtain ⟨c, hc, hp⟩ := System.exists_reach (S := nodeSystem .small) (C := DockerSucceeds)
    (p := fun c => decide ((∀ p ∈ c.threads, p.isDone) ∧ (c.shared.lease 0).status = .paused ∧
      (c.shared.lease 0).secondsRemaining = 60)) topUpOverdue (by decide +kernel)
  obtain ⟨hdone, hst, hsec⟩ := of_decide_eq_true hp
  have hzero := h .small c hc hdone 0 hst
  rw [hsec] at hzero
  exact absurd hzero (by decide)

end Mach402
