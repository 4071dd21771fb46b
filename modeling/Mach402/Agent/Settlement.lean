import Mach402.Agent.Money

/-!
# Settled, burned, owed, refunded

Two things the settlement of a session should give, and when it gives them.

* `counted_of_lossless`: no settled payment is lost.  `settleSession` reads the credit, waits for a
  transfer and then zeroes the credit, whatever has been banked meanwhile; a top-up that is settled
  and not banked yet may also be banked after that.  The books balance in every run in which each
  `AddCredit` and each `MarkSettled` finds the ledger that its handler read (`Lossless`).
* `refunds_le_of_exclusive`: a session is refunded at most once.  Two settlements may both find the
  session pending, and both transfer its credit.  At most one does in every run in which no other
  settlement holds a figure when a credit is read, and no burn charges while one does (`Exclusive`).
-/

namespace Mach402

/-! ### No settled payment is lost -/

/-- An `AddCredit` finds the session not marked settled; a `MarkSettled` finds the credit its
settlement read. -/
def Pc.lossless (s : Node) : Pc → Bool
  | .addCredit p => (s.lease p.id).settleState ≠ .done
  | .markSettled id owed _ _ => s.credit id = owed
  | _ => true

/-- Every step of the run is lossless. -/
abbrev Lossless : NodeGuard := Machine.Guard fun c _ p _ => p.lossless c.shared

section Account

variable {s : Node}

/-- What is marked settled has no credit left. -/
def Node.Unstranded (s : Node) : Prop :=
  ∀ id, (s.lease id).settleState = .done → s.credit id = 0

/-- A lease that has no credit earns nothing. -/
theorem Lease.credit_burn {l : Lease} (hl : l.Sound) (h : l.credit = 0) (now : ℤ) :
    (l.apply (.burn now)).credit = 0 := by
  cases hg : l.ledger with
  | none => simp [Lease.credit, Lease.ledger_apply, hg]
  | some g =>
    have hc : g.credit = 0 := by simpa [Lease.credit, hg] using h
    obtain ⟨h0, h1⟩ := (hl.metered g hg).2.2.chargeAt now l
    simp only [Lease.credit, Lease.ledger_apply, hg, Option.map_some, Option.getD_some,
      Ledger.spend]
    omega

theorem unstranded_step (hs : s.Sound) {p p' : Pc} {op : Op} (hk : p.Knows s)
    (hop : op.Allowed s) (h : MoneyStep s p op p') (hg : p.lossless s) (hu : s.Unstranded) :
    (s.apply op).Unstranded := by
  intro id hdone
  cases h.session hop id with
  | elsewhere hp hs hp' =>
    rw [hs.settleState] at hdone
    rw [hs.credit]
    exact hu id hdone
  | settleOpening | settleTopUp | readNothing | readCredit | refund | refundFailed =>
    exact hu id hdone
  | markMetered o payer transaction hid =>
    subst hid
    rw [Node.lease_apply_lease hop, Lease.settleState_apply] at hdone
    cases hdone
  | addCredit p hid =>
    subst hid
    rw [Node.lease_apply_lease hop, Lease.settleState_apply] at hdone
    exact absurd hdone (by simpa [Pc.lossless] using hg)
  | burn now m hp' =>
    rw [Node.lease_apply_lease hop, Lease.settleState_apply] at hdone
    rw [Node.credit, Node.lease_apply_lease hop]
    have hm : s.Metered id := hk
    exact Lease.credit_burn (hs.lease id _ hm.leases_eq) (hu id hdone) now
  | markSettled owed transaction e =>
    have hm : s.Metered id := hk.2
    obtain ⟨g, hg'⟩ := Option.ne_none_iff_exists'.1 hm.lease
    simp [Node.credit, Node.lease_apply_lease hop, Lease.credit, Lease.ledger_apply, hg',
      hs.settleState hm]

end Account

section Lossless

variable {cfg : NodeConfig} {c : Machine.Config Node Pc}

/-- **The books balance** in every state of a lossless run. -/
theorem balance_eq (h : (nodeSystem cfg).Reach Lossless c) (id : LeaseId) :
    c.shared.balance id + Machine.weigh (Pc.carried id) c.threads = 0 := by
  have := Machine.account_eq (M := node cfg) (m := fun s => s.balance id) (f := Pc.carried id)
    (σ := Node.initial) (C := Lossless) ?_ ?_ ?_ h
  · simpa [Node.initial, Node.balance, Node.burned, Node.credit, Node.lease, Lease.burned,
      Lease.credit, Lease.provisioning] using this
  · intro r
    cases r <;> rfl
  · intro s e
    cases e <;> rfl
  · intro c i out p op p' hc hp hg ha
    have hop := allowed_of_reach hc hp ha
    refine balance_step (sound_of_reach hc) (knows_of_reach hc hp) hop
      ((moneyStep_of_act ha).session hop id) fun owed transaction e heq => ?_
    subst heq
    simpa [Pc.lossless] using hg.run hp

theorem unstranded_of_reach (h : (nodeSystem cfg).Reach Lossless c) : c.shared.Unstranded := by
  refine Machine.shared_of_reach (M := node cfg) (fun id hdone => by cases hdone)
    (fun s e hu => by cases e <;> exact hu) (fun c i out p op p' hc hp hg ha hu => ?_) h
  exact unstranded_step (sound_of_reach hc) (knows_of_reach hc hp) (allowed_of_reach hc hp ha)
    (moneyStep_of_act ha) (hg.run hp) hu

end Lossless

/-- Every tinybar settled for a session is counted once: as burned, as owed, or as refunded. -/
structure Node.Counted (s : Node) (id : LeaseId) : Prop where
  total : s.settled id = s.burned id + s.owed id + (s.refunds id).sum
  unstranded : (s.lease id).settleState = .done → s.credit id = 0

/-- A lease without a settle state has no credit. -/
theorem Node.Sound.owed_eq {s : Node} (hs : s.Sound) (hu : s.Unstranded) (id : LeaseId) :
    s.owed id = s.credit id := by
  rw [Node.owed]
  split_ifs with hp
  · rfl
  · cases hst : (s.lease id).settleState with
    | pending => exact absurd hst hp
    | done => exact (hu id hst).symm
    | notApplicable =>
      have hm : ¬ s.Metered id := fun hm => hs.settleState hm hst
      cases hl : s.leases id with
      | none => simp [Node.credit, Node.lease, hl, Lease.credit, Lease.provisioning]
      | some l =>
        have hn : l.ledger = none := by
          by_contra hn
          exact hm ⟨l, hl, hn⟩
        simp [Node.credit, Node.lease_eq hl, Lease.credit, hn]

/-- **No settled payment is lost** in a lossless run: once no handler is in flight, every tinybar
is counted. -/
theorem counted_of_lossless {cfg : NodeConfig} {c : Machine.Config Node Pc}
    (h : (nodeSystem cfg).Reach Lossless c) (hd : ∀ p ∈ c.threads, p.isDone) (id : LeaseId) :
    c.shared.Counted id := by
  have hu := unstranded_of_reach h
  refine ⟨?_, hu id⟩
  have hzero : Machine.weigh (Pc.carried id) c.threads = 0 := by
    refine Machine.weigh_eq_zero fun p hp => Pc.carried_eq_zero (Pc.carries_of_idle ?_ id)
    have := hd p hp
    cases p <;> first | rfl | cases this
  have hbal := balance_eq h id
  rw [hzero, Node.balance] at hbal
  rw [(sound_of_reach h).owed_eq hu id]
  omega

/-- The opening chunk comes back whole. -/
theorem counted_stopSession :
    ∃ c, (nodeSystem .small).Reach Lossless c ∧ c.shared.refunds 0 = [60] ∧ c.shared.Counted 0 := by
  obtain ⟨c, hc, hp⟩ := System.exists_reach (S := nodeSystem .small) (C := Lossless)
    (p := fun c => c.threads.all Pc.isDone && decide (c.shared.refunds 0 = [60])) stopSession
    (by decide +kernel)
  simp only [Bool.and_eq_true, List.all_eq_true, decide_eq_true_eq] at hp
  exact ⟨c, hc, hp.2, counted_of_lossless hc hp.1 0⟩

/-- The renter's top-up settles, the session is stopped and its credit transferred, the top-up is
banked, and the session is marked settled. -/
def lostTopUp : List (Machine.Label Outcome Request Event) :=
  openSession ++ .start (.topUp sessionPath "t") :: turns 1 8 ++
    .start (.stop sessionPath "t") :: turns 2 12 ++ turns 1 6 ++ turns 2 3

/-- **A top-up can be lost.**  Of two minutes paid for, one is refunded and the other is nowhere. -/
theorem not_counted :
    ¬ ∀ (cfg : NodeConfig) (c : Machine.Config Node Pc), (nodeSystem cfg).Reachable c →
      (∀ p ∈ c.threads, p.isDone) → ∀ id, c.shared.Counted id := by
  intro h
  obtain ⟨c, hc, hp⟩ := System.exists_reach (S := nodeSystem .small) (C := System.Any)
    (p := fun c => c.threads.all Pc.isDone && decide (c.shared.settled 0 ≠
      c.shared.burned 0 + c.shared.owed 0 + (c.shared.refunds 0).sum)) lostTopUp
    (by decide +kernel)
  simp only [Bool.and_eq_true, List.all_eq_true, decide_eq_true_eq] at hp
  exact hp.2 (h .small c hc hp.1 0).total

/-! ### A session is refunded once -/

/-- The thread stands between the reading of a credit and its `MarkSettled`. -/
def Pc.holds (id : LeaseId) : Pc → Bool
  | .refund j _ _ _ | .markSettled j _ _ _ => decide (j = id)
  | _ => false

/-- The figure it has read. -/
def Pc.figure (id : LeaseId) : Pc → ℤ
  | .refund j _ owed _ | .markSettled j owed _ _ => if j = id then owed else 0
  | _ => 0

/-- No settlement reads the credit of a session while another one holds a figure for it, or once
it is marked settled with credit left; no burn charges a session for which a settlement holds a
figure. -/
def Pc.exclusive (c : Machine.Config Node Pc) : Pc → Bool
  | .readCredit id _ => c.threads.all (fun q => !q.holds id) &&
      decide (c.shared.credit id ≤ 0 ∨ (c.shared.lease id).settleState = .pending)
  | .burn id now _ => decide (((c.shared.lease id).burn now).2.1 ≤ 0) ||
      c.threads.all fun q => decide (q.figure id ≤ 0)
  | _ => true

/-- Every step of the run is exclusive. -/
abbrev Exclusive : NodeGuard := Machine.Guard fun c _ p _ => p.exclusive c

theorem Pc.holds_eq_false {id : LeaseId} {p : Pc} (h : p.carries id = false) :
    p.holds id = false := by
  cases p with
  | refund | markSettled => exact h
  | _ => rfl

section Exclusive

variable {cfg : NodeConfig} {C : NodeGuard} {c : Machine.Config Node Pc} {id : LeaseId}

/-- The session is refunded and not marked settled. -/
def Node.Unmarked (s : Node) (id : LeaseId) : Prop :=
  s.refunds id ≠ [] ∧ (s.lease id).settleState ≠ .done

/-- The thread is about to mark the session settled, after a refund. -/
def Pc.Marks (id : LeaseId) (p : Pc) : Prop :=
  ∃ owed transaction e, p = .markSettled id owed transaction e ∧ 0 < owed

theorem unmarked_step {s : Node} (hs : s.Sound) {p p' : Pc} {op : Op} (hk : p.Knows s)
    (hop : op.Allowed s) (h : SessionStep s id p op p') (hd : (s.apply op).Unmarked id) :
    p'.Marks id ∨ s.Unmarked id ∧ ¬ p.Marks id := by
  obtain ⟨hd, hst⟩ := hd
  cases h with
  | elsewhere hp hs hp' =>
    rw [hs.refunds] at hd
    rw [hs.settleState] at hst
    refine Or.inr ⟨⟨hd, hst⟩, ?_⟩
    rintro ⟨_, _, _, rfl, -⟩
    exact of_decide_eq_false hp rfl
  | settleOpening | settleTopUp | readNothing | readCredit | refundFailed =>
    exact Or.inr ⟨⟨hd, hst⟩, nofun⟩
  | markMetered o payer transaction hid =>
    subst hid
    have hn : ¬ s.Metered o.id := fun hm => hm.lease hk.2.lease
    exact absurd (hs.unrefunded o.id hn) hd
  | addCredit | burn =>
    rw [Node.settleState_lease hop fun l => Lease.settleState_apply l _] at hst
    exact Or.inr ⟨⟨hd, hst⟩, nofun⟩
  | refund payer owed transaction e => exact Or.inl ⟨owed, transaction, e, rfl, hk.2.2⟩
  | markSettled owed transaction e =>
    rw [Node.lease_apply_lease hop, Lease.settleState_apply] at hst
    simp [hs.settleState hk.2] at hst

/-- A session that is refunded and not marked settled is about to be. -/
theorem refund_attended (h : (nodeSystem cfg).Reach C c) (hr : c.shared.Unmarked id) :
    ∃ (i : ℕ) (p : Pc), c.threads[i]? = some p ∧ p.Marks id :=
  Machine.attended (M := node cfg) (σ := Node.initial) (C := C)
    (D := fun s => s.Unmarked id) (W := Pc.Marks id) (fun hd => hd.1 rfl)
    (fun s e hd => by cases e <;> exact hd)
    (fun _ _ _ _ _ _ hc hp _ ha => by
      have hop := allowed_of_reach hc hp ha
      exact unmarked_step (sound_of_reach hc) (knows_of_reach hc hp) hop
        ((moneyStep_of_act ha).session hop id)) h hr

/-- What a settlement knows while it holds a figure. -/
def Pc.Entitled (s : Node) : Pc → Prop
  | .refund id _ owed _ =>
    (s.lease id).settleState = .pending ∧ owed ≤ s.credit id ∧ s.refunds id = []
  | .markSettled id owed _ _ => 0 < owed →
    (s.lease id).settleState = .pending ∧ owed ≤ s.credit id ∧ s.refunds id = [owed]
  | _ => True

theorem Pc.entitled_of_idle {s : Node} {p : Pc} (h : p.idle) : p.Entitled s := by
  cases p with
  | refund | markSettled => cases h
  | _ => trivial

/-- What `Burn` reports is the charge. -/
theorem Lease.burn_charge {l : Lease} {g : Ledger} (h : l.ledger = some g) (now : ℤ) :
    (l.burn now).2.1 = l.chargeAt now g := by
  simp only [Lease.burn, h, Lease.chargeAt]
  split_ifs <;> rfl

/-- **A figure stays covered** over the steps of threads that hold none for its session, if a burn
charges nothing. -/
theorem figure_stays {s : Node} {p p' : Pc} {op : Op} (hk : p.Knows s) (hop : op.Allowed s)
    (h : SessionStep s id p op p') (hm : s.Metered id) (hx : p.holds id = false)
    (hburn : ∀ now m, p = .burn id now m → ((s.lease id).burn now).2.1 ≤ 0) :
    ((s.apply op).lease id).settleState = (s.lease id).settleState ∧
      s.credit id ≤ (s.apply op).credit id ∧ (s.apply op).refunds id = s.refunds id := by
  obtain ⟨g, hg⟩ := Option.ne_none_iff_exists'.1 hm.lease
  cases h with
  | elsewhere hp hs hp' => exact ⟨hs.settleState, hs.credit.ge, hs.refunds⟩
  | settleOpening | settleTopUp | readNothing | readCredit | refundFailed =>
    exact ⟨rfl, le_rfl, rfl⟩
  | markMetered o payer transaction hid =>
    subst hid
    exact absurd hk.2.lease hm.lease
  | addCredit p hid =>
    subst hid
    have hc : (s.lease p.id).credit ≤ ((s.lease p.id).apply (.addCredit p.amount)).credit := by
      simp [Lease.credit, Lease.ledger_apply, hg, Ledger.pay, hk.2]
    rw [Node.credit, Node.credit, Node.lease_apply_lease hop]
    exact ⟨Lease.settleState_apply _ _, hc, rfl⟩
  | burn now m hp' =>
    have hcharge := hburn now m rfl
    rw [Lease.burn_charge hg] at hcharge
    have hc : (s.lease id).credit ≤ ((s.lease id).apply (.burn now)).credit := by
      simp only [Lease.credit, Lease.ledger_apply, hg, Option.map_some, Option.getD_some,
        Ledger.spend]
      omega
    rw [Node.credit, Node.credit, Node.lease_apply_lease hop]
    exact ⟨Lease.settleState_apply _ _, hc, rfl⟩
  | refund | markSettled => simp [Pc.holds] at hx

theorem Pc.Entitled.stays {s s' : Node} {q : Pc} (hq : q.Entitled s) (hk : q.Knows s)
    (h : ∀ id, q.holds id → 0 < q.figure id → s.Metered id →
      (s'.lease id).settleState = (s.lease id).settleState ∧ s.credit id ≤ s'.credit id ∧
        s'.refunds id = s.refunds id) : q.Entitled s' := by
  cases q with
  | refund id payer owed e =>
    obtain ⟨hst, hc, hr⟩ := h id (by simp [Pc.holds]) (by simpa [Pc.figure] using hk.2.2) hk.2.1
    exact ⟨hst.trans hq.1, hq.2.1.trans hc, hr.trans hq.2.2⟩
  | markSettled id owed transaction e =>
    intro ho
    obtain ⟨hst, hc, hr⟩ := h id (by simp [Pc.holds]) (by simpa [Pc.figure] using ho) hk.2
    obtain ⟨h1, h2, h3⟩ := hq ho
    exact ⟨hst.trans h1, h2.trans hc, hr.trans h3⟩
  | _ => trivial

/-- A step that starts to hold a figure has found nobody else holding one. -/
theorem holds_step {s : Node} {p p' : Pc} {op : Op} (h : SessionStep s id p op p')
    (hh : p'.holds id) : p.holds id ∨ ∃ e, p = .readCredit id e := by
  cases h with
  | elsewhere _ _ hp' | burn _ _ hp' | refundFailed _ _ _ hp' =>
    rw [Pc.holds_eq_false hp'] at hh
    cases hh
  | readNothing e | readCredit payer e => exact Or.inr ⟨e, rfl⟩
  | refund payer owed transaction e => exact Or.inl hh
  | settleOpening | markMetered | settleTopUp | addCredit | markSettled => cases hh

/-- Exclusive settlements: what each knows, that no two hold figures for one session, and that no
session has two refunds. -/
def exclusiveOutline (cfg : NodeConfig) : Machine.Outline (node cfg) Node.initial Exclusive where
  I s := ∀ id, (s.refunds id).length ≤ 1
  A s p := p.Entitled s
  X p q := ∀ id, p.holds id → q.holds id = false
  init id := by simp [Node.initial]
  symm p q h id hq := by
    by_contra hp
    simp [h id (by simpa using hp)] at hq
  start s r := by cases r <;> trivial
  apart r q id h := by cases r <;> cases h
  envI s e h := by cases e <;> exact h
  envA s e p h := by cases e <;> exact h
  act c i out p op p' hc hp hg hI hA ha := by
    have hop := allowed_of_reach hc hp ha
    have hgp : p.exclusive c := hg.run hp
    show (∀ id, ((c.shared.apply op).refunds id).length ≤ 1) ∧ p'.Entitled (c.shared.apply op)
    cases moneyStep_of_act ha with
    | idle hp hi hp' =>
      exact ⟨fun id => by rw [(Node.sameMoney_idle hop hi id).refunds]; exact hI id,
        Pc.entitled_of_idle hp'⟩
    | settleOpening | markMetered | settleTopUp | addCredit | markSettled => exact ⟨hI, trivial⟩
    | burn j now m hp' => exact ⟨hI, Pc.entitled_of_idle hp'⟩
    | refundFailed j payer owed e hp' => exact ⟨hI, Pc.entitled_of_idle hp'⟩
    | readNothing j e hc0 => exact ⟨hI, fun h => absurd h (not_lt.2 hc0)⟩
    | readCredit j payer e hpos =>
      simp only [Pc.exclusive, Bool.and_eq_true, List.all_eq_true, Bool.not_eq_true',
        decide_eq_true_eq] at hgp
      obtain ⟨hall, hpend⟩ := hgp
      have hpend : (c.shared.lease j).settleState = .pending := hpend.resolve_left (not_le.2 hpos)
      refine ⟨hI, hpend, le_rfl, ?_⟩
      by_contra hr
      obtain ⟨i', _, hq, owed, transaction, e', rfl, -⟩ :=
        refund_attended hc ⟨hr, by simp [hpend]⟩
      simpa [Pc.holds] using hall _ (List.mem_of_getElem? hq)
    | refund j payer owed transaction e =>
      obtain ⟨hpend, hle, hnil⟩ := hA
      refine ⟨fun id => ?_, fun _ => ⟨hpend, hle, by simp [Node.refunds_apply, hnil]⟩⟩
      rw [Node.refunds_apply]
      dsimp only
      split_ifs with hj
      · simp [hj, hnil]
      · exact hI id
  free c i j out p q op p' hij hc hp hq hg hI hA hAq hx ha := by
    have hk := knows_of_reach hc hp
    have hop := allowed_of_reach hc hp ha
    have hgp : p.exclusive c := hg.run hp
    have hstep := (moneyStep_of_act ha).session hop
    have hqmem := List.mem_of_getElem? hq
    refine ⟨hAq.stays (knows_of_reach hc hq) fun id hh hf hm => ?_, fun id hh => ?_⟩
    · have hph : p.holds id = false := by
        by_contra hph
        rw [hx id (by simpa using hph)] at hh
        cases hh
      refine figure_stays hk hop (hstep id) hm hph fun now m heq => ?_
      subst heq
      simp only [Pc.exclusive, Bool.or_eq_true, decide_eq_true_eq, List.all_eq_true] at hgp
      exact hgp.resolve_right fun hall => absurd (hall q hqmem) (not_le.2 hf)
    · rcases holds_step (hstep id) hh with hph | ⟨e, rfl⟩
      · exact hx id hph
      · simp only [Pc.exclusive, Bool.and_eq_true, List.all_eq_true, Bool.not_eq_true'] at hgp
        exact hgp.1 q hqmem

/-- What is left of the settled payments, once a session marked settled has its refunds taken. -/
def Node.remainder (s : Node) (id : LeaseId) : ℤ :=
  s.settled id - s.burned id - s.credit id -
    if (s.lease id).settleState = .done then (s.refunds id).sum else 0

/-- Until a session is marked settled, its credit covers what has been refunded. -/
theorem refunds_le_credit (id : LeaseId) (h : (nodeSystem cfg).Reach Exclusive c)
    (hst : (c.shared.lease id).settleState ≠ .done) :
    (c.shared.refunds id).sum ≤ c.shared.credit id := by
  by_cases hr : c.shared.refunds id = []
  · simpa [hr] using (sound_of_reach h).credit_nonneg id
  · obtain ⟨i, _, hp, owed, transaction, e, rfl, ho⟩ := refund_attended h ⟨hr, hst⟩
    obtain ⟨-, hle, heq⟩ := ((exclusiveOutline cfg).holds h).annot i _ hp ho
    simpa [heq] using hle

/-- A step that keeps the settle state and the refunds keeps the remainder with the balance. -/
theorem remainder_of_balance {s s' : Node} {p p' : Pc}
    (hb : s'.balance id + p'.carried id = s.balance id + p.carried id)
    (hpaid : p.paidOut id = 0) (hpaid' : p'.paidOut id = 0)
    (hst : (s'.lease id).settleState = .done ↔ (s.lease id).settleState = .done)
    (hr : s'.refunds id = s.refunds id) :
    s.remainder id + -p.inFlight id ≤ s'.remainder id + -p'.inFlight id := by
  rw [Pc.carried, Pc.carried, hpaid, hpaid', Node.balance, Node.balance, hr] at hb
  simp only [Node.remainder, hst, hr]
  split_ifs <;> omega

/-- A refund of a session that is not marked settled does not take from it. -/
theorem remainder_refund {s : Node} (h : (s.lease id).settleState = .pending) (owed : ℤ) :
    (s.apply (.refund id owed)).remainder id = s.remainder id := by
  show s.settled id - s.burned id - s.credit id - (if (s.lease id).settleState = .done then
    ((s.apply (.refund id owed)).refunds id).sum else 0) = _
  simp [Node.remainder, h]

/-- Marking a session settled takes its credit out and its refunds in. -/
theorem remainder_markSettled {s : Node} (hs : s.Sound) {owed : ℤ}
    (hop : (Op.lease id (.markSettled owed)).Allowed s) (hm : s.Metered id)
    (hcov : (s.lease id).settleState ≠ .done → (s.refunds id).sum ≤ s.credit id) :
    s.remainder id ≤ (s.apply (.lease id (.markSettled owed))).remainder id := by
  obtain ⟨g, hg⟩ := Option.ne_none_iff_exists'.1 hm.lease
  have hcredit := hs.credit_nonneg id
  have hst := hs.settleState hm
  have hdone : ((s.apply (.lease id (.markSettled owed))).lease id).settleState = .done := by
    simp [Node.lease_apply_lease hop, Lease.settleState_apply, hst]
  have hcredit' : (s.apply (.lease id (.markSettled owed))).credit id = 0 := by
    simp [Node.credit, Node.lease_apply_lease hop, Lease.credit, Lease.ledger_apply, hg, hst]
  have hburned' : (s.apply (.lease id (.markSettled owed))).burned id = s.burned id := by
    simp [Node.burned, Node.lease_apply_lease hop, Lease.burned, Lease.ledger_apply, hg, hst]
  rw [Node.remainder, Node.remainder, hcredit', hburned', if_pos hdone]
  show _ ≤ s.settled id - _ - _ - (s.refunds id).sum
  split_ifs with hd
  · omega
  · have := hcov hd
    omega

/-- **The remainder does not fall** over an exclusive step. -/
theorem remainder_step (hc : (nodeSystem cfg).Reach Exclusive c) {i : ℕ} {p p' : Pc} {op : Op}
    (hp : c.threads[i]? = some p) (hop : op.Allowed c.shared)
    (h : SessionStep c.shared id p op p') :
    c.shared.remainder id + -p.inFlight id ≤
      (c.shared.apply op).remainder id + -p'.inFlight id := by
  have hs := sound_of_reach hc
  have hk := knows_of_reach hc hp
  have hbal := balance_step hs hk hop h
  cases h with
  | elsewhere hp hs hp' =>
    have hb := hbal (by rintro _ _ _ rfl; exact absurd rfl (of_decide_eq_false hp))
    exact remainder_of_balance hb (Pc.paidOut_eq_zero hp) (Pc.paidOut_eq_zero hp')
      (by rw [hs.settleState]) hs.refunds
  | settleOpening | settleTopUp =>
    exact remainder_of_balance (hbal (by simp)) rfl rfl Iff.rfl rfl
  | markMetered o payer transaction hid =>
    subst hid
    refine remainder_of_balance (hbal (by simp)) rfl rfl ?_ rfl
    have hn := ((hs.lease _ _ hk.2.leases_eq).unmetered hk.2.lease).1
    rw [Node.lease_apply_lease hop, Lease.settleState_apply, hn]
    simp
  | addCredit p =>
    refine remainder_of_balance (hbal (by simp)) rfl rfl ?_ rfl
    rw [Node.settleState_lease hop fun l => Lease.settleState_apply l _]
  | burn now m hp' =>
    refine remainder_of_balance (hbal (by simp)) rfl (Pc.paidOut_eq_zero hp') ?_ rfl
    rw [Node.settleState_lease hop fun l => Lease.settleState_apply l _]
  | readNothing e | readCredit payer e => exact le_rfl
  | refundFailed payer owed e hp' =>
    rw [Pc.inFlight_eq_zero hp']
    exact le_rfl
  | refund payer owed transaction e =>
    have hA : (Pc.refund id payer owed e).Entitled c.shared :=
      ((exclusiveOutline cfg).holds hc).annot i _ hp
    exact Int.add_le_add_right (remainder_refund hA.1 owed).ge _
  | markSettled owed transaction e =>
    exact Int.add_le_add_right
      (remainder_markSettled hs hop hk.2 (refunds_le_credit id hc)) _

/-- **A session is refunded at most once** in an exclusive run, and never more than was paid for it
and not burned. -/
theorem refunds_le_of_exclusive (h : (nodeSystem cfg).Reach Exclusive c) (id : LeaseId) :
    (c.shared.refunds id).length ≤ 1 ∧
      (c.shared.refunds id).sum ≤ c.shared.settled id - c.shared.burned id := by
  have hs := sound_of_reach h
  have hcredit := hs.credit_nonneg id
  refine ⟨((exclusiveOutline cfg).holds h).shared id, ?_⟩
  have hrem := Machine.account_le (M := node cfg) (m := fun s => s.remainder id)
    (f := fun p => -p.inFlight id) (σ := Node.initial) (C := Exclusive) (k := 0)
    (by simp [Node.initial, Node.remainder, Node.burned, Node.credit, Node.lease, Lease.burned,
      Lease.credit, Lease.provisioning])
    (fun r => by cases r <;> exact le_rfl) (fun s e => by cases e <;> exact le_rfl)
    (fun _ _ _ _ _ _ hc hp _ ha => by
      have hop := allowed_of_reach hc hp ha
      exact remainder_step hc hp hop ((moneyStep_of_act ha).session hop id)) h
  have hflight : Machine.weigh (fun p => -p.inFlight id) c.threads ≤ 0 :=
    Machine.weigh_nonpos fun i p hp => neg_nonpos.2 (knows_of_reach h hp).inFlight_nonneg
  have hle : 0 ≤ c.shared.remainder id := by omega
  have hcov := refunds_le_credit id h
  rw [Node.remainder] at hle
  split_ifs at hle with hdone
  · omega
  · have := hcov hdone
    omega

end Exclusive

/-- The renter stops once. -/
theorem refunds_le_stopSession :
    ∃ c, (nodeSystem .small).Reach Exclusive c ∧ (c.shared.refunds 0).length = 1 ∧
      (c.shared.refunds 0).sum ≤ c.shared.settled 0 - c.shared.burned 0 := by
  obtain ⟨c, hc, hp⟩ := System.exists_reach (S := nodeSystem .small) (C := Exclusive)
    (p := fun c => decide ((c.shared.refunds 0).length = 1)) stopSession (by decide +kernel)
  exact ⟨c, hc, of_decide_eq_true hp, (refunds_le_of_exclusive hc 0).2⟩

/-- Two requests stop the session, and both settle it before either has marked it settled. -/
def stopTwice : List (Machine.Label Outcome Request Event) :=
  openSession ++ .start (.stop sessionPath "t") :: .start (.stop sessionPath "t") ::
    turns 1 2 ++ turns 2 2 ++ turns 1 9 ++ turns 2 5 ++ turns 1 4 ++ turns 2 4

/-- **A session can be refunded twice.**  One minute is paid for and two are refunded. -/
theorem not_refunds_le :
    ¬ ∀ (cfg : NodeConfig) (c : Machine.Config Node Pc), (nodeSystem cfg).Reachable c → ∀ id,
      (c.shared.refunds id).length ≤ 1 ∧
        (c.shared.refunds id).sum ≤ c.shared.settled id - c.shared.burned id := by
  intro h
  obtain ⟨c, hc, hp⟩ := System.exists_reach (S := nodeSystem .small) (C := System.Any)
    (p := fun c => c.threads.all Pc.isDone && decide (c.shared.refunds 0 = [60, 60])) stopTwice
    (by decide +kernel)
  simp only [Bool.and_eq_true, decide_eq_true_eq] at hp
  have hlen := (h .small c hc 0).1
  rw [hp.2] at hlen
  exact absurd hlen (by decide)

end Mach402
