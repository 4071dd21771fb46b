import Mach402.Agent.Node

/-!
# What holds of a node

The structure that all later results stand on: the shared state is sound, and every thread knows
what its handler has established so far about the lease it works on.  What it knows survives the
steps of the other threads, because nothing takes a lease, its ledger or its end away, and the
one thread that opens a lease is the only one to claim and to meter it.

* `Node.Sound`, `Pc.Knows`, `Pc.opener`: the annotation;
* `Node.Later`: what the steps of others leave standing;
* `nodeOutline`: the annotation is an outline, so it holds in every reachable state
  (`sound_of_reach`, `knows_of_reach`, `opener_unique`).
-/

namespace Mach402
namespace Node

/-! ### Facts about leases -/

/-- The lease exists, and `P` holds of it. -/
def Has (s : Node) (P : Lease → Prop) (id : LeaseId) : Prop := ∃ l, s.leases id = some l ∧ P l

/-- The id is taken, but not by a lease yet. -/
def Absent (s : Node) (id : LeaseId) : Prop := s.leases id = none ∧ id < s.nextLease

/-- The lease exists. -/
abbrev Present (s : Node) : LeaseId → Prop := s.Has fun _ => True

/-- The opening chunk has not been banked. -/
abbrev Unmetered (s : Node) : LeaseId → Prop := s.Has fun l => l.ledger = none

/-- The opening chunk has been banked. -/
abbrev Metered (s : Node) : LeaseId → Prop := s.Has fun l => l.ledger ≠ none

/-- The lease has ended. -/
abbrev Over (s : Node) : LeaseId → Prop := s.Has fun l => l.status.isTerminal

section Has

variable {s : Node} {P Q : Lease → Prop} {id : LeaseId} {l : Lease}

theorem lease_eq (h : s.leases id = some l) : s.lease id = l := by simp [lease, h]

theorem Has.of_lease (h : s.Has P id) (hq : P (s.lease id) → Q (s.lease id)) : s.Has Q id := by
  obtain ⟨l, hl, hp⟩ := h
  rw [lease_eq hl] at hq
  exact ⟨l, hl, hq hp⟩

theorem Has.present (h : s.Has P id) : s.Present id := h.of_lease fun _ => trivial

theorem Has.lease (h : s.Has P id) : P (s.lease id) := by
  obtain ⟨l, hl, hp⟩ := h
  rwa [lease_eq hl]

theorem Has.leases_eq (h : s.Has P id) : s.leases id = some (s.lease id) := by
  obtain ⟨l, hl, -⟩ := h
  rw [lease_eq hl, hl]

end Has

/-- The shared state is sound. -/
structure Sound (s : Node) : Prop where
  lease : ∀ id l, s.leases id = some l → l.Sound
  fresh : ∀ id l, s.leases id = some l → id < s.nextLease
  /-- A lease that is not over has the slot. -/
  slot : ∀ id l, s.leases id = some l → ¬ l.status.isTerminal → s.activeLease = some id
  active : ∀ id, s.activeLease = some id → s.Present id
  /-- Nothing is settled for a lease that does not exist. -/
  unsold : ∀ id, s.leases id = none → s.settled id = 0
  /-- Nothing is refunded for a lease that is not metered. -/
  unrefunded : ∀ id, ¬ s.Metered id → s.refunds id = []

theorem sound_initial : initial.Sound := by
  constructor <;> simp [initial]

/-- **The leases after an operation.** -/
theorem leases_apply (s : Node) (op : Op) (id : LeaseId) :
    (s.apply op).leases id = match op with
      | .lease j lop => if id = j then (s.leases j).map (·.apply lop) else s.leases id
      | .claim j l => if id = j then some l else s.leases id
      | _ => s.leases id := by
  cases op with
  | lease j lop => simp [apply, Function.update_apply]
  | claim j l => simp [apply, Function.update_apply]
  | release j => simp only [apply]; split_ifs <;> rfl
  | _ => rfl

/-- **The slot after an operation.** -/
theorem activeLease_apply (s : Node) (op : Op) :
    (s.apply op).activeLease = match op with
      | .claim j _ => some j
      | .release j => if s.activeLease = some j then none else s.activeLease
      | _ => s.activeLease := by
  cases op with
  | release j => simp only [apply]; split_ifs <;> simp_all
  | _ => rfl

theorem nextLease_apply (s : Node) (op : Op) :
    (s.apply op).nextLease = match op with
      | .mint => s.nextLease + 1
      | _ => s.nextLease := by
  cases op with
  | release j => simp only [apply]; split_ifs <;> rfl
  | _ => rfl

theorem settled_apply (s : Node) (op : Op) (id : LeaseId) :
    (s.apply op).settled id = match op with
      | .settle j a => if id = j then s.settled id + a else s.settled id
      | _ => s.settled id := by
  cases op with
  | settle j a => simp only [apply, Function.update_apply]; split_ifs <;> simp_all
  | release j => simp only [apply]; split_ifs <;> rfl
  | _ => rfl

@[simp] theorem clock_apply (s : Node) (op : Op) : (s.apply op).clock = s.clock := by
  cases op with
  | release j => simp only [apply]; split_ifs <;> rfl
  | _ => rfl

theorem refunds_apply (s : Node) (op : Op) (id : LeaseId) :
    (s.apply op).refunds id = match op with
      | .refund j a => if id = j then s.refunds id ++ [a] else s.refunds id
      | _ => s.refunds id := by
  cases op with
  | refund j a => simp only [apply, Function.update_apply]; split_ifs <;> simp_all
  | release j => simp only [apply]; split_ifs <;> rfl
  | _ => rfl

theorem audit_apply (s : Node) (op : Op) :
    (s.apply op).audit = match op with
      | .publish m => s.audit ++ [m]
      | _ => s.audit := by
  cases op with
  | release j => simp only [apply]; split_ifs <;> rfl
  | _ => rfl

end Node

/-! ### Allowed operations -/

/-- What an operation requires of the state it is applied to. -/
def Op.Allowed (s : Node) : Op → Prop
  | .lease id op => s.Has (fun l => op.Allowed l) id
  | .claim id l => s.Absent id ∧ s.busy = false ∧ ∃ token e m, l = .provisioning token e m
  | .release id => s.Over id
  | .settle id _ => s.Present id
  | .refund id _ => s.Metered id
  | _ => True

/-- The lease an operation brings into being or meters. -/
def Op.opens : Op → Option LeaseId
  | .lease id (.markMetered ..) => some id
  | .claim id _ => some id
  | _ => none

namespace Node

/-- What one thread's step, which opens `mine` if anything, leaves standing for the others. -/
structure Later (mine : Option LeaseId) (s s' : Node) : Prop where
  next : s.nextLease ≤ s'.nextLease
  has : ∀ (P : Lease → Prop), (∀ l op, P l → P (l.apply op)) → ∀ id, s.Has P id → s'.Has P id
  absent : ∀ id, mine ≠ some id → s.Absent id → s'.Absent id
  unmetered : ∀ id, mine ≠ some id → s.Unmetered id → s'.Unmetered id

namespace Later

variable {mine : Option LeaseId} {s s' : Node} {id : LeaseId}

theorem present (h : Later mine s s') (hp : s.Present id) : s'.Present id :=
  h.has _ (fun _ _ _ => trivial) id hp

theorem metered (h : Later mine s s') (hp : s.Metered id) : s'.Metered id :=
  h.has _ (fun _ op hl => Lease.ledger_apply_ne_none hl op) id hp

theorem ended (h : Later mine s s') (hp : s.Over id) : s'.Over id :=
  h.has _ (fun _ op hl => Lease.isTerminal_apply hl op) id hp

end Later

/-- What an operation does to a lease that exists. -/
theorem leases_apply_some {s : Node} {op : Op} (hop : op.Allowed s) {id : LeaseId} {l : Lease}
    (h : s.leases id = some l) :
    (s.apply op).leases id = some l ∨
      ∃ lop, op = .lease id lop ∧ (s.apply op).leases id = some (l.apply lop) := by
  rw [leases_apply]
  cases op with
  | lease j lop =>
    by_cases hj : id = j
    · subst hj
      exact Or.inr ⟨lop, rfl, by simp [h]⟩
    · exact Or.inl (by simp [hj, h])
  | claim j l' =>
    have hj : id ≠ j := by
      rintro rfl
      exact absurd hop.1.1 (by simp [h])
    exact Or.inl (by simp [hj, h])
  | _ => exact Or.inl h

/-- Where a lease after an operation comes from. -/
theorem leases_apply_cases {s : Node} {op : Op} {id : LeaseId} {l : Lease}
    (h : (s.apply op).leases id = some l) :
    s.leases id = some l ∨ op = .claim id l ∨
      ∃ lop l₀, op = .lease id lop ∧ s.leases id = some l₀ ∧ l = l₀.apply lop := by
  rw [leases_apply] at h
  cases op with
  | lease j lop =>
    by_cases hj : id = j
    · subst hj
      simp only [if_true, Option.map_eq_some_iff] at h
      obtain ⟨l₀, hl₀, rfl⟩ := h
      exact Or.inr (Or.inr ⟨lop, l₀, rfl, hl₀, rfl⟩)
    · exact Or.inl (by simpa [hj] using h)
  | claim j l' =>
    by_cases hj : id = j
    · subst hj
      simp only [if_true, Option.some.injEq] at h
      exact Or.inr (Or.inl (by rw [h]))
    · exact Or.inl (by simpa [hj] using h)
  | _ => exact Or.inl h

/-- **An allowed operation disturbs nothing but what it opens.** -/
theorem later_apply {s : Node} {op : Op} (hop : op.Allowed s) : Later op.opens s (s.apply op) where
  next := by
    rw [nextLease_apply]
    cases op with
    | mint => exact Nat.le_succ _
    | _ => exact le_rfl
  has P hP id := by
    rintro ⟨l, hl, hp⟩
    rcases leases_apply_some hop hl with h | ⟨lop, -, h⟩
    · exact ⟨l, h, hp⟩
    · exact ⟨_, h, hP l lop hp⟩
  absent id hid := by
    rintro ⟨hn, hlt⟩
    refine ⟨?_, hlt.trans_le ?_⟩
    · rw [leases_apply]
      cases op with
      | lease j lop => dsimp only; split_ifs with hj <;> simp_all
      | claim j l => exact (if_neg fun hj => hid (by rw [hj]; rfl)).trans hn
      | _ => exact hn
    · rw [nextLease_apply]
      cases op with
      | mint => exact Nat.le_succ _
      | _ => exact le_rfl
  unmetered id hid := by
    rintro ⟨l, hl, hn⟩
    rcases leases_apply_some hop hl with h | ⟨lop, rfl, h⟩
    · exact ⟨l, h, hn⟩
    · refine ⟨_, h, Lease.ledger_apply_eq_none hn ?_⟩
      rintro now s' y p c rfl
      exact hid rfl

/-- The slot of a node that is not busy is free, or its lease is over. -/
theorem over_of_not_busy {s : Node} (hs : s.Sound) (h : s.busy = false) {id : LeaseId}
    (ha : s.activeLease = some id) : s.Over id := by
  obtain ⟨l, hl, -⟩ := hs.active id ha
  exact ⟨l, hl, by simpa [busy, ha, lease_eq hl] using h⟩

/-- **An allowed operation keeps a node sound.** -/
theorem Sound.apply {s : Node} (hs : s.Sound) {op : Op} (hop : op.Allowed s) :
    (s.apply op).Sound where
  lease id l h := by
    rcases leases_apply_cases h with h₀ | rfl | ⟨lop, l₀, rfl, h₀, rfl⟩
    · exact hs.lease id l h₀
    · obtain ⟨-, -, token, e, m, rfl⟩ := hop
      exact Lease.sound_provisioning token e m
    · obtain ⟨l, hl, hlop⟩ := hop
      rw [h₀, Option.some.injEq] at hl
      subst hl
      exact (hs.lease id l₀ h₀).apply hlop
  fresh id l h := by
    refine lt_of_lt_of_le ?_ (later_apply hop).next
    rcases leases_apply_cases h with h₀ | rfl | ⟨lop, l₀, rfl, h₀, rfl⟩
    · exact hs.fresh id l h₀
    · exact hop.1.2
    · exact hs.fresh id l₀ h₀
  slot id l h hl := by
    rw [activeLease_apply]
    have hlive : ∀ l₀, s.leases id = some l₀ → ¬ l₀.status.isTerminal →
        s.activeLease = some id := fun l₀ h₀ => hs.slot id l₀ h₀
    rcases leases_apply_cases h with h₀ | rfl | ⟨lop, l₀, rfl, h₀, rfl⟩
    · have ha := hlive l h₀ hl
      cases op with
      | claim j l' =>
        -- the claimed slot was free or its lease over, so no lease was live
        obtain ⟨l₁, h₁, ho⟩ := over_of_not_busy hs hop.2.1 ha
        rw [h₀, Option.some.injEq] at h₁
        exact absurd (h₁ ▸ ho) hl
      | release j =>
        obtain ⟨l₁, h₁, ho⟩ := hop
        have hj : id ≠ j := by
          rintro rfl
          rw [h₀, Option.some.injEq] at h₁
          exact hl (h₁ ▸ ho)
        simp [ha, hj]
      | _ => exact ha
    · rfl
    · exact hlive l₀ h₀ fun ho => hl (Lease.isTerminal_apply ho lop)
  active id h := by
    rw [activeLease_apply] at h
    cases op with
    | claim j l =>
      cases h
      exact ⟨l, by simp [leases_apply], trivial⟩
    | release j =>
      dsimp only at h
      split_ifs at h
      exact (later_apply hop).present (hs.active id h)
    | _ => exact (later_apply hop).present (hs.active id h)
  unsold id h := by
    have hn : s.leases id = none := by
      by_contra hne
      obtain ⟨l, hl⟩ := Option.ne_none_iff_exists'.1 hne
      obtain ⟨l', hl', -⟩ := (later_apply hop).present ⟨l, hl, trivial⟩
      simp [hl'] at h
    rw [settled_apply]
    cases op with
    | settle j a =>
      have hj : id ≠ j := by rintro rfl; obtain ⟨l, hl, -⟩ := hop; simp [hl] at hn
      simpa [hj] using hs.unsold id hn
    | _ => exact hs.unsold id hn
  unrefunded id h := by
    have hn : ¬ s.Metered id := fun hm => h ((later_apply hop).metered hm)
    rw [refunds_apply]
    cases op with
    | refund j a =>
      have hj : id ≠ j := by rintro rfl; exact hn hop
      simpa [hj] using hs.unrefunded id hn
    | _ => exact hs.unrefunded id hn

end Node

/-! ### What a thread knows -/

/-- The chunk has a length, and the session an id. -/
structure Opening.Sound (o : Opening) : Prop where
  chunk : 0 < o.chunk
  sessionID : o.sessionID ≠ ""

theorem Opening.Sound.amount {o : Opening} (h : o.Sound) : 0 ≤ o.amount :=
  mul_nonneg (Int.natCast_nonneg _) h.chunk.le

/-- Only an opening that failed is torn down without a settlement. -/
def After.Knows (s : Node) (id : LeaseId) : After → Prop
  | .settle _ => s.Present id
  | .abort _ | .refuse _ => s.Unmetered id

/-- **What a thread knows** at each program point. -/
def Pc.Knows (s : Node) : Pc → Prop
  | .validateSpec _ chunk | .accepting _ chunk | .collectPayment _ chunk _ | .mint _ chunk _ =>
    0 < chunk
  | .startLease o | .claimSlot o _ => o.Sound ∧ s.Absent o.id
  | .provision o | .awaitJupyter o | .failLease o _ | .activate o | .sign o | .pointAt o
  | .reachable o | .settleOpening o | .markMetered o _ _ => o.Sound ∧ s.Unmetered o.id
  | .setLength o _ _ => s.Metered o.id
  | .recordLease p | .recordDuration p | .recordPayment p _ | .respond p | .topUpPaused p
  | .resume p | .unpause p => s.Metered p.id
  | .addCredit p => s.Metered p.id ∧ 0 ≤ p.amount
  | .topUpStatus id | .topUpLength id | .stopStatus id | .readClock id _ | .burn id _ _
  | .tickElapsed id _ | .tickPublish id _ _ => s.Metered id
  | .topUpUnpaid id price => s.Metered id ∧ 0 ≤ price
  | .topUpCap id price chunk | .topUpCollect id price chunk | .settleTopUp id price chunk =>
    s.Metered id ∧ 0 ≤ price ∧ 0 ≤ chunk
  | .checkToken id _ _ _ | .endStatus id | .endMeter id | .sweepStatus id | .sweepMeter id
  | .sweepSwitch id | .sweepFullyPaid id | .sweepRemaining id | .sweepOverdue id | .pause id
  | .pauseContainer id | .sweepPaused id | .respondState id => s.Present id
  | .stopLease id status k => status.isTerminal ∧ k.Knows s id
  | .reap id k | .release id k => s.Over id ∧ k.Knows s id
  | .clear id _ | .settleSession id _ => s.Over id
  | .readCredit id _ | .markSettled id _ _ _ | .recordSettlement id _ _ _ =>
    s.Over id ∧ s.Metered id
  | .refund id _ owed _ => s.Over id ∧ s.Metered id ∧ 0 < owed
  | .create _ | .authorize .. | .endLease | .sweep | .done _ => True

/-- The lease a thread is opening. -/
def After.opener (id : LeaseId) : After → Option LeaseId
  | .settle _ => none
  | .abort _ | .refuse _ => some id

/-- The lease a thread is opening. -/
def Pc.opener : Pc → Option LeaseId
  | .startLease o | .claimSlot o _ | .provision o | .awaitJupyter o | .failLease o _
  | .activate o | .sign o | .pointAt o | .reachable o | .settleOpening o | .markMetered o _ _ =>
    some o.id
  | .stopLease id _ k | .reap id k | .release id k => k.opener id
  | _ => none

section Knows

variable {s s' : Node} {mine : Option LeaseId}

theorem After.Knows.later {k : After} {id : LeaseId} (h : k.Knows s id)
    (hl : Node.Later mine s s') (hk : ∀ id', k.opener id = some id' → mine ≠ some id') :
    k.Knows s' id := by
  cases k with
  | settle e => exact hl.present h
  | abort r => exact hl.unmetered id (hk id rfl) h
  | refuse r => exact hl.unmetered id (hk id rfl) h

/-- **Knowledge survives** the steps of threads that open other leases. -/
theorem Pc.Knows.later {q : Pc} (h : q.Knows s) (hl : Node.Later mine s s')
    (hq : ∀ id, q.opener = some id → mine ≠ some id) : q.Knows s' := by
  cases q with
  | validateSpec | accepting | collectPayment | mint => exact h
  | startLease o | claimSlot o => exact ⟨h.1, hl.absent o.id (hq o.id rfl) h.2⟩
  | provision o | awaitJupyter o | failLease o | activate o | sign o | pointAt o | reachable o
  | settleOpening o | markMetered o => exact ⟨h.1, hl.unmetered o.id (hq o.id rfl) h.2⟩
  | setLength | recordLease | recordDuration | recordPayment | respond | topUpPaused | resume
  | unpause | topUpStatus | topUpLength | stopStatus | readClock | burn | tickElapsed
  | tickPublish => exact hl.metered h
  | addCredit | topUpUnpaid | topUpCap | topUpCollect | settleTopUp =>
    exact ⟨hl.metered h.1, h.2⟩
  | checkToken | endStatus | endMeter | sweepStatus | sweepMeter | sweepSwitch | sweepFullyPaid
  | sweepRemaining | sweepOverdue | pause | pauseContainer | sweepPaused | respondState =>
    exact hl.present h
  | stopLease id status k => exact ⟨h.1, h.2.later hl hq⟩
  | reap id k | release id k => exact ⟨hl.ended h.1, h.2.later hl hq⟩
  | clear | settleSession => exact hl.ended h
  | readCredit | markSettled | recordSettlement => exact ⟨hl.ended h.1, hl.metered h.2⟩
  | refund => exact ⟨hl.ended h.1, hl.metered h.2.1, h.2.2⟩
  | create | authorize | endLease | sweep | done => trivial

theorem After.Knows.present {k : After} {id : LeaseId} (h : k.Knows s id) : s.Present id := by
  cases k with
  | settle e => exact h
  | abort r | refuse r => exact Node.Has.present h

/-- An id that is being opened is taken. -/
theorem Pc.Knows.lt_nextLease {q : Pc} (h : q.Knows s) (hs : s.Sound) {id : LeaseId}
    (hq : q.opener = some id) : id < s.nextLease := by
  have hlt : ∀ j, s.Present j → j < s.nextLease := fun j ⟨l, hl, _⟩ => hs.fresh j l hl
  have hafter : ∀ (j : LeaseId) (k : After), k.Knows s j → k.opener j = some id → j = id := by
    intro j k _ hk
    cases k <;> simp_all [After.opener]
  cases q with
  | startLease o | claimSlot o => cases hq; exact h.2.2
  | provision o | awaitJupyter o | failLease o | activate o | sign o | pointAt o | reachable o
  | settleOpening o | markMetered o => cases hq; exact hlt _ h.2.present
  | stopLease j status k | reap j k | release j k =>
    obtain rfl := hafter j k h.2 hq
    exact hlt _ h.2.present
  | _ => cases hq

end Knows

/-! ### Where the calls return to -/

/-- A point that `Burn`, `StopLease`, `tunnel.Clear` or `settleSession` returns to. -/
def Pc.returned : Pc → Bool
  | .tickElapsed .. | .stopLease .. | .clear .. | .settleSession .. | .respondState _ | .done _ =>
    true
  | _ => false

@[simp] theorem After.returned_return (k : After) (id : LeaseId) : (k.return id).returned := by
  cases k <;> rfl

@[simp] theorem After.returned_cleared (k : After) (id : LeaseId) : (k.cleared id).returned := by
  cases k <;> rfl

@[simp] theorem Ender.returned_return (e : Ender) (id : LeaseId) : (e.return id).returned := by
  cases e <;> rfl

@[simp] theorem Meter.returned_return (m : Meter) (id : LeaseId) (remaining : ℤ) :
    (m.return id remaining).returned := by
  cases m <;> rfl

/-! ### The steps keep it -/

section Act

variable {cfg : NodeConfig} {s : Node} {p p' : Pc} {out : Outcome} {op : Op}

theorem publishAudit_allowed (m : AuditMessage) : (publishAudit cfg m).Allowed s :=
  publishAudit_elim (P := fun op => op.Allowed s) trivial trivial

@[simp] theorem publishAudit_opens (m : AuditMessage) : (publishAudit cfg m).opens = none :=
  publishAudit_elim (P := fun op => op.opens = none) rfl rfl

theorem later_publishAudit (m : AuditMessage) :
    Node.Later (publishAudit cfg m).opens s (s.apply (publishAudit cfg m)) :=
  Node.later_apply (publishAudit_allowed m)

@[simp] theorem After.opener_return (k : After) (id : LeaseId) : (k.return id).opener = none := by
  cases k <;> rfl

@[simp] theorem After.opener_cleared (k : After) (id : LeaseId) :
    (k.cleared id).opener = none := by
  cases k <;> rfl

@[simp] theorem Ender.opener_return (e : Ender) (id : LeaseId) : (e.return id).opener = none := by
  cases e <;> rfl

@[simp] theorem Meter.opener_return (m : Meter) (id : LeaseId) (remaining : ℤ) :
    (m.return id remaining).opener = none := by
  cases m <;> rfl

/-- An operation on a lease changes what holds of it. -/
theorem Node.Has.apply {P Q : Lease → Prop} {id : LeaseId} (h : s.Has P id) (op : LeaseOp)
    (hq : ∀ l, P l → Q (l.apply op)) : (s.apply (.lease id op)).Has Q id := by
  obtain ⟨l, hl, hp⟩ := h
  exact ⟨l.apply op, by simp [Node.leases_apply, hl], hq l hp⟩

/-- A session id is one of a metered lease. -/
theorem Node.Sound.metered_of_sessionID (hs : s.Sound) {id : LeaseId} (hp : s.Present id)
    (h : (s.lease id).sessionID ≠ "") : s.Metered id :=
  hp.of_lease fun _ hn => h ((hs.lease id _ hp.leases_eq).unmetered hn).2

theorem Node.Sound.metered_of_settleState (hs : s.Sound) {id : LeaseId} (hp : s.Present id)
    (h : (s.lease id).settleState ≠ .notApplicable) : s.Metered id :=
  hp.of_lease fun _ hn => h ((hs.lease id _ hp.leases_eq).unmetered hn).1

theorem After.knows_return {k : After} {id : LeaseId} (h : s.Over id) :
    (k.return id).Knows s := by
  cases k with
  | settle e | abort r => exact h
  | refuse r => trivial

theorem After.knows_cleared {k : After} {id : LeaseId} (h : s.Over id) :
    (k.cleared id).Knows s := by
  cases k with
  | settle e => exact h
  | abort r | refuse r => trivial

theorem Ender.knows_return {e : Ender} {id : LeaseId} (h : s.Present id) :
    (e.return id).Knows s := by
  cases e with
  | stop => exact h
  | evict | sweep => trivial

theorem Meter.knows_return {m : Meter} {id : LeaseId} {remaining : ℤ} (h : s.Metered id) :
    (m.return id remaining).Knows s := by
  cases m with
  | tick => exact h
  | last e => exact ⟨rfl, h.present⟩

/-- The parts of the code. -/
inductive Part
  | create
  | startLease
  | publishLease
  | record
  | topUp
  | endLease
  | sweep
  | settleSession

/-- The part that a program point is in. -/
def Pc.part : Pc → Part
  | .create .. | .validateSpec .. | .accepting .. | .collectPayment .. | .mint .. => .create
  | .startLease .. | .claimSlot .. | .provision .. | .awaitJupyter .. | .failLease ..
  | .activate .. => .startLease
  | .sign .. | .pointAt .. | .reachable .. | .settleOpening .. | .markMetered ..
  | .setLength .. => .publishLease
  | .recordLease .. | .recordDuration .. | .recordPayment .. | .respond .. => .record
  | .authorize .. | .checkToken .. | .topUpStatus .. | .topUpLength .. | .topUpUnpaid ..
  | .topUpCap .. | .topUpCollect .. | .settleTopUp .. | .addCredit .. | .topUpPaused ..
  | .resume .. | .unpause .. => .topUp
  | .stopStatus .. | .endLease .. | .endStatus .. | .endMeter .. | .readClock ..
  | .burn .. => .endLease
  | .sweep .. | .sweepStatus .. | .sweepMeter .. | .tickElapsed .. | .tickPublish ..
  | .sweepSwitch .. | .sweepFullyPaid .. | .sweepRemaining .. | .sweepOverdue .. | .pause ..
  | .pauseContainer .. | .sweepPaused .. => .sweep
  | .stopLease .. | .reap .. | .release .. | .clear .. | .settleSession .. | .readCredit ..
  | .refund .. | .markSettled .. | .recordSettlement .. | .respondState ..
  | .done .. => .settleSession

/-- `handleCreateSession`, up to the verified payment. -/
theorem act_knows_create (hs : s.Sound) (hk : p.Knows s) (hp : p.part = .create)
    (h : s.act cfg p out = some (op, p')) : op.Allowed s ∧ p'.Knows (s.apply op) := by
  cases p with
  | create seconds =>
    simp only [Node.act] at h
    repeat' split at h
    all_goals cases h
    · exact ⟨trivial, trivial⟩
    · exact ⟨trivial, trivial⟩
    · exact ⟨trivial, trivial⟩
    · exact ⟨trivial, cfg.leases.sessionChunk_pos seconds⟩
  | validateSpec seconds chunk =>
    simp only [Node.act] at h
    split at h <;> cases h
    · exact ⟨trivial, trivial⟩
    · exact ⟨trivial, hk⟩
  | accepting seconds chunk =>
    simp only [Node.act] at h
    repeat' split at h
    all_goals cases h
    · exact ⟨trivial, trivial⟩
    · exact ⟨trivial, trivial⟩
    · exact ⟨trivial, hk⟩
  | collectPayment seconds chunk price =>
    cases out <;> cases h
    · exact ⟨trivial, hk⟩
    · exact ⟨trivial, trivial⟩
    · exact ⟨trivial, trivial⟩
  | mint seconds chunk price =>
    cases out <;> cases h
    · refine ⟨trivial, ⟨hk, by simp⟩, ?_, Nat.lt_succ_self _⟩
      exact Option.eq_none_iff_forall_ne_some.2 fun l hl => absurd (hs.fresh _ l hl) (lt_irrefl _)
    · exact ⟨trivial, trivial⟩
    · exact ⟨trivial, trivial⟩
  | _ => cases hp

/-- `StartLease`. -/
theorem act_knows_startLease (hk : p.Knows s) (hp : p.part = .startLease)
    (h : s.act cfg p out = some (op, p')) : op.Allowed s ∧ p'.Knows (s.apply op) := by
  cases p with
  | startLease o =>
    simp only [Node.act] at h
    split at h <;> cases h
    · exact ⟨trivial, trivial⟩
    · exact ⟨trivial, hk⟩
  | claimSlot o expiresAt =>
    simp only [Node.act] at h
    split_ifs at h with hb <;> cases h
    · exact ⟨trivial, trivial⟩
    · exact ⟨⟨hk.2, by simpa using hb, _, _, _, rfl⟩, hk.1,
        _, by rw [Node.leases_apply]; exact if_pos rfl, rfl⟩
  | provision o =>
    cases out with
    | ok containerID _ =>
      cases h
      have hop : (Op.lease o.id (.setContainer containerID)).Allowed s :=
        hk.2.of_lease fun _ => trivial
      exact ⟨hop, hk.1, (Node.later_apply hop).unmetered o.id (by simp [Op.opens]) hk.2⟩
    | fail err | unavailable =>
      cases h
      exact ⟨trivial, hk⟩
  | awaitJupyter o => cases out <;> cases h <;> exact ⟨trivial, hk⟩
  | failLease o err =>
    cases h
    have hop : (Op.lease o.id (.fail err)).Allowed s := hk.2.of_lease fun _ => trivial
    refine ⟨hop, hk.2.apply _ fun l _ => ?_,
      (Node.later_apply hop).unmetered o.id (by simp [Op.opens]) hk.2⟩
    rw [Lease.status_apply]
    dsimp only
    split_ifs with hl
    · exact hl
    · rfl
  | activate o =>
    cases h
    have hop : (Op.lease o.id (.setStatus .active)).Allowed s := hk.2.of_lease fun _ => trivial
    exact ⟨hop, hk.1, (Node.later_apply hop).unmetered o.id (by simp [Op.opens]) hk.2⟩
  | _ => cases hp

/-- `publishLease`, and the settlement of the opening chunk. -/
theorem act_knows_publishLease (hk : p.Knows s) (hp : p.part = .publishLease)
    (h : s.act cfg p out = some (op, p')) : op.Allowed s ∧ p'.Knows (s.apply op) := by
  cases p with
  | sign o | reachable o =>
    cases out <;> cases h
    · exact ⟨trivial, hk⟩
    · exact ⟨trivial, rfl, hk.2⟩
    · exact ⟨trivial, rfl, hk.2⟩
  | pointAt o =>
    cases out <;> cases h
    · exact ⟨trivial, hk⟩
    · exact ⟨trivial, rfl, hk.2⟩
    · exact ⟨trivial, rfl, hk.2⟩
  | settleOpening o =>
    cases out <;> cases h
    · exact ⟨hk.2.present, hk⟩
    · exact ⟨trivial, rfl, hk.2⟩
    · exact ⟨trivial, rfl, hk.2⟩
  | markMetered o payer transaction =>
    cases h
    refine ⟨?_, hk.2.apply _ fun l _ => by simp [Lease.ledger_apply]⟩
    obtain ⟨l, hl, hn⟩ := hk.2
    exact ⟨l, hl, hn, hk.1.sessionID, Int.natCast_nonneg _, hk.1.amount⟩
  | setLength o payer transaction =>
    cases h
    have hop : (Op.lease o.id (.setSessionLength o.seconds)).Allowed s :=
      Node.Has.of_lease hk fun _ => trivial
    exact ⟨hop, (Node.later_apply hop).metered hk⟩
  | _ => cases hp

/-- `recordSessionPayment`. -/
theorem act_knows_record (hk : p.Knows s) (hp : p.part = .record)
    (h : s.act cfg p out = some (op, p')) : op.Allowed s ∧ p'.Knows (s.apply op) := by
  cases p with
  | recordLease p =>
    cases h
    exact ⟨publishAudit_allowed _, (later_publishAudit _).metered hk⟩
  | recordDuration p =>
    cases h
    exact ⟨trivial, hk⟩
  | recordPayment p duration =>
    cases h
    exact ⟨publishAudit_allowed _, (later_publishAudit _).metered hk⟩
  | respond p =>
    simp only [Node.act] at h
    split at h <;> cases h <;> exact ⟨trivial, trivial⟩
  | _ => cases hp

/-- `authorizeSession` and `handleTopUpSession`. -/
theorem act_knows_topUp (hs : s.Sound) (hk : p.Knows s) (hp : p.part = .topUp)
    (h : s.act cfg p out = some (op, p')) : op.Allowed s ∧ p'.Knows (s.apply op) := by
  cases p with
  | authorize path token route =>
    simp only [Node.act] at h
    repeat' split at h
    all_goals cases h
    · exact ⟨trivial, trivial⟩
    · exact ⟨trivial, trivial⟩
    · rename_i id ha
      exact ⟨trivial, hs.active id ha⟩
  | checkToken id path token route =>
    simp only [Node.act] at h
    split at h
    · cases h
      exact ⟨trivial, trivial⟩
    · rename_i hauth
      have hm : s.Metered id :=
        hs.metered_of_sessionID hk fun h0 => hauth (Or.inl (h0 ▸ path.nonempty.symm))
      cases route <;> cases h <;> exact ⟨trivial, hm⟩
  | topUpStatus id =>
    simp only [Node.act] at h
    split at h <;> cases h
    · exact ⟨trivial, trivial⟩
    · exact ⟨trivial, hk⟩
  | topUpLength id =>
    simp only [Node.act] at h
    split_ifs at h with hp hl <;> cases h
    · exact ⟨trivial, trivial⟩
    · exact ⟨trivial, hk, by omega⟩
    · exact ⟨trivial, hk, by omega, cfg.leases.chunk_pos.le⟩
  | topUpUnpaid id price =>
    simp only [Node.act] at h
    split_ifs at h with hu <;> cases h
    · exact ⟨trivial, trivial⟩
    · exact ⟨trivial, hk.1, hk.2, le_min cfg.leases.chunk_pos.le (not_le.1 hu).le⟩
  | topUpCap id price chunk =>
    simp only [Node.act] at h
    split_ifs at h <;> cases h
    · exact ⟨trivial, trivial⟩
    · exact ⟨trivial, hk⟩
  | topUpCollect id price chunk =>
    cases out <;> cases h
    · exact ⟨trivial, hk⟩
    · exact ⟨trivial, trivial⟩
    · exact ⟨trivial, trivial⟩
  | settleTopUp id price chunk =>
    cases out <;> cases h
    · exact ⟨hk.1.present, hk.1, mul_nonneg hk.2.1 hk.2.2⟩
    · exact ⟨trivial, trivial⟩
    · exact ⟨trivial, trivial⟩
  | addCredit p =>
    cases h
    have hop : (Op.lease p.id (.addCredit p.amount)).Allowed s := hk.1.of_lease fun _ => hk.2
    exact ⟨hop, (Node.later_apply hop).metered hk.1⟩
  | topUpPaused p =>
    simp only [Node.act] at h
    split_ifs at h <;> cases h <;> exact ⟨trivial, hk⟩
  | resume p =>
    have hop : (Op.lease p.id (.resume s.clock)).Allowed s := Node.Has.of_lease hk fun _ => trivial
    have hm := (Node.later_apply hop).metered hk
    simp only [Node.act] at h
    split_ifs at h <;> cases h <;> exact ⟨hop, hm⟩
  | unpause p =>
    cases out <;> cases h <;> exact ⟨trivial, hk⟩
  | _ => cases hp

/-- `handleSessionStop` and `EndLease`, up to `StopLease`. -/
theorem act_knows_endLease (hs : s.Sound) (hk : p.Knows s) (hp : p.part = .endLease)
    (h : s.act cfg p out = some (op, p')) : op.Allowed s ∧ p'.Knows (s.apply op) := by
  cases p with
  | stopStatus id =>
    simp only [Node.act] at h
    split_ifs at h <;> cases h
    · exact ⟨trivial, hk⟩
    · exact ⟨trivial, rfl, Node.Has.present hk⟩
  | endLease =>
    simp only [Node.act] at h
    split at h <;> cases h
    · exact ⟨trivial, trivial⟩
    · rename_i id ha
      exact ⟨trivial, hs.active id ha⟩
  | endStatus id =>
    simp only [Node.act] at h
    split at h <;> cases h
    · exact ⟨trivial, trivial⟩
    · exact ⟨trivial, hk⟩
  | endMeter id =>
    simp only [Node.act] at h
    split_ifs at h with hm <;> cases h
    · exact ⟨trivial, hs.metered_of_sessionID hk hm.1⟩
    · exact ⟨trivial, rfl, hk⟩
  | readClock id m =>
    cases h
    exact ⟨trivial, hk⟩
  | burn id now m =>
    cases h
    have hop : (Op.lease id (.burn now)).Allowed s := Node.Has.of_lease hk fun _ => trivial
    exact ⟨hop, Meter.knows_return ((Node.later_apply hop).metered hk)⟩
  | _ => cases hp

/-- `sweepLeases`, with `tickMeter`. -/
theorem act_knows_sweep (hs : s.Sound) (hk : p.Knows s) (hp : p.part = .sweep)
    (h : s.act cfg p out = some (op, p')) : op.Allowed s ∧ p'.Knows (s.apply op) := by
  cases p with
  | sweep =>
    simp only [Node.act] at h
    split at h <;> cases h
    · exact ⟨trivial, trivial⟩
    · rename_i id ha
      exact ⟨trivial, hs.active id ha⟩
  | sweepStatus id =>
    simp only [Node.act] at h
    split at h <;> cases h
    · rename_i ho
      exact ⟨trivial, Node.Has.of_lease hk fun _ => ho⟩
    · exact ⟨trivial, hk⟩
  | sweepMeter id =>
    simp only [Node.act] at h
    split_ifs at h with hm <;> cases h
    · exact ⟨trivial, hs.metered_of_sessionID hk hm.1⟩
    · exact ⟨trivial, hk⟩
  | tickElapsed id remaining =>
    cases h
    exact ⟨trivial, hk⟩
  | tickPublish id remaining elapsed =>
    cases h
    exact ⟨publishAudit_allowed _, ((later_publishAudit _).metered hk).present⟩
  | sweepSwitch id =>
    simp only [Node.act] at h
    split at h <;> cases h
    · exact ⟨trivial, hk⟩
    · exact ⟨trivial, hk⟩
    · exact ⟨trivial, trivial⟩
  | sweepFullyPaid id =>
    simp only [Node.act] at h
    split_ifs at h <;> cases h <;> exact ⟨trivial, hk⟩
  | sweepRemaining id =>
    simp only [Node.act] at h
    split_ifs at h <;> cases h
    · exact ⟨trivial, rfl, hk⟩
    · exact ⟨trivial, hk⟩
  | sweepOverdue id =>
    simp only [Node.act] at h
    split_ifs at h <;> cases h
    · exact ⟨trivial, trivial⟩
    · exact ⟨trivial, hk⟩
  | pause id =>
    have hop : (Op.lease id (.pause s.clock)).Allowed s := Node.Has.of_lease hk fun _ => trivial
    have hp := (Node.later_apply hop).present hk
    simp only [Node.act] at h
    split_ifs at h <;> cases h
    · exact ⟨hop, hp⟩
    · exact ⟨hop, trivial⟩
  | pauseContainer id =>
    cases out <;> cases h <;> exact ⟨trivial, trivial⟩
  | sweepPaused id =>
    simp only [Node.act] at h
    split_ifs at h <;> cases h
    · exact ⟨trivial, trivial⟩
    · exact ⟨trivial, rfl, hk⟩
  | _ => cases hp

/-- `StopLease` and `settleSession`. -/
theorem act_knows_settleSession (hs : s.Sound) (hk : p.Knows s) (hp : p.part = .settleSession)
    (h : s.act cfg p out = some (op, p')) : op.Allowed s ∧ p'.Knows (s.apply op) := by
  cases p with
  | stopLease id status k =>
    simp only [Node.act] at h
    split at h <;> cases h
    · rename_i ho
      exact ⟨trivial, After.knows_return (hk.2.present.of_lease fun _ => ho)⟩
    · have hop : (Op.lease id (.stop status)).Allowed s := hk.2.present.of_lease fun _ => trivial
      have hk' := hk.2.later (Node.later_apply hop) fun _ _ => nofun
      refine ⟨hop, hk.2.present.apply _ fun l _ => ?_, hk'⟩
      rw [Lease.status_apply]
      dsimp only
      split_ifs with hl
      · exact hl
      · exact hk.1
  | reap id k =>
    cases h
    exact ⟨trivial, hk⟩
  | release id k =>
    cases h
    have hop : (Op.release id).Allowed s := hk.1
    exact ⟨hop, After.knows_return ((Node.later_apply hop).ended hk.1)⟩
  | clear id k =>
    cases h
    exact ⟨trivial, After.knows_cleared hk⟩
  | settleSession id e =>
    simp only [Node.act] at h
    split_ifs at h with hs' <;> cases h
    · exact ⟨trivial, Ender.knows_return (Node.Has.present hk)⟩
    · refine ⟨trivial, hk, hs.metered_of_settleState (Node.Has.present hk) fun hn => ?_⟩
      simp [hn] at hs'
  | readCredit id e =>
    simp only [Node.act] at h
    split_ifs at h with hc hsc <;> cases h
    · exact ⟨trivial, hk⟩
    · exact ⟨trivial, hk⟩
    · exact ⟨trivial, hk.1, hk.2, not_le.1 hc⟩
  | refund id payer owed e =>
    cases out <;> cases h
    · exact ⟨hk.2.1, hk.1, hk.2.1⟩
    · exact ⟨trivial, Ender.knows_return hk.1.present⟩
    · exact ⟨trivial, Ender.knows_return hk.1.present⟩
  | markSettled id owed transaction e =>
    cases h
    have hop : (Op.lease id (.markSettled owed)).Allowed s := hk.1.of_lease fun _ => trivial
    exact ⟨hop, (Node.later_apply hop).ended hk.1, (Node.later_apply hop).metered hk.2⟩
  | recordSettlement id refund transaction e =>
    cases h
    exact ⟨publishAudit_allowed _, Ender.knows_return ((later_publishAudit _).present hk.1.present)⟩
  | respondState id =>
    cases h
    exact ⟨trivial, trivial⟩
  | done r => cases h
  | _ => cases hp

/-- **A step is allowed, and establishes what its thread knows next.** -/
theorem act_knows (hs : s.Sound) (hk : p.Knows s) (h : s.act cfg p out = some (op, p')) :
    op.Allowed s ∧ p'.Knows (s.apply op) := by
  cases hp : p.part with
  | create => exact act_knows_create hs hk hp h
  | startLease => exact act_knows_startLease hk hp h
  | publishLease => exact act_knows_publishLease hk hp h
  | record => exact act_knows_record hk hp h
  | topUp => exact act_knows_topUp hs hk hp h
  | endLease => exact act_knows_endLease hs hk hp h
  | sweep => exact act_knows_sweep hs hk hp h
  | settleSession => exact act_knows_settleSession hs hk hp h

/-- A step opens only the lease its thread is opening, and starts opening only a fresh one. -/
theorem act_opener (h : s.act cfg p out = some (op, p')) :
    (∀ id, op.opens = some id → p.opener = some id) ∧
      ∀ id, p'.opener = some id → p.opener = some id ∨ id = s.nextLease := by
  cases p <;> simp only [Node.act] at h <;> (repeat' split at h) <;> cases h <;>
    refine ⟨fun id hid => ?_, fun id hid => ?_⟩ <;>
    first
    | simp at hid
    | exact Or.inl hid
    | exact Or.inr (by cases hid; rfl)
    | cases hid; rfl
    | cases hid

end Act

/-! ### In every reachable state -/

theorem Node.later_env (s : Node) (e : Event) : Node.Later none s (s.env e) := by
  cases e <;> exact ⟨le_rfl, fun _ _ _ h => h, fun _ _ h => h, fun _ _ h => h⟩

theorem Node.Sound.env {s : Node} (h : s.Sound) (e : Event) : (s.env e).Sound := by
  cases e <;> exact ⟨h.lease, h.fresh, h.slot, h.active, h.unsold, h.unrefunded⟩

section Reach

variable {cfg : NodeConfig}

/-- The steps of a run of the node. -/
abbrev NodeGuard := Machine.Config Node Pc → Machine.Label Outcome Request Event → Prop

/-- **The annotation is an outline** under any condition on the steps. -/
def nodeOutline (cfg : NodeConfig) (C : NodeGuard) :
    Machine.Outline (node cfg) Node.initial C where
  I := Node.Sound
  A s p := p.Knows s
  X p q := ∀ id, p.opener = some id → q.opener ≠ some id
  init := Node.sound_initial
  symm p q h id hq hp := h id hp hq
  start s r := by cases r <;> trivial
  apart r q id h := by cases r <;> cases h
  envI s e h := h.env e
  envA s e p h := h.later (s.later_env e) fun _ _ => nofun
  act c i out p op p' _ _ _ hs hk h := by
    obtain ⟨hop, hk'⟩ := act_knows hs hk h
    exact ⟨hs.apply hop, hk'⟩
  free c i j out p q op p' _ _ _ _ _ hs hk hq hx h := by
    obtain ⟨hop, -⟩ := act_knows hs hk h
    obtain ⟨hopens, hopener⟩ := act_opener h
    refine ⟨hq.later (Node.later_apply hop) fun id hid hmine => ?_, fun id hid hid' => ?_⟩
    · exact hx id (hopens id hmine) hid
    · rcases hopener id hid with hp | rfl
      · exact hx id hp hid'
      · exact absurd (hq.lt_nextLease hs hid') (lt_irrefl _)

variable {C : NodeGuard} {c : Machine.Config Node Pc}

theorem sound_of_reach (h : (nodeSystem cfg).Reach C c) : c.shared.Sound :=
  ((nodeOutline cfg C).holds h).shared

theorem knows_of_reach (h : (nodeSystem cfg).Reach C c) {i : ℕ} {p : Pc}
    (hp : c.threads[i]? = some p) : p.Knows c.shared :=
  ((nodeOutline cfg C).holds h).annot i p hp

/-- No two threads open the same lease. -/
theorem opener_unique (h : (nodeSystem cfg).Reach C c) {i j : ℕ} {p q : Pc} {id : LeaseId}
    (hp : c.threads[i]? = some p) (hq : c.threads[j]? = some q) (hpo : p.opener = some id)
    (hqo : q.opener = some id) : i = j := by
  by_contra hij
  exact ((nodeOutline cfg C).holds h).apart i j p q hij hp hq id hpo hqo

/-- **Every operation of a run is allowed.** -/
theorem allowed_of_reach (h : (nodeSystem cfg).Reach C c) {i : ℕ} {p p' : Pc} {out : Outcome}
    {op : Op} (hp : c.threads[i]? = some p) (ha : c.shared.act cfg p out = some (op, p')) :
    op.Allowed c.shared :=
  (act_knows (sound_of_reach h) (knows_of_reach h hp) ha).1

/-- **Every lease of a reachable node** is a fresh one after some operations. -/
theorem exists_run_of_reach (h : (nodeSystem cfg).Reach C c) {id : LeaseId} {l : Lease}
    (hl : c.shared.leases id = some l) :
    ∃ token expiresAt minutes ops, l = (Lease.provisioning token expiresAt minutes).run ops := by
  have hall := Machine.shared_of_reach (M := node cfg) (I := fun s => ∀ id l, s.leases id = some l →
    ∃ token expiresAt minutes ops, l = (Lease.provisioning token expiresAt minutes).run ops)
    (by simp [Node.initial]) (fun s e ih => by cases e <;> exact ih)
    (fun c i out p op p' hc hp _ ha ih => ?_) h
  · exact hall id l hl
  · intro id l hl
    have hop := allowed_of_reach hc hp ha
    rcases Node.leases_apply_cases hl with hl₀ | rfl | ⟨lop, l₀, rfl, hl₀, rfl⟩
    · exact ih id l hl₀
    · obtain ⟨-, -, token, e, m, rfl⟩ := hop
      exact ⟨token, e, m, [], rfl⟩
    · obtain ⟨token, e, m, ops, rfl⟩ := ih id l₀ hl₀
      exact ⟨token, e, m, ops ++ [lop], by simp [Lease.run_append]⟩

end Reach

end Mach402
