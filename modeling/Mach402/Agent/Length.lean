import Mach402.Agent.Exposure

/-!
# How much time a session is sold

A renter chooses the length of a session and pays for it in chunks.  A top-up looks at what is left
of the length, waits for two answers of the facilitator, and banks its chunk after them; so two
top-ups may both be approved for the same last chunk.  `sold_of_soleTopUp`: no session is sold more
than its length, nor more than the node's total cap, in every run in which a top-up reads what is
left while no other one is approved for the session (`SoleTopUp`).
-/

namespace Mach402

/-! ### Time sold -/

/-- What the session has been sold is within its length, once that is set, and within `cap`. -/
structure Lease.Sold (cap : ℤ) (l : Lease) : Prop where
  length : 0 < l.sessionSeconds → l.paidSeconds ≤ l.sessionSeconds
  cap : l.paidSeconds ≤ cap

section Paid

variable {l : Lease} {g : Ledger}

theorem Ledger.paidSeconds_of_pos (h : 0 < g.pricePerSecond) :
    g.paidSeconds = (g.burned + g.credit) / g.pricePerSecond := by
  rw [Ledger.paidSeconds, if_neg (not_le.2 h)]

/-- A chunk at the price of the session adds its seconds. -/
theorem Lease.paidSeconds_addCredit (hp : 0 < l.pricePerSecond) (chunk : ℤ) :
    (l.apply (.addCredit (l.pricePerSecond * chunk))).paidSeconds = l.paidSeconds + chunk := by
  cases hg : l.ledger with
  | none => simp [Lease.pricePerSecond, hg] at hp
  | some g =>
    have hprice : l.pricePerSecond = g.pricePerSecond := by simp [Lease.pricePerSecond, hg]
    rw [hprice] at hp ⊢
    simp only [Lease.paidSeconds, Lease.ledger_apply, hg, Option.map_some, Option.getD_some]
    rw [Ledger.paidSeconds_of_pos hp, Ledger.paidSeconds_of_pos (g := g.pay _) hp]
    simp only [Ledger.pay]
    rw [← Int.add_mul_ediv_left _ _ hp.ne', add_assoc]

/-- The opening chunk. -/
theorem Lease.paidSeconds_markMetered (l : Lease) (now : ℤ) (sessionID payer : String) (p : ℕ)
    {chunk : ℤ} (hc : 0 ≤ chunk) :
    (l.apply (.markMetered now sessionID payer p (p * chunk))).paidSeconds ≤ chunk := by
  simp only [Lease.paidSeconds, Lease.ledger_apply, Option.map_some, Option.getD_some,
    Ledger.paidSeconds, zero_add]
  split_ifs with hp
  · exact hc
  · rw [Int.mul_ediv_cancel_left _ (not_le.1 hp).ne']

/-- Time is sold by payments, and taken back by the settlement. -/
theorem Lease.paidSeconds_apply {op : LeaseOp} (hm : ∀ now s y p c, op ≠ .markMetered now s y p c)
    (ha : ∀ a, op ≠ .addCredit a) (hs : ∀ r, op ≠ .markSettled r) :
    (l.apply op).paidSeconds = l.paidSeconds := by
  have hsame : (l.apply op).ledger = l.ledger → (l.apply op).paidSeconds = l.paidSeconds :=
    fun h => by rw [Lease.paidSeconds, h, Lease.paidSeconds]
  cases op with
  | markMetered => exact absurd rfl (hm _ _ _ _ _)
  | addCredit => exact absurd rfl (ha _)
  | markSettled => exact absurd rfl (hs _)
  | burn now =>
    cases hg : l.ledger with
    | none => exact hsame (by simp [Lease.ledger_apply, hg])
    | some g => simp [Lease.paidSeconds, Lease.ledger_apply, hg, Ledger.paidSeconds, Ledger.spend]
  | setSessionLength | setStatus | fail | pause | resume | stop | setContainer =>
    exact hsame (Lease.ledger_apply _ _)

/-- No operation but a payment adds any. -/
theorem Lease.paidSeconds_apply_le (hl : l.Sound) {op : LeaseOp}
    (hm : ∀ now s y p c, op ≠ .markMetered now s y p c) (ha : ∀ a, op ≠ .addCredit a) :
    (l.apply op).paidSeconds ≤ l.paidSeconds := by
  cases op with
  | markSettled r =>
    cases hg : l.ledger with
    | none => simp [Lease.paidSeconds, Lease.ledger_apply, hg]
    | some g =>
      obtain ⟨hst, -, hsound⟩ := hl.metered g hg
      simp only [Lease.paidSeconds, Lease.ledger_apply, hg, hst, if_false, Option.map_some,
        Option.getD_some, Ledger.paidSeconds]
      split_ifs with hp
      · exact le_rfl
      · exact Int.ediv_le_ediv (not_le.1 hp) (by have := hsound.credit; omega)
  | _ => exact (Lease.paidSeconds_apply hm ha (by simp)).le

theorem Lease.ledger_price_apply {op : LeaseOp}
    (hm : ∀ now s y p c, op ≠ .markMetered now s y p c) :
    (l.apply op).ledger.map Ledger.pricePerSecond = l.ledger.map Ledger.pricePerSecond := by
  rw [Lease.ledger_apply]
  cases op with
  | markMetered => exact absurd rfl (hm _ _ _ _ _)
  | markSettled r =>
    dsimp only
    split_ifs
    · rfl
    · cases l.ledger <;> rfl
  | addCredit | burn => cases l.ledger <;> rfl
  | _ => rfl

theorem Lease.pricePerSecond_apply {op : LeaseOp}
    (hm : ∀ now s y p c, op ≠ .markMetered now s y p c) :
    (l.apply op).pricePerSecond = l.pricePerSecond := by
  rw [Lease.pricePerSecond, Lease.ledger_price_apply hm, Lease.pricePerSecond]

/-- What is within its bounds stays there. -/
theorem Lease.Sold.apply {cap : ℤ} (h : l.Sold cap) (hl : l.Sound)
    (hlen : l.ledger = none → l.sessionSeconds = 0) {op : LeaseOp}
    (hm : ∀ now s y p c, op ≠ .markMetered now s y p c) (ha : ∀ a, op ≠ .addCredit a)
    (hset : ∀ n, op ≠ .setSessionLength n) :
    (l.apply op).Sold cap ∧ ((l.apply op).ledger = none → (l.apply op).sessionSeconds = 0) := by
  have hle := Lease.paidSeconds_apply_le hl hm ha
  have hsame : (l.apply op).sessionSeconds = l.sessionSeconds := by
    rw [Lease.sessionSeconds_apply]
    cases op with
    | setSessionLength n => exact absurd rfl (hset n)
    | _ => rfl
  refine ⟨⟨fun hpos => ?_, hle.trans h.cap⟩, fun hn => ?_⟩
  · rw [hsame] at hpos ⊢
    exact hle.trans (h.length hpos)
  · rw [hsame]
    by_contra hne
    exact Lease.ledger_apply_ne_none (fun h => hne (hlen h)) op hn

end Paid

/-! ### Approved top-ups -/

/-- The session that the thread is about to sell time of, or to give its length. -/
def Pc.sells : Pc → Option LeaseId
  | .topUpCap id _ _ | .topUpCollect id _ _ | .settleTopUp id _ _ => some id
  | .addCredit p => some p.id
  | .setLength o _ _ => some o.id
  | _ => none

/-- A top-up finds the length of its session set, and reads what is left of it while no other one is
approved for the session. -/
def Pc.soleTopUp (c : Machine.Config Node Pc) : Pc → Bool
  | .topUpLength id =>
    let l := c.shared.lease id
    decide (l.pricePerSecond ≤ 0 ∨ 0 < l.sessionSeconds)
  | .topUpUnpaid id _ =>
    decide ((c.shared.lease id).unpaidSeconds ≤ 0) ||
      c.threads.all fun q => decide (q.sells ≠ some id)
  | _ => true

/-- Every top-up of the run is the only one for its session. -/
abbrev SoleTopUp : NodeGuard := Machine.Guard fun c _ p _ => p.soleTopUp c

/-- The session has a price, which it keeps, and a length. -/
structure Lease.Priced (l : Lease) (price : ℤ) : Prop where
  pos : 0 < price
  price : l.pricePerSecond = price
  length : 0 < l.sessionSeconds

/-- The chunk fits under the length of the session. -/
def Lease.Room (l : Lease) (chunk : ℤ) : Prop := l.paidSeconds + chunk ≤ l.sessionSeconds

/-- **What a thread has had approved** still fits. -/
def Pc.Within (cap : ℤ) (s : Node) : Pc → Prop
  | .topUpUnpaid id price => (s.lease id).Priced price
  | .topUpCap id price chunk => (s.lease id).Priced price ∧ (s.lease id).Room chunk
  | .topUpCollect id price chunk | .settleTopUp id price chunk =>
    (s.lease id).Priced price ∧ (s.lease id).Room chunk ∧ (s.lease id).paidSeconds + chunk ≤ cap
  | .addCredit p => ∃ price chunk, p.amount = price * chunk ∧
    (s.lease p.id).Priced price ∧ (s.lease p.id).Room chunk ∧
      (s.lease p.id).paidSeconds + chunk ≤ cap
  | .setLength o _ _ =>
    (s.lease o.id).sessionSeconds = 0 ∧ (s.lease o.id).paidSeconds ≤ o.seconds
  | _ => True

/-- Every session is within its bounds, and has no length before it is metered. -/
def Node.Sold (cap : ℤ) (s : Node) : Prop :=
  ∀ id, (s.lease id).Sold cap ∧ ((s.lease id).ledger = none → (s.lease id).sessionSeconds = 0)

section Frame

variable {cap : ℤ} {s : Node} {op : Op} {id : LeaseId}

/-- A lease changes by an operation on it, and comes about by its claim. -/
theorem Node.lease_apply_cases (hop : op.Allowed s) (id : LeaseId) :
    (∃ lop, op = .lease id lop) ∨ (s.apply op).lease id = s.lease id ∨
      ¬ s.Present id ∧ ∃ token e m, (s.apply op).lease id = .provisioning token e m := by
  cases op with
  | lease j lop =>
    by_cases hj : id = j
    · exact Or.inl ⟨lop, hj ▸ rfl⟩
    · exact Or.inr (Or.inl (Node.lease_apply_of_ne hj lop))
  | claim j l =>
    obtain ⟨⟨hn, -⟩, -, token, e, m, rfl⟩ := hop
    by_cases hj : id = j
    · subst hj
      refine Or.inr (Or.inr ⟨fun hp => ?_, token, e, m, ?_⟩)
      · exact absurd hp.leases_eq (by simp [hn])
      · exact Node.lease_eq (by simp [Node.leases_apply])
    · exact Or.inr (Or.inl (by simp [Node.lease, Node.leases_apply, hj]))
  | _ => exact Or.inr (Or.inl (by simp [Node.lease, Node.leases_apply]))

/-- What holds of a metered lease, and is kept by each operation it allows, is kept. -/
theorem Node.metered_cases {P : Lease → Prop} (hop : op.Allowed s) (hm : s.Metered id)
    (h : P (s.lease id))
    (hlease : ∀ lop : LeaseOp, op = .lease id lop →
      (∀ now s y p c, lop ≠ .markMetered now s y p c) → P ((s.lease id).apply lop)) :
    P ((s.apply op).lease id) := by
  rcases Node.lease_apply_cases hop id with ⟨lop, rfl⟩ | hsame | ⟨hn, -⟩
  · rw [Node.lease_apply_lease hop]
    refine hlease lop rfl ?_
    rintro now s y p c rfl
    exact hm.lease hop.lease.1
  · rwa [hsame]
  · exact absurd hm.present hn

/-- A metered session is sold more time by a top-up only. -/
theorem Node.paidSeconds_apply_le (hs : s.Sound) (hop : op.Allowed s) (hm : s.Metered id)
    (ha : ∀ a, op ≠ .lease id (.addCredit a)) :
    ((s.apply op).lease id).paidSeconds ≤ (s.lease id).paidSeconds := by
  refine Node.metered_cases (P := fun l => l.paidSeconds ≤ (s.lease id).paidSeconds) hop hm le_rfl
    fun lop hlop hnew => ?_
  refine Lease.paidSeconds_apply_le (hs.lease id _ hm.leases_eq) hnew fun a h => ?_
  exact ha a (h ▸ hlop)

theorem Node.sessionSeconds_apply (hop : op.Allowed s) (hm : s.Metered id)
    (hl : ∀ n, op ≠ .lease id (.setSessionLength n)) :
    ((s.apply op).lease id).sessionSeconds = (s.lease id).sessionSeconds := by
  refine Node.metered_cases (P := fun l => l.sessionSeconds = (s.lease id).sessionSeconds) hop hm
    rfl fun lop hlop _ => ?_
  rw [Lease.sessionSeconds_apply]
  cases lop with
  | setSessionLength n => exact absurd hlop (hl n)
  | _ => rfl

theorem Node.priced_apply {price : ℤ} (h : (s.lease id).Priced price) (hop : op.Allowed s)
    (hm : s.Metered id) (hl : ∀ n, op ≠ .lease id (.setSessionLength n)) :
    ((s.apply op).lease id).Priced price := by
  refine ⟨h.pos, ?_, ?_⟩
  · exact Node.metered_cases (P := fun l => l.pricePerSecond = price) hop hm h.price
      fun lop _ hnew => (Lease.pricePerSecond_apply hnew).trans h.price
  · rw [Node.sessionSeconds_apply hop hm hl]
    exact h.length

/-- What fits under the length goes on to fit. -/
theorem Node.room_apply {chunk : ℤ} (h : (s.lease id).Room chunk) (hs : s.Sound)
    (hop : op.Allowed s) (hm : s.Metered id) (ha : ∀ a, op ≠ .lease id (.addCredit a))
    (hl : ∀ n, op ≠ .lease id (.setSessionLength n)) : ((s.apply op).lease id).Room chunk := by
  rw [Lease.Room, Node.sessionSeconds_apply hop hm hl]
  exact (add_le_add_left (Node.paidSeconds_apply_le hs hop hm ha) chunk).trans h

/-- So does what fits under the cap. -/
theorem Node.paidSeconds_add_apply_le {chunk : ℤ} (h : (s.lease id).paidSeconds + chunk ≤ cap)
    (hs : s.Sound) (hop : op.Allowed s) (hm : s.Metered id)
    (ha : ∀ a, op ≠ .lease id (.addCredit a)) :
    ((s.apply op).lease id).paidSeconds + chunk ≤ cap :=
  (add_le_add_left (Node.paidSeconds_apply_le hs hop hm ha) chunk).trans h

/-- **Approvals survive** the steps of the other threads, but for a top-up of their session. -/
theorem Pc.Within.later {q : Pc} (h : q.Within cap s) (hs : s.Sound) (hk : q.Knows s)
    (hop : op.Allowed s) (ha : ∀ id a, q.sells = some id → op ≠ .lease id (.addCredit a))
    (hl : ∀ id n, q.sells = some id ∨ 0 < (s.lease id).sessionSeconds →
      op ≠ .lease id (.setSessionLength n)) :
    q.Within cap (s.apply op) := by
  cases q with
  | topUpUnpaid id price => exact Node.priced_apply h hop hk.1 fun n => hl id n (Or.inr h.length)
  | topUpCap id price chunk =>
    have hlen := fun n => hl id n (Or.inl rfl)
    have hadd := fun a => ha id a rfl
    exact ⟨Node.priced_apply h.1 hop hk.1 hlen, Node.room_apply h.2 hs hop hk.1 hadd hlen⟩
  | topUpCollect id price chunk | settleTopUp id price chunk =>
    have hlen := fun n => hl id n (Or.inl rfl)
    have hadd := fun a => ha id a rfl
    exact ⟨Node.priced_apply h.1 hop hk.1 hlen, Node.room_apply h.2.1 hs hop hk.1 hadd hlen,
      Node.paidSeconds_add_apply_le h.2.2 hs hop hk.1 hadd⟩
  | addCredit p =>
    have hlen := fun n => hl p.id n (Or.inl rfl)
    have hadd := fun a => ha p.id a rfl
    obtain ⟨price, chunk, hamount, hprice, hroom, hcap⟩ := h
    exact ⟨price, chunk, hamount, Node.priced_apply hprice hop hk.1 hlen,
      Node.room_apply hroom hs hop hk.1 hadd hlen,
      Node.paidSeconds_add_apply_le hcap hs hop hk.1 hadd⟩
  | setLength o =>
    obtain ⟨hzero, hpaid⟩ := h
    refine ⟨?_, ?_⟩
    · rw [Node.sessionSeconds_apply hop hk fun n => hl o.id n (Or.inl rfl), hzero]
    · exact (Node.paidSeconds_apply_le hs hop hk fun a => ha o.id a rfl).trans hpaid
  | _ => trivial

end Frame

/-! ### One step -/

@[simp] theorem publishAudit_ne_lease (cfg : NodeConfig) (m : AuditMessage) (id : LeaseId)
    (lop : LeaseOp) : publishAudit cfg m ≠ .lease id lop :=
  publishAudit_elim (P := fun op => op ≠ .lease id lop) (by simp) (by simp)

section Step

variable {cfg : NodeConfig} {cap : ℤ} {s : Node} {p p' : Pc} {out : Outcome} {op : Op}
  {id : LeaseId}

/-- Credit is added by the handler that was paid it. -/
theorem act_addCredit {a : ℤ} (h : s.act cfg p out = some (.lease id (.addCredit a), p')) :
    ∃ p₀ : Payment, p = .addCredit p₀ ∧ p₀.id = id ∧ p₀.amount = a := by
  cases moneyStep_of_act h with
  | idle _ hi _ => cases hi
  | addCredit p₀ => exact ⟨p₀, rfl, rfl, rfl⟩

/-- A lease is metered by the thread that opened it. -/
theorem act_lease_markMetered {now : ℤ} {sessionID payer : String} {price c : ℤ}
    (h : s.act cfg p out = some (.lease id (.markMetered now sessionID payer price c), p')) :
    ∃ (o : Opening) (transaction : String), p = .markMetered o payer transaction ∧ o.id = id ∧
      price = o.price ∧ c = o.amount := by
  cases moneyStep_of_act h with
  | idle _ hi _ => cases hi
  | markMetered o payer transaction => exact ⟨o, transaction, rfl, rfl, rfl, rfl⟩

/-- The length of a session is set by the thread that opened it. -/
theorem act_setSessionLength {n : ℤ}
    (h : s.act cfg p out = some (.lease id (.setSessionLength n), p')) :
    ∃ (o : Opening) (payer transaction : String), p = .setLength o payer transaction ∧
      o.id = id ∧ o.seconds = n := by
  cases p with
  | setLength o payer transaction => cases h; exact ⟨o, payer, transaction, rfl, rfl, rfl⟩
  | _ =>
    simp only [Node.act] at h
    (repeat' split at h) <;> simp at h

end Step

/-- The bounds of a quote. -/
theorem Leases.Quotes.bounds {leases : Leases} {seconds chunk : ℤ}
    (h : leases.Quotes (seconds, chunk)) :
    0 < seconds ∧ 0 < chunk ∧ chunk ≤ seconds ∧ chunk ≤ leases.maxTotalMinutes * 60 := by
  obtain ⟨hv, hc⟩ := h
  have := leases.minMinutes_pos
  have := leases.maxMinutes_le
  have := leases.chunk_le
  have := leases.chunk_pos
  simp only [Leases.validateSessionSeconds, Leases.sessionChunk] at hv hc
  split_ifs at hv hc <;> omega

@[simp] theorem Pc.within_of_returned {cap : ℤ} {s : Node} {p : Pc} (h : p.returned) :
    p.Within cap s := by
  cases p <;> trivial

@[simp] theorem Pc.sells_of_returned {p : Pc} (h : p.returned) : p.sells = none := by
  cases p <;> first | rfl | cases h

/-- **A step approves** what fits. -/
theorem within_step {cfg : NodeConfig} {c : Machine.Config Node Pc} {p p' : Pc} {out : Outcome}
    {op : Op} (hk : p.Knows c.shared) (h : c.shared.act cfg p out = some (op, p'))
    (hg : p.soleTopUp c) (hq : ∀ q, p.quote = some q → cfg.leases.Quotes q)
    (hw : p.Within (cfg.leases.maxTotalMinutes * 60) c.shared)
    (hI : c.shared.Sold (cfg.leases.maxTotalMinutes * 60)) :
    p'.Within (cfg.leases.maxTotalMinutes * 60) (c.shared.apply op) := by
  cases p with
  | topUpLength id =>
    simp only [Pc.soleTopUp, decide_eq_true_eq] at hg
    simp only [Node.act] at h
    split_ifs at h with hp hl <;> cases h
    · trivial
    · exact ⟨not_le.1 hp, rfl, hl⟩
    · exact absurd (hg.resolve_left hp) hl
  | topUpUnpaid id price =>
    simp only [Node.act] at h
    split_ifs at h with hu <;> cases h
    · trivial
    · refine ⟨hw, ?_⟩
      have hlen := hw.length
      simp only [Lease.unpaidSeconds, not_le.2 hlen, if_false] at hu ⊢
      change (c.shared.lease id).paidSeconds + _ ≤ (c.shared.lease id).sessionSeconds
      omega
  | topUpCap id price chunk =>
    simp only [Node.act] at h
    split_ifs at h with hcap <;> cases h
    · trivial
    · exact ⟨hw.1, hw.2, not_lt.1 hcap⟩
  | topUpCollect id price chunk =>
    cases out <;> cases h
    · exact hw
    · trivial
    · trivial
  | settleTopUp id price chunk =>
    cases out <;> cases h
    · exact ⟨price, chunk, rfl, hw⟩
    · trivial
    · trivial
  | markMetered o payer transaction =>
    cases h
    have hm : c.shared.Unmetered o.id := hk.2
    obtain ⟨-, hchunk, hle, -⟩ := (hq _ rfl).bounds
    simp only [Pc.Within, Node.lease_apply_lease hm, Lease.sessionSeconds_apply]
    exact ⟨(hI o.id).2 hm.lease, (Lease.paidSeconds_markMetered _ _ _ _ _ hchunk.le).trans hle⟩
  | _ =>
    simp only [Node.act] at h
    (repeat' split at h) <;> cases h <;> first | trivial | simp

/-- **A step sells no more** than has been approved. -/
theorem sold_step {cfg : NodeConfig} {s : Node} {p p' : Pc} {out : Outcome} {op : Op} (hs : s.Sound)
    (hk : p.Knows s) (hop : op.Allowed s) (h : s.act cfg p out = some (op, p'))
    (hq : ∀ q, p.quote = some q → cfg.leases.Quotes q)
    (hw : p.Within (cfg.leases.maxTotalMinutes * 60) s)
    (hI : s.Sold (cfg.leases.maxTotalMinutes * 60)) :
    (s.apply op).Sold (cfg.leases.maxTotalMinutes * 60) := by
  intro id
  obtain ⟨hsold, hlen⟩ := hI id
  rcases Node.lease_apply_cases hop id with ⟨lop, rfl⟩ | hsame | ⟨-, token, e, m, hnew⟩
  · rw [Node.lease_apply_lease hop]
    have hl := hs.lease id _ hop.leases_eq
    cases lop with
    | addCredit a =>
      obtain ⟨p₀, rfl, rfl, rfl⟩ := act_addCredit h
      obtain ⟨price, chunk, hamount, hprice, hroom, hcap⟩ := hw
      have hpos : 0 < (s.lease p₀.id).pricePerSecond := hprice.price ▸ hprice.pos
      rw [hamount, ← hprice.price]
      refine ⟨⟨fun _ => ?_, ?_⟩, fun hn => ?_⟩
      · rw [Lease.paidSeconds_addCredit hpos, Lease.sessionSeconds_apply]
        exact hroom
      · rw [Lease.paidSeconds_addCredit hpos]
        exact hcap
      · exact absurd hn (Lease.ledger_apply_ne_none hk.1.lease _)
    | markMetered now sessionID payer price c =>
      obtain ⟨o, transaction, rfl, rfl, rfl, rfl⟩ := act_lease_markMetered h
      obtain ⟨-, hchunk, -, hcap⟩ := (hq _ rfl).bounds
      have hzero := hlen hk.2.lease
      refine ⟨⟨fun hpos => ?_, ?_⟩, fun hn => ?_⟩
      · rw [Lease.sessionSeconds_apply] at hpos
        exact absurd hpos (by simp [hzero])
      · exact (Lease.paidSeconds_markMetered _ _ _ _ _ hchunk.le).trans hcap
      · rw [Lease.ledger_apply] at hn
        cases hn
    | setSessionLength n =>
      obtain ⟨o, payer, transaction, rfl, rfl, rfl⟩ := act_setSessionLength h
      have hledger := Lease.ledger_apply (s.lease o.id) (.setSessionLength o.seconds)
      refine ⟨⟨fun _ => hw.2, hsold.cap⟩, fun hn => absurd hn ?_⟩
      rw [hledger]
      exact Node.Has.lease (P := fun l => l.ledger ≠ none) hk
    | _ => exact hsold.apply hl hlen (by simp) (by simp) (by simp)
  · rw [hsame]
    exact hI id
  · have hcap : 0 ≤ cfg.leases.maxTotalMinutes * 60 := by
      have := cfg.leases.minMinutes_pos
      have := cfg.leases.minMinutes_le
      have := cfg.leases.maxMinutes_le
      omega
    rw [hnew]
    exact ⟨⟨fun h => absurd h (lt_irrefl 0), hcap⟩, fun _ => rfl⟩

/-- A thread comes to sell time of a session alone. -/
theorem act_sells {cfg : NodeConfig} {c : Machine.Config Node Pc} {p p' : Pc} {out : Outcome}
    {op : Op} {id : LeaseId} (h : c.shared.act cfg p out = some (op, p')) (hg : p.soleTopUp c)
    (hw : p.Within (cfg.leases.maxTotalMinutes * 60) c.shared) (hid : p'.sells = some id) :
    p.sells = some id ∨ (∀ q ∈ c.threads, q.sells ≠ some id) ∨
      ∃ o payer transaction, p = .markMetered o payer transaction ∧ o.id = id := by
  cases p with
  | topUpLength j =>
    simp only [Pc.soleTopUp, decide_eq_true_eq] at hg
    simp only [Node.act] at h
    split_ifs at h with hp hl <;> cases h
    · cases hid
    · cases hid
    · exact absurd (hg.resolve_left hp) hl
  | topUpUnpaid j price =>
    simp only [Pc.soleTopUp, Bool.or_eq_true, decide_eq_true_eq, List.all_eq_true] at hg
    simp only [Node.act] at h
    split_ifs at h with hu <;> cases h
    · cases hid
    · cases hid
      exact Or.inr (Or.inl fun q hq => hg.resolve_left hu q hq)
  | markMetered o payer transaction =>
    cases h
    cases hid
    exact Or.inr (Or.inr ⟨o, payer, transaction, rfl, rfl⟩)
  | _ =>
    simp only [Node.act] at h
    (repeat' split at h) <;> cases h <;> first | exact Or.inl hid | cases hid | simp at hid

theorem Pc.Knows.metered_of_sells {s : Node} {p : Pc} (h : p.Knows s) {id : LeaseId}
    (hid : p.sells = some id) : s.Metered id := by
  cases p with
  | topUpCap | topUpCollect | settleTopUp | addCredit => cases hid; exact h.1
  | setLength => cases hid; exact h
  | _ => cases hid

/-! ### In every run -/

section Reach

variable {cfg : NodeConfig} {c : Machine.Config Node Pc}

theorem Leases.cap_nonneg (leases : Leases) : 0 ≤ leases.maxTotalMinutes * 60 := by
  have := leases.minMinutes_pos
  have := leases.minMinutes_le
  have := leases.maxMinutes_le
  omega

/-- **Sole top-ups**: no session is sold time by two threads at once. -/
def lengthOutline (cfg : NodeConfig) : Machine.Outline (node cfg) Node.initial SoleTopUp where
  I s := s.Sold (cfg.leases.maxTotalMinutes * 60)
  A s p := p.Within (cfg.leases.maxTotalMinutes * 60) s
  X p q := ∀ id, p.sells = some id → q.sells ≠ some id
  init _ := ⟨⟨fun h => absurd h (lt_irrefl 0), cfg.leases.cap_nonneg⟩, fun _ => rfl⟩
  symm p q h id hq hp := h id hp hq
  start s r := by cases r <;> trivial
  apart r q id h := by cases r <;> cases h
  envI s e h := by cases e <;> exact h
  envA s e p h := by cases p <;> cases e <;> exact h
  act c i out p op p' hc hp hg hI hA ha :=
    have hs := sound_of_reach hc
    have hk := knows_of_reach hc hp
    have hq := fun q => quotes_of_reach hc hp (q := q)
    ⟨sold_step hs hk (allowed_of_reach hc hp ha) ha hq hA hI,
      within_step hk ha (hg.run hp) hq hA hI⟩
  free c i j out p q op p' hij hc hp hq hg hI hAp hAq hX ha := by
    have hkq := knows_of_reach hc hq
    refine ⟨hAq.later (sound_of_reach hc) hkq (allowed_of_reach hc hp ha) ?_ ?_, ?_⟩
    · rintro id a hid rfl
      obtain ⟨p₀, rfl, rfl, rfl⟩ := act_addCredit ha
      exact hX p₀.id rfl hid
    · rintro id n hid rfl
      obtain ⟨o, payer, transaction, rfl, rfl, rfl⟩ := act_setSessionLength ha
      rcases hid with hid | hpos
      · exact hX o.id rfl hid
      · exact absurd hpos (by simp [hAp.1])
    · intro id hid hid'
      rcases act_sells ha (hg.run hp) hAp hid with hsells | hall | ⟨o, payer, transaction, rfl, rfl⟩
      · exact hX id hsells hid'
      · exact hall q (List.mem_of_getElem? hq) hid'
      · -- a lease that is being metered has sold nothing yet
        have hm : c.shared.Unmetered o.id := (knows_of_reach hc hp).2
        exact (hkq.metered_of_sells hid').lease hm.lease

/-- **A session is never sold more time than its length**, nor more than the node's total cap, in a
run of sole top-ups. -/
theorem sold_of_soleTopUp (h : (nodeSystem cfg).Reach SoleTopUp c) (id : LeaseId) :
    let l := c.shared.lease id
    (0 < l.sessionSeconds → l.paidSeconds ≤ l.sessionSeconds) ∧
      l.paidSeconds ≤ cfg.leases.maxTotalMinutes * 60 :=
  have hsold := (((lengthOutline cfg).holds h).shared id).1
  ⟨hsold.length, hsold.cap⟩

end Reach

/-- The session is bought in two chunks, one after the other. -/
theorem sold_topUpWhenSpent :
    ∃ c, (nodeSystem .small).Reach SoleTopUp c ∧ c.shared.settled 0 = 120 ∧
      (c.shared.lease 0).paidSeconds ≤ 120 := by
  obtain ⟨c, hc, hp⟩ := System.exists_reach (S := nodeSystem .small) (C := SoleTopUp)
    (p := fun c => decide (c.shared.settled 0 = 120 ∧ (c.shared.lease 0).sessionSeconds = 120))
    topUpWhenSpent (by decide +kernel)
  obtain ⟨hsettled, hlen⟩ := of_decide_eq_true hp
  have hsold := (sold_of_soleTopUp hc 0).1
  rw [hlen] at hsold
  exact ⟨c, hc, hsettled, hsold (by decide)⟩

/-- Two top-ups are approved for the second minute of a session of two. -/
def topUpTwice : List (Machine.Label Outcome Request Event) :=
  openSession ++ .start (.topUp sessionPath "t") :: turns 1 7 ++
    .start (.topUp sessionPath "t") :: turns 2 7 ++ turns 1 2 ++ turns 2 2

/-- **A session can be sold more than its length.**  Three minutes, where its renter chose two. -/
theorem not_sold :
    ¬ ∀ (cfg : NodeConfig) (c : Machine.Config Node Pc), (nodeSystem cfg).Reachable c →
      ∀ id, 0 < (c.shared.lease id).sessionSeconds →
        (c.shared.lease id).paidSeconds ≤ (c.shared.lease id).sessionSeconds := by
  intro h
  obtain ⟨c, hc, hp⟩ := System.exists_reach (S := nodeSystem .small) (C := System.Any)
    (p := fun c => decide ((c.shared.lease 0).sessionSeconds = 120 ∧
      (c.shared.lease 0).paidSeconds = 180)) topUpTwice (by decide +kernel)
  obtain ⟨hlen, hpaid⟩ := of_decide_eq_true hp
  have hle := h .small c hc 0
  rw [hlen, hpaid] at hle
  exact absurd (hle (by decide)) (by decide)

end Mach402
