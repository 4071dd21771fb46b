import Mach402.Agent.NodeInvariant

/-!
# Where the money is

Ten of the node's steps move money or carry it: a payment settles and is banked, the meter burns,
a settlement reads the credit, transfers it and marks the session settled.  `MoneyStep` lists them,
and says that every other step is idle (`moneyStep_of_act`).

* `Node.balance`: what has been settled and is neither burned, nor credited, nor refunded, and what
  each operation does to it;
* `Pc.carried`: what a thread carries between a transfer and its entry in the ledger.
-/

namespace Mach402

/-! ### Idle steps -/

/-- The operation leaves the money of the lease alone. -/
def LeaseOp.idle : LeaseOp → Bool
  | .markMetered .. | .addCredit _ | .burn _ | .markSettled _ => false
  | _ => true

/-- The operation moves no money. -/
def Op.idle : Op → Bool
  | .lease _ op => op.idle
  | .settle .. | .refund .. => false
  | _ => true

/-- The thread carries no money and holds no figure. -/
def Pc.idle : Pc → Bool
  | .markMetered .. | .addCredit _ | .refund .. | .markSettled .. => false
  | _ => true

@[simp] theorem idle_publishAudit (cfg : NodeConfig) (m : AuditMessage) :
    (publishAudit cfg m).idle :=
  publishAudit_elim (P := fun op => op.idle) rfl rfl

@[simp] theorem Pc.idle_of_returned {p : Pc} (h : p.returned) : p.idle := by
  cases p <;> first | rfl | cases h

theorem Lease.apply_idle (l : Lease) {op : LeaseOp} (h : op.idle) :
    (l.apply op).ledger = l.ledger ∧ (l.apply op).settleState = l.settleState := by
  cases op with
  | markMetered | addCredit | burn | markSettled => cases h
  | _ => exact ⟨Lease.ledger_apply l _, Lease.settleState_apply l _⟩

namespace Node

/-- What is left of what has been paid for a session. -/
def credit (s : Node) (id : LeaseId) : ℤ := (s.lease id).credit

/-- What has been used of it. -/
def burned (s : Node) (id : LeaseId) : ℤ := (s.lease id).burned

/-- What is still to be paid back. -/
def owed (s : Node) (id : LeaseId) : ℤ :=
  if (s.lease id).settleState = .pending then s.credit id else 0

variable {s : Node} {op : Op}

/-- What an operation on a lease does to it. -/
theorem lease_apply_lease {P : Lease → Prop} {id : LeaseId} (h : s.Has P id) (lop : LeaseOp) :
    (s.apply (.lease id lop)).lease id = (s.lease id).apply lop := by
  refine lease_eq ?_
  simp [leases_apply, h.leases_eq]

theorem lease_apply_of_ne {id j : LeaseId} (h : id ≠ j) (lop : LeaseOp) :
    (s.apply (.lease j lop)).lease id = s.lease id := by
  simp [lease, leases_apply, h]

/-- An operation that keeps the settle state of its lease keeps that of every lease. -/
theorem settleState_lease {P : Lease → Prop} {j : LeaseId} (hj : s.Has P j) {lop : LeaseOp}
    (h : ∀ l : Lease, (l.apply lop).settleState = l.settleState) (id : LeaseId) :
    ((s.apply (.lease j lop)).lease id).settleState = (s.lease id).settleState := by
  by_cases hid : id = j
  · subst hid
    rw [lease_apply_lease hj, h]
  · rw [lease_apply_of_ne hid]

/-- The money of a session is left alone. -/
structure SameMoney (s s' : Node) (id : LeaseId) : Prop where
  ledger : (s'.lease id).ledger = (s.lease id).ledger
  settleState : (s'.lease id).settleState = (s.lease id).settleState
  settled : s'.settled id = s.settled id
  refunds : s'.refunds id = s.refunds id

theorem SameMoney.refl (s : Node) (id : LeaseId) : s.SameMoney s id := ⟨rfl, rfl, rfl, rfl⟩

theorem SameMoney.credit {s' : Node} {id : LeaseId} (h : s.SameMoney s' id) :
    s'.credit id = s.credit id := by
  simp [Node.credit, Lease.credit, h.ledger]

theorem SameMoney.burned {s' : Node} {id : LeaseId} (h : s.SameMoney s' id) :
    s'.burned id = s.burned id := by
  simp [Node.burned, Lease.burned, h.ledger]

/-- An operation on another lease leaves it alone. -/
theorem sameMoney_lease {id j : LeaseId} (h : id ≠ j) (lop : LeaseOp) :
    s.SameMoney (s.apply (.lease j lop)) id :=
  ⟨by rw [lease_apply_of_ne h], by rw [lease_apply_of_ne h], rfl, rfl⟩

/-- So does a settlement of another payment. -/
theorem sameMoney_settle {id j : LeaseId} (h : id ≠ j) (amount : ℤ) :
    s.SameMoney (s.apply (.settle j amount)) id :=
  ⟨rfl, rfl, by rw [settled_apply]; exact if_neg h, rfl⟩

/-- So does a refund of another session. -/
theorem sameMoney_refund {id j : LeaseId} (h : id ≠ j) (amount : ℤ) :
    s.SameMoney (s.apply (.refund j amount)) id :=
  ⟨rfl, rfl, rfl, by rw [refunds_apply]; exact if_neg h⟩

/-- **Idle operations** leave all money alone. -/
theorem sameMoney_idle (hop : op.Allowed s) (h : op.idle) (id : LeaseId) :
    s.SameMoney (s.apply op) id := by
  cases op with
  | lease j lop =>
    by_cases hj : id = j
    · subst hj
      have hlease := lease_apply_lease hop lop
      obtain ⟨hl, hs⟩ := (s.lease id).apply_idle h
      exact ⟨by rw [hlease, hl], by rw [hlease, hs], rfl, rfl⟩
    · exact sameMoney_lease hj lop
  | claim j l =>
    obtain ⟨⟨hn, -⟩, -, token, e, m, rfl⟩ := hop
    by_cases hj : id = j
    · subst hj
      constructor <;> simp [lease, hn, Lease.provisioning, apply]
    · constructor <;> simp [lease, hj, apply]
  | settle j a | refund j a => cases h
  | release j =>
    simp only [apply]
    split_ifs <;> exact ⟨rfl, rfl, rfl, rfl⟩
  | skip | mint | point | unpoint | freeze | thaw | publish => exact ⟨rfl, rfl, rfl, rfl⟩

end Node

/-! ### The steps that move money -/

/-- **What a step does to the money.** -/
inductive MoneyStep (s : Node) : Pc → Op → Pc → Prop
  | idle {p op p'} : p.idle → op.idle → p'.idle → MoneyStep s p op p'
  | settleOpening (o payer transaction) : MoneyStep s (.settleOpening o) (.settle o.id o.amount)
      (.markMetered o payer transaction)
  | markMetered (o payer transaction) : MoneyStep s (.markMetered o payer transaction)
      (.lease o.id (.markMetered s.clock o.sessionID payer o.price o.amount))
      (.setLength o payer transaction)
  | settleTopUp (id price chunk payer transaction) : MoneyStep s (.settleTopUp id price chunk)
      (.settle id (price * chunk))
      (.addCredit { id, amount := price * chunk, payer, transaction, opening := none })
  | addCredit (p : Payment) : MoneyStep s (.addCredit p) (.lease p.id (.addCredit p.amount))
      (.topUpPaused p)
  | burn (id now m) {p'} : p'.idle → MoneyStep s (.burn id now m) (.lease id (.burn now)) p'
  | readNothing (id e) : (s.lease id).credit ≤ 0 →
      MoneyStep s (.readCredit id e) .skip (.markSettled id (s.lease id).credit "" e)
  | readCredit (id payer e) : 0 < (s.lease id).credit →
      MoneyStep s (.readCredit id e) .skip (.refund id payer (s.lease id).credit e)
  | refund (id payer owed transaction e) : MoneyStep s (.refund id payer owed e) (.refund id owed)
      (.markSettled id owed transaction e)
  | refundFailed (id payer owed e) {p'} : p'.idle → MoneyStep s (.refund id payer owed e) .skip p'
  | markSettled (id owed transaction e) : MoneyStep s (.markSettled id owed transaction e)
      (.lease id (.markSettled owed)) (.recordSettlement id owed transaction e)

/-- Every step is one of these. -/
theorem moneyStep_of_act {cfg : NodeConfig} {s : Node} {p p' : Pc} {out : Outcome} {op : Op}
    (h : s.act cfg p out = some (op, p')) : MoneyStep s p op p' := by
  cases p with
  | settleOpening o =>
    cases out <;> cases h
    · exact .settleOpening o _ _
    · exact .idle rfl rfl rfl
    · exact .idle rfl rfl rfl
  | markMetered o payer transaction => cases h; exact .markMetered o payer transaction
  | settleTopUp id price chunk =>
    cases out <;> cases h
    · exact .settleTopUp id price chunk _ _
    · exact .idle rfl rfl rfl
    · exact .idle rfl rfl rfl
  | addCredit p => cases h; exact .addCredit p
  | burn id now m => cases h; exact .burn id now m (Pc.idle_of_returned (m.returned_return _ _))
  | readCredit id e =>
    simp only [Node.act] at h
    split_ifs at h with hc hsc <;> cases h
    · exact .readNothing id e hc
    · exact .idle rfl rfl rfl
    · exact .readCredit id _ e (not_le.1 hc)
  | refund id payer owed e =>
    cases out <;> cases h
    · exact .refund id payer owed _ e
    · exact .refundFailed id payer owed e (Pc.idle_of_returned (e.returned_return _))
    · exact .refundFailed id payer owed e (Pc.idle_of_returned (e.returned_return _))
  | markSettled id owed transaction e => cases h; exact .markSettled id owed transaction e
  | _ =>
    simp only [Node.act] at h
    (repeat' split at h) <;> cases h <;>
      exact .idle rfl (by first | rfl | simp) (by first | rfl | simp)

/-! ### What they do to one session -/

/-- The thread carries money of the session, or holds a figure for it. -/
def Pc.carries (id : LeaseId) : Pc → Bool
  | .markMetered o _ _ => o.id = id
  | .addCredit p => p.id = id
  | .refund j .. | .markSettled j .. => j = id
  | _ => false

theorem Pc.carries_of_idle {p : Pc} (h : p.idle) (id : LeaseId) : p.carries id = false := by
  cases p <;> first | rfl | cases h

/-- **What a step does to the money of one session.** -/
inductive SessionStep (s : Node) (id : LeaseId) : Pc → Op → Pc → Prop
  | elsewhere {p op p'} : p.carries id = false → s.SameMoney (s.apply op) id →
      p'.carries id = false → SessionStep s id p op p'
  | settleOpening (o payer transaction) : o.id = id →
      SessionStep s id (.settleOpening o) (.settle o.id o.amount) (.markMetered o payer transaction)
  | markMetered (o payer transaction) : o.id = id →
      SessionStep s id (.markMetered o payer transaction)
        (.lease o.id (.markMetered s.clock o.sessionID payer o.price o.amount))
        (.setLength o payer transaction)
  | settleTopUp (price chunk payer transaction) :
      SessionStep s id (.settleTopUp id price chunk) (.settle id (price * chunk))
        (.addCredit { id, amount := price * chunk, payer, transaction, opening := none })
  | addCredit (p : Payment) : p.id = id →
      SessionStep s id (.addCredit p) (.lease p.id (.addCredit p.amount)) (.topUpPaused p)
  | burn (now m) {p'} : p'.carries id = false →
      SessionStep s id (.burn id now m) (.lease id (.burn now)) p'
  | readNothing (e) : s.credit id ≤ 0 →
      SessionStep s id (.readCredit id e) .skip (.markSettled id (s.credit id) "" e)
  | readCredit (payer e) : 0 < s.credit id →
      SessionStep s id (.readCredit id e) .skip (.refund id payer (s.credit id) e)
  | refund (payer owed transaction e) :
      SessionStep s id (.refund id payer owed e) (.refund id owed)
        (.markSettled id owed transaction e)
  | refundFailed (payer owed e) {p'} : p'.carries id = false →
      SessionStep s id (.refund id payer owed e) .skip p'
  | markSettled (owed transaction e) :
      SessionStep s id (.markSettled id owed transaction e) (.lease id (.markSettled owed))
        (.recordSettlement id owed transaction e)

/-- A step, seen from one session. -/
theorem MoneyStep.session {s : Node} {p p' : Pc} {op : Op} (h : MoneyStep s p op p')
    (hop : op.Allowed s) (id : LeaseId) : SessionStep s id p op p' := by
  cases h with
  | idle hp hi hp' =>
    exact .elsewhere (Pc.carries_of_idle hp id) (Node.sameMoney_idle hop hi id)
      (Pc.carries_of_idle hp' id)
  | settleOpening o payer transaction =>
    by_cases hid : o.id = id
    · exact .settleOpening o payer transaction hid
    · exact .elsewhere rfl (Node.sameMoney_settle (Ne.symm hid) _) (decide_eq_false hid)
  | markMetered o payer transaction =>
    by_cases hid : o.id = id
    · exact .markMetered o payer transaction hid
    · exact .elsewhere (decide_eq_false hid) (Node.sameMoney_lease (Ne.symm hid) _) rfl
  | settleTopUp j price chunk payer transaction =>
    by_cases hid : j = id
    · subst hid
      exact .settleTopUp price chunk payer transaction
    · exact .elsewhere rfl (Node.sameMoney_settle (Ne.symm hid) _) (decide_eq_false hid)
  | addCredit p =>
    by_cases hid : p.id = id
    · exact .addCredit p hid
    · exact .elsewhere (decide_eq_false hid) (Node.sameMoney_lease (Ne.symm hid) _) rfl
  | burn j now m hp' =>
    by_cases hid : j = id
    · subst hid
      exact .burn now m (Pc.carries_of_idle hp' j)
    · exact .elsewhere rfl (Node.sameMoney_lease (Ne.symm hid) _) (Pc.carries_of_idle hp' id)
  | readNothing j e hc =>
    by_cases hid : j = id
    · subst hid
      exact .readNothing e hc
    · exact .elsewhere rfl (.refl s id) (decide_eq_false hid)
  | readCredit j payer e hc =>
    by_cases hid : j = id
    · subst hid
      exact .readCredit payer e hc
    · exact .elsewhere rfl (.refl s id) (decide_eq_false hid)
  | refund j payer owed transaction e =>
    by_cases hid : j = id
    · subst hid
      exact .refund payer owed transaction e
    · exact .elsewhere (decide_eq_false hid) (Node.sameMoney_refund (Ne.symm hid) _)
        (decide_eq_false hid)
  | refundFailed j payer owed e hp' =>
    by_cases hid : j = id
    · subst hid
      exact .refundFailed payer owed e (Pc.carries_of_idle hp' j)
    · exact .elsewhere (decide_eq_false hid) (.refl s id) (Pc.carries_of_idle hp' id)
  | markSettled j owed transaction e =>
    by_cases hid : j = id
    · subst hid
      exact .markSettled owed transaction e
    · exact .elsewhere (decide_eq_false hid) (Node.sameMoney_lease (Ne.symm hid) _) rfl

/-! ### The worth of a lease -/

namespace Lease

/-- What the ledger of a lease accounts for. -/
def worth (l : Lease) : ℤ := l.burned + l.credit

variable {l : Lease}

theorem worth_of_unmetered (h : l.ledger = none) : l.worth = 0 := by
  simp [worth, burned, credit, h]

theorem worth_markMetered (now : ℤ) (sessionID payer : String) (p c : ℤ) :
    (l.apply (.markMetered now sessionID payer p c)).worth = c := by
  simp [worth, burned, credit, ledger_apply]

theorem worth_addCredit (h : l.ledger ≠ none) (a : ℤ) :
    (l.apply (.addCredit a)).worth = l.worth + a := by
  obtain ⟨g, hg⟩ := Option.ne_none_iff_exists'.1 h
  simp only [worth, burned, credit, ledger_apply, hg, Option.map_some, Option.getD_some, Ledger.pay]
  ring

theorem worth_burn (now : ℤ) : (l.apply (.burn now)).worth = l.worth := by
  cases hg : l.ledger with
  | none => simp [worth, burned, credit, ledger_apply, hg]
  | some g =>
    simp only [worth, burned, credit, ledger_apply, hg, Option.map_some, Option.getD_some,
      Ledger.spend]
    ring

theorem worth_markSettled (hs : l.settleState ≠ .notApplicable) (r : ℤ) :
    (l.apply (.markSettled r)).worth = l.worth - l.credit := by
  cases hg : l.ledger with
  | none => simp [worth, burned, credit, ledger_apply, hg]
  | some g => simp [worth, burned, credit, ledger_apply, hg, hs]

end Lease

/-! ### The balance -/

/-- What has been settled and is neither burned, nor credited, nor refunded. -/
def Node.balance (s : Node) (id : LeaseId) : ℤ :=
  s.settled id - s.burned id - s.credit id - (s.refunds id).sum

/-- What a thread has had settled and not banked yet. -/
def Pc.inFlight (id : LeaseId) : Pc → ℤ
  | .markMetered o _ _ => if o.id = id then o.amount else 0
  | .addCredit p => if p.id = id then p.amount else 0
  | _ => 0

/-- What a thread has transferred and not marked yet. -/
def Pc.paidOut (id : LeaseId) : Pc → ℤ
  | .markSettled j owed _ _ => if j = id then max owed 0 else 0
  | _ => 0

/-- What a thread carries: refunds not yet marked, less payments not yet banked. -/
def Pc.carried (id : LeaseId) (p : Pc) : ℤ := p.paidOut id - p.inFlight id

section Balance

variable {s : Node} {id : LeaseId} {p : Pc}

theorem Pc.inFlight_eq_zero (h : p.carries id = false) : p.inFlight id = 0 := by
  cases p with
  | markMetered | addCredit => exact if_neg (of_decide_eq_false h)
  | _ => rfl

theorem Pc.paidOut_eq_zero (h : p.carries id = false) : p.paidOut id = 0 := by
  cases p with
  | markSettled => exact if_neg (of_decide_eq_false h)
  | _ => rfl

theorem Pc.carried_eq_zero (h : p.carries id = false) : p.carried id = 0 := by
  rw [carried, paidOut_eq_zero h, inFlight_eq_zero h, sub_zero]

theorem Pc.Knows.inFlight_nonneg (h : p.Knows s) : 0 ≤ p.inFlight id := by
  cases p with
  | markMetered o => simp only [Pc.inFlight]; split_ifs; exacts [h.1.amount, le_rfl]
  | addCredit p => simp only [Pc.inFlight]; split_ifs; exacts [h.2, le_rfl]
  | _ => exact le_rfl

theorem Node.SameMoney.balance {s' : Node} (h : s.SameMoney s' id) :
    s'.balance id = s.balance id := by
  rw [Node.balance, Node.balance, h.credit, h.burned, h.settled, h.refunds]

/-- The balance after a settlement. -/
theorem Node.balance_settle (amount : ℤ) :
    (s.apply (.settle id amount)).balance id = s.balance id + amount := by
  simp only [Node.balance, Node.burned, Node.credit, Node.lease, Node.apply, Function.update_self]
  ring

/-- The balance after a refund. -/
theorem Node.balance_refund (amount : ℤ) :
    (s.apply (.refund id amount)).balance id = s.balance id - amount := by
  simp only [Node.balance, Node.burned, Node.credit, Node.lease, Node.apply, Function.update_self,
    List.sum_append, List.sum_singleton]
  ring

/-- The balance after an operation on the lease. -/
theorem Node.balance_lease {P : Lease → Prop} (hid : s.Has P id) (lop : LeaseOp) :
    (s.apply (.lease id lop)).balance id =
      s.balance id + (s.lease id).worth - ((s.lease id).apply lop).worth := by
  simp only [Node.balance, Node.burned, Node.credit, Node.lease_apply_lease hid, Lease.worth]
  simp only [Node.apply]
  ring

theorem Node.Sound.settleState (hs : s.Sound) (h : s.Metered id) :
    (s.lease id).settleState ≠ .notApplicable := by
  obtain ⟨l, hl, hn⟩ := h
  obtain ⟨g, hg⟩ := Option.ne_none_iff_exists'.1 hn
  rw [Node.lease_eq hl]
  exact ((hs.lease id l hl).metered g hg).1

theorem Node.Sound.credit_nonneg (hs : s.Sound) (id : LeaseId) : 0 ≤ s.credit id := by
  cases hl : s.leases id with
  | none => simp [Node.credit, Node.lease, hl, Lease.credit, Lease.provisioning]
  | some l =>
    rw [Node.credit, Node.lease_eq hl]
    cases hg : l.ledger with
    | none => simp [Lease.credit, hg]
    | some g => simpa [Lease.credit, hg] using ((hs.lease id l hl).metered g hg).2.2.credit

/-- **The books balance** over a step, if a `MarkSettled` finds the credit its settlement read. -/
theorem balance_step (hs : s.Sound) {p' : Pc} {op : Op} (hk : p.Knows s) (hop : op.Allowed s)
    (h : SessionStep s id p op p')
    (hg : ∀ owed transaction e, p = .markSettled id owed transaction e → s.credit id = owed) :
    (s.apply op).balance id + p'.carried id = s.balance id + p.carried id := by
  cases h with
  | elsewhere hp hs hp' => rw [hs.balance, Pc.carried_eq_zero hp, Pc.carried_eq_zero hp']
  | settleOpening o payer transaction hid =>
    subst hid
    rw [Node.balance_settle]
    simp [Pc.carried, Pc.paidOut, Pc.inFlight]
  | markMetered o payer transaction hid =>
    subst hid
    rw [Node.balance_lease hop, Lease.worth_markMetered, Lease.worth_of_unmetered hk.2.lease]
    simp only [Pc.carried, Pc.paidOut, Pc.inFlight, if_true]
    omega
  | settleTopUp price chunk payer transaction =>
    rw [Node.balance_settle]
    simp [Pc.carried, Pc.paidOut, Pc.inFlight]
  | addCredit p hid =>
    subst hid
    rw [Node.balance_lease hop, Lease.worth_addCredit hk.1.lease]
    simp only [Pc.carried, Pc.paidOut, Pc.inFlight, if_true]
    omega
  | burn now m hp' =>
    rw [Node.balance_lease hop, Lease.worth_burn, Pc.carried_eq_zero hp']
    simp [Pc.carried, Pc.paidOut, Pc.inFlight]
  | readNothing e hc =>
    have hmax : max (s.credit id) 0 = 0 := max_eq_right hc
    simp [Pc.carried, Pc.paidOut, Pc.inFlight, hmax, Node.apply]
  | readCredit payer e hc => rfl
  | refund payer owed transaction e =>
    have hmax : max owed 0 = owed := max_eq_left hk.2.2.le
    rw [Node.balance_refund]
    simp only [Pc.carried, Pc.paidOut, Pc.inFlight, hmax, if_true]
    omega
  | refundFailed payer owed e hp' =>
    rw [Pc.carried_eq_zero hp']
    rfl
  | markSettled owed transaction e =>
    have hcredit := hg owed transaction e rfl
    have hmax : max owed 0 = owed := max_eq_left (hcredit ▸ hs.credit_nonneg id)
    have hc : (s.lease id).credit = owed := hcredit
    rw [Node.balance_lease hop, Lease.worth_markSettled (hs.settleState hk.2), hc]
    simp only [Pc.carried, Pc.paidOut, Pc.inFlight, hmax, if_true]
    omega

end Balance

end Mach402
