import Mach402.Agent.Duration

/-!
# The lease and its ledger

`runner.Lease` and the operations on it that hold `lease.mu`: the metering fields, the status and
the settlement.  `LeaseOp` collects the operations, one constructor for each; whatever the handlers
do to a lease is a sequence of these.

The three pointers `credit`, `burned` and `pricePerSecond` are set together by `MarkMetered` and
never unset, so the nil checks on them are one check here: `ledger = none` is a lease whose opening
chunk has not settled.  Amounts are tinybars, of which fewer than `2 ^ 63` exist, so `Int64` of a
number of seconds is exact.
-/

namespace Mach402

/-- A point in a lease's life. -/
inductive LeaseStatus
  | provisioning
  | active
  | paused
  | stopped
  | expired
  | failed
  deriving DecidableEq, Repr

/-- The lease is over. -/
def LeaseStatus.isTerminal : LeaseStatus → Bool
  | .stopped | .expired | .failed => true
  | .provisioning | .active | .paused => false

/-- Where a session stands with its renter's remaining credit. -/
inductive SettleState
  | notApplicable
  | pending
  | done
  deriving DecidableEq, Repr

/-- The money of one session: the rate, what is owed back now, what has been earned. -/
structure Ledger where
  pricePerSecond : ℤ
  credit : ℤ
  burned : ℤ
  deriving DecidableEq, Repr

namespace Ledger

/-- How much time the unburned credit still buys. -/
def secondsRemaining (g : Ledger) : ℤ :=
  if g.pricePerSecond ≤ 0 then 0 else g.credit / g.pricePerSecond

/-- How much time every payment so far has bought. -/
def paidSeconds (g : Ledger) : ℤ :=
  if g.pricePerSecond ≤ 0 then 0 else (g.burned + g.credit) / g.pricePerSecond

/-- Bank another payment. -/
def pay (g : Ledger) (amount : ℤ) : Ledger := { g with credit := g.credit + amount }

/-- The charge for `elapsed`: whole seconds at the rate, and never more than the credit. -/
def charge (g : Ledger) (elapsed : ℤ) : ℤ :=
  if g.credit < g.pricePerSecond * Duration.wholeSeconds elapsed then g.credit
  else g.pricePerSecond * Duration.wholeSeconds elapsed

/-- Move `charge` from the credit to the earnings. -/
def spend (g : Ledger) (charge : ℤ) : Ledger :=
  { g with credit := g.credit - charge, burned := g.burned + charge }

end Ledger

/-- One timed interactive session and its live state. -/
structure Lease where
  status : LeaseStatus
  token : String
  /-- Empty until the container exists. -/
  containerID : String
  expiresAt : ℤ
  paidMinutes : ℤ
  pausedAt : Option ℤ
  err : String
  /-- Empty until the opening chunk has settled. -/
  sessionID : String
  sessionSeconds : ℤ
  payer : String
  ledger : Option Ledger
  lastTickAt : ℤ
  exhausted : Bool
  settleState : SettleState
  refunded : Option ℤ
  deriving DecidableEq, Repr

namespace Lease

/-- The lease that `Runner.StartLease` claims the slot for. -/
def provisioning (token : String) (expiresAt paidMinutes : ℤ) : Lease where
  status := .provisioning
  token
  containerID := ""
  expiresAt
  paidMinutes
  pausedAt := none
  err := ""
  sessionID := ""
  sessionSeconds := 0
  payer := ""
  ledger := none
  lastTickAt := 0
  exhausted := false
  settleState := .notApplicable
  refunded := none

/-! ### Reads -/

/-- `PricePerSecond`, which is zero without a meter. -/
def pricePerSecond (l : Lease) : ℤ := (l.ledger.map Ledger.pricePerSecond).getD 0

/-- `Credit`. -/
def credit (l : Lease) : ℤ := (l.ledger.map Ledger.credit).getD 0

/-- `Burned`. -/
def burned (l : Lease) : ℤ := (l.ledger.map Ledger.burned).getD 0

/-- `SecondsRemaining`. -/
def secondsRemaining (l : Lease) : ℤ := (l.ledger.map Ledger.secondsRemaining).getD 0

/-- `PaidSeconds`. -/
def paidSeconds (l : Lease) : ℤ := (l.ledger.map Ledger.paidSeconds).getD 0

/-- How much of the chosen session length is still to be bought. -/
def unpaidSeconds (l : Lease) : ℤ :=
  if l.sessionSeconds ≤ 0 then 0 else max (l.sessionSeconds - l.paidSeconds) 0

/-- Every chunk of the chosen session length has been bought. -/
def fullyPaid (l : Lease) : Bool := 0 < l.sessionSeconds ∧ l.sessionSeconds ≤ l.paidSeconds

/-- How long the lease has been frozen, or 0 if it is not. -/
def pausedFor (now : ℤ) (l : Lease) : ℤ :=
  match l.pausedAt with
  | none => 0
  | some t => Duration.sub now t

/-- How far past its paid expiry the lease is. -/
def overdueBy (now : ℤ) (l : Lease) : ℤ := Duration.sub now l.expiresAt

/-! ### Operations -/

/-- Keep `expiresAt` equal to what the credit buys; once it buys nothing, the expiry stays pinned
at the tick that ran it out. -/
def syncExpiry (l : Lease) : Lease :=
  match l.ledger with
  | none => l
  | some g =>
    let l :=
      if 0 < g.secondsRemaining then
        { l with
          exhausted := false
          expiresAt := l.lastTickAt + Duration.ofSeconds g.secondsRemaining }
      else if l.exhausted then l
      else { l with exhausted := true, expiresAt := l.lastTickAt }
    if 0 < g.pricePerSecond then { l with paidMinutes := (g.paidSeconds + 59).tdiv 60 } else l

/-- Turn the lease into a metered session. -/
def markMetered (now : ℤ) (sessionID payer : String) (pricePerSecond credit : ℤ) (l : Lease) :
    Lease :=
  syncExpiry { l with
    sessionID
    payer
    ledger := some { pricePerSecond, credit, burned := 0 }
    lastTickAt := now
    settleState := .pending }

/-- Bank another paid chunk; without a ledger, nothing happens. -/
def addCredit (amount : ℤ) (l : Lease) : Lease :=
  match l.ledger with
  | none => l
  | some g => syncExpiry { l with ledger := some (g.pay amount) }

/-- Charge the session for the time since the last tick.  Returns what was burned and the credit
remaining. -/
def burn (now : ℤ) (l : Lease) : Lease × ℤ × ℤ :=
  match l.ledger with
  | none => (l, 0, 0)
  | some g =>
    let elapsed := Duration.sub now l.lastTickAt
    -- the clock moves before the sign of `elapsed` is looked at
    if elapsed ≤ 0 then ({ l with lastTickAt := now }, 0, g.credit)
    else
      let charge := g.charge elapsed
      (syncExpiry { l with lastTickAt := now, ledger := some (g.spend charge) },
        charge, g.credit - charge)

/-- `SetSessionLength`. -/
def setSessionLength (seconds : ℤ) (l : Lease) : Lease := { l with sessionSeconds := seconds }

/-- Record that `refunded` has been returned to the renter, and zero the credit. -/
def markSettled (refunded : ℤ) (l : Lease) : Lease :=
  if l.settleState = .notApplicable then l
  else
    { l with
      settleState := .done
      refunded := some refunded
      ledger := l.ledger.map fun g => { g with credit := 0 } }

/-- A terminal status is final. -/
def setStatus (status : LeaseStatus) (l : Lease) : Lease :=
  if l.status.isTerminal then l else { l with status }

/-- A lease that is over stays what it is. -/
def fail (err : String) (l : Lease) : Lease :=
  if l.status.isTerminal then l else { l with status := .failed, err }

/-- The locked part of `Runner.PauseLease`. -/
def pause (now : ℤ) (l : Lease) : Lease :=
  if l.status ≠ .active then l else { l with pausedAt := some now, status := .paused }

/-- The locked part of `Runner.ResumeLease`: the meter's clock restarts with the thaw. -/
def resume (now : ℤ) (l : Lease) : Lease :=
  if l.status ≠ .paused then l
  else syncExpiry { l with pausedAt := none, status := .active, lastTickAt := now }

/-- The locked part of `Runner.StopLease`. -/
def stop (status : LeaseStatus) (l : Lease) : Lease :=
  if l.status.isTerminal then l else { l with status }

/-- `provisionLease` stores the id of the container it created. -/
def setContainer (containerID : String) (l : Lease) : Lease := { l with containerID }

end Lease

/-- The operations that hold `lease.mu`. -/
inductive LeaseOp
  | markMetered (now : ℤ) (sessionID payer : String) (pricePerSecond credit : ℤ)
  | addCredit (amount : ℤ)
  | burn (now : ℤ)
  | setSessionLength (seconds : ℤ)
  | markSettled (refunded : ℤ)
  | setStatus (status : LeaseStatus)
  | fail (err : String)
  | pause (now : ℤ)
  | resume (now : ℤ)
  | stop (status : LeaseStatus)
  | setContainer (containerID : String)
  deriving DecidableEq, Repr

namespace Lease

/-- What an operation does to the lease. -/
def apply (l : Lease) : LeaseOp → Lease
  | .markMetered now sessionID payer pricePerSecond credit =>
    l.markMetered now sessionID payer pricePerSecond credit
  | .addCredit amount => l.addCredit amount
  | .burn now => (l.burn now).1
  | .setSessionLength seconds => l.setSessionLength seconds
  | .markSettled refunded => l.markSettled refunded
  | .setStatus status => l.setStatus status
  | .fail err => l.fail err
  | .pause now => l.pause now
  | .resume now => l.resume now
  | .stop status => l.stop status
  | .setContainer containerID => l.setContainer containerID

/-- A sequence of operations. -/
def run (l : Lease) (ops : List LeaseOp) : Lease := ops.foldl apply l

@[simp] theorem run_nil (l : Lease) : l.run [] = l := rfl

@[simp] theorem run_cons (l : Lease) (op : LeaseOp) (ops : List LeaseOp) :
    l.run (op :: ops) = (l.apply op).run ops := rfl

theorem run_append (l : Lease) (ops ops' : List LeaseOp) :
    l.run (ops ++ ops') = (l.run ops).run ops' := List.foldl_append ..

/-! ### What each operation touches -/

section Sync

variable (l : Lease)

/-- Synchronizing touches `expiresAt`, `exhausted` and `paidMinutes` only. -/
theorem syncExpiry_eq : ∃ e x m, l.syncExpiry =
    { l with expiresAt := e, exhausted := x, paidMinutes := m } := by
  unfold syncExpiry
  split
  · exact ⟨_, _, _, rfl⟩
  · split_ifs <;> exact ⟨_, _, _, rfl⟩

@[simp] theorem status_syncExpiry : l.syncExpiry.status = l.status := by
  obtain ⟨e, x, m, h⟩ := l.syncExpiry_eq; rw [h]
@[simp] theorem sessionID_syncExpiry : l.syncExpiry.sessionID = l.sessionID := by
  obtain ⟨e, x, m, h⟩ := l.syncExpiry_eq; rw [h]
@[simp] theorem payer_syncExpiry : l.syncExpiry.payer = l.payer := by
  obtain ⟨e, x, m, h⟩ := l.syncExpiry_eq; rw [h]
@[simp] theorem ledger_syncExpiry : l.syncExpiry.ledger = l.ledger := by
  obtain ⟨e, x, m, h⟩ := l.syncExpiry_eq; rw [h]
@[simp] theorem settleState_syncExpiry : l.syncExpiry.settleState = l.settleState := by
  obtain ⟨e, x, m, h⟩ := l.syncExpiry_eq; rw [h]
@[simp] theorem lastTickAt_syncExpiry : l.syncExpiry.lastTickAt = l.lastTickAt := by
  obtain ⟨e, x, m, h⟩ := l.syncExpiry_eq; rw [h]

end Sync

/-- The charge of a burn at `now`: nothing unless time has passed since the last tick. -/
def chargeAt (now : ℤ) (l : Lease) (g : Ledger) : ℤ :=
  if Duration.sub now l.lastTickAt ≤ 0 then 0 else g.charge (Duration.sub now l.lastTickAt)

/-- **The ledger after an operation.** -/
theorem ledger_apply (l : Lease) (op : LeaseOp) :
    (l.apply op).ledger = match op with
      | .markMetered _ _ _ p c => some { pricePerSecond := p, credit := c, burned := 0 }
      | .addCredit a => l.ledger.map (·.pay a)
      | .burn now => l.ledger.map fun g => g.spend (l.chargeAt now g)
      | .markSettled _ =>
        if l.settleState = .notApplicable then l.ledger
        else l.ledger.map fun g => { g with credit := 0 }
      | _ => l.ledger := by
  cases op with
  | markMetered now s y p c => simp [apply, markMetered]
  | addCredit a => cases h : l.ledger <;> simp [apply, addCredit, h]
  | burn now =>
    cases h : l.ledger with
    | none => simp [apply, burn, h]
    | some g =>
      simp only [apply, burn, h, Option.map_some, chargeAt]
      split_ifs <;> simp [Ledger.spend]
  | markSettled r => simp only [apply, markSettled]; split_ifs <;> rfl
  | setStatus s => simp only [apply, setStatus]; split_ifs <;> rfl
  | fail e => simp only [apply, fail]; split_ifs <;> rfl
  | pause now => simp only [apply, pause]; split_ifs <;> rfl
  | resume now => simp only [apply, resume]; split_ifs <;> simp
  | stop s => simp only [apply, stop]; split_ifs <;> rfl
  | setSessionLength n => rfl
  | setContainer c => rfl

/-- **The status after an operation.** -/
theorem status_apply (l : Lease) (op : LeaseOp) :
    (l.apply op).status = match op with
      | .setStatus s | .stop s => if l.status.isTerminal then l.status else s
      | .fail _ => if l.status.isTerminal then l.status else .failed
      | .pause _ => if l.status = .active then .paused else l.status
      | .resume _ => if l.status = .paused then .active else l.status
      | _ => l.status := by
  cases op with
  | markMetered now s y p c => simp [apply, markMetered]
  | addCredit a => simp only [apply, addCredit]; split <;> simp
  | burn now => simp only [apply, burn]; split <;> [rfl; (split_ifs <;> simp)]
  | markSettled r => simp only [apply, markSettled]; split_ifs <;> rfl
  | setStatus s => simp only [apply, setStatus]; split_ifs <;> rfl
  | fail e => simp only [apply, fail]; split_ifs <;> rfl
  | pause now => simp only [apply, pause]; split_ifs <;> simp_all
  | resume now => simp only [apply, resume]; split_ifs <;> simp_all
  | stop s => simp only [apply, stop]; split_ifs <;> rfl
  | setSessionLength n => rfl
  | setContainer c => rfl

/-- What `addCredit` may set. -/
theorem addCredit_eq (l : Lease) (a : ℤ) :
    ∃ expiresAt paidMinutes ledger exhausted,
      l.addCredit a = { l with expiresAt, paidMinutes, ledger, exhausted } := by
  cases hg : l.ledger with
  | none =>
    simp only [addCredit, hg]
    exact ⟨_, _, _, _, rfl⟩
  | some g =>
    obtain ⟨e, x, m, h⟩ := syncExpiry_eq { l with ledger := some (g.pay a) }
    simp only [addCredit, hg, h]
    exact ⟨_, _, _, _, rfl⟩

/-- What `burn` may set. -/
theorem burn_eq (l : Lease) (now : ℤ) :
    ∃ expiresAt paidMinutes ledger lastTickAt exhausted,
      (l.burn now).1 = { l with expiresAt, paidMinutes, ledger, lastTickAt, exhausted } := by
  cases hg : l.ledger with
  | none =>
    simp only [burn, hg]
    exact ⟨_, _, _, _, _, rfl⟩
  | some g =>
    simp only [burn, hg]
    split_ifs
    · exact ⟨_, _, _, _, _, rfl⟩
    · obtain ⟨e, x, m, h⟩ := syncExpiry_eq { l with
        lastTickAt := now
        ledger := some (g.spend (g.charge (Duration.sub now l.lastTickAt))) }
      rw [h]
      exact ⟨_, _, _, _, _, rfl⟩

/-- What `resume` may set. -/
theorem resume_eq (l : Lease) (now : ℤ) :
    ∃ status expiresAt paidMinutes pausedAt lastTickAt exhausted, l.resume now =
      { l with status, expiresAt, paidMinutes, pausedAt, lastTickAt, exhausted } := by
  simp only [resume]
  split_ifs
  · exact ⟨_, _, _, _, _, _, rfl⟩
  · obtain ⟨e, x, m, h⟩ := syncExpiry_eq { l with
      pausedAt := none
      status := .active
      lastTickAt := now }
    rw [h]
    exact ⟨_, _, _, _, _, _, rfl⟩

/-- **An operation**, seen from the fields that only one or two of them set. -/
theorem apply_eq (l : Lease) (op : LeaseOp) :
    ∃ status expiresAt paidMinutes pausedAt err payer ledger lastTickAt exhausted, l.apply op =
      { l with
        status, expiresAt, paidMinutes, pausedAt, err, payer, ledger, lastTickAt, exhausted
        containerID := match op with
          | .setContainer c => c
          | _ => l.containerID
        sessionID := match op with
          | .markMetered _ sessionID _ _ _ => sessionID
          | _ => l.sessionID
        sessionSeconds := match op with
          | .setSessionLength n => n
          | _ => l.sessionSeconds
        settleState := match op with
          | .markMetered _ _ _ _ _ => .pending
          | .markSettled _ => if l.settleState = .notApplicable then .notApplicable else .done
          | _ => l.settleState
        refunded := match op with
          | .markSettled r => if l.settleState = .notApplicable then l.refunded else some r
          | _ => l.refunded } := by
  cases op with
  | markMetered now s y p c =>
    obtain ⟨e, x, m, h⟩ := syncExpiry_eq { l with
      sessionID := s
      payer := y
      ledger := some { pricePerSecond := p, credit := c, burned := 0 }
      lastTickAt := now
      settleState := .pending }
    exact ⟨_, _, _, _, _, _, _, _, _, h⟩
  | addCredit a =>
    obtain ⟨_, _, _, _, h⟩ := l.addCredit_eq a
    exact ⟨_, _, _, _, _, _, _, _, _, h⟩
  | burn now =>
    obtain ⟨_, _, _, _, _, h⟩ := l.burn_eq now
    exact ⟨_, _, _, _, _, _, _, _, _, h⟩
  | resume now =>
    obtain ⟨_, _, _, _, _, _, h⟩ := l.resume_eq now
    exact ⟨_, _, _, _, _, _, _, _, _, h⟩
  | markSettled r =>
    simp only [apply, markSettled]
    split_ifs with hs
    · exact ⟨_, _, _, _, _, _, _, _, _, by rw [← hs]⟩
    · exact ⟨_, _, _, _, _, _, _, _, _, rfl⟩
  | setStatus s =>
    simp only [apply, setStatus]
    split_ifs <;> exact ⟨_, _, _, _, _, _, _, _, _, rfl⟩
  | fail e =>
    simp only [apply, fail]
    split_ifs <;> exact ⟨_, _, _, _, _, _, _, _, _, rfl⟩
  | pause now =>
    simp only [apply, pause]
    split_ifs <;> exact ⟨_, _, _, _, _, _, _, _, _, rfl⟩
  | stop s =>
    simp only [apply, stop]
    split_ifs <;> exact ⟨_, _, _, _, _, _, _, _, _, rfl⟩
  | setSessionLength n => exact ⟨_, _, _, _, _, _, _, _, _, rfl⟩
  | setContainer c => exact ⟨_, _, _, _, _, _, _, _, _, rfl⟩

/-- **The settle state after an operation.** -/
theorem settleState_apply (l : Lease) (op : LeaseOp) :
    (l.apply op).settleState = match op with
      | .markMetered _ _ _ _ _ => .pending
      | .markSettled _ =>
        if l.settleState = .notApplicable then .notApplicable else .done
      | _ => l.settleState := by
  obtain ⟨_, _, _, _, _, _, _, _, _, h⟩ := l.apply_eq op
  rw [h]

/-- **The meter's clock after an operation.** -/
theorem lastTickAt_apply (l : Lease) (op : LeaseOp) :
    (l.apply op).lastTickAt = match op with
      | .markMetered now _ _ _ _ => now
      | .burn now => if l.ledger = none then l.lastTickAt else now
      | .resume now => if l.status = .paused then now else l.lastTickAt
      | _ => l.lastTickAt := by
  cases op with
  | markMetered now s y p c => simp [apply, markMetered]
  | addCredit a => simp only [apply, addCredit]; split <;> simp
  | burn now =>
    cases h : l.ledger with
    | none => simp [apply, burn, h]
    | some g => simp only [apply, burn, h]; split_ifs <;> simp_all
  | markSettled r => simp only [apply, markSettled]; split_ifs <;> rfl
  | setStatus s => simp only [apply, setStatus]; split_ifs <;> rfl
  | fail e => simp only [apply, fail]; split_ifs <;> rfl
  | pause now => simp only [apply, pause]; split_ifs <;> rfl
  | resume now => simp only [apply, resume]; split_ifs <;> simp_all
  | stop s => simp only [apply, stop]; split_ifs <;> rfl
  | setSessionLength n => rfl
  | setContainer c => rfl

/-- **The session id after an operation.** -/
theorem sessionID_apply (l : Lease) (op : LeaseOp) :
    (l.apply op).sessionID = match op with
      | .markMetered _ sessionID _ _ _ => sessionID
      | _ => l.sessionID := by
  obtain ⟨_, _, _, _, _, _, _, _, _, h⟩ := l.apply_eq op
  rw [h]

/-- **The session length after an operation.** -/
theorem sessionSeconds_apply (l : Lease) (op : LeaseOp) :
    (l.apply op).sessionSeconds = match op with
      | .setSessionLength n => n
      | _ => l.sessionSeconds := by
  obtain ⟨_, _, _, _, _, _, _, _, _, h⟩ := l.apply_eq op
  rw [h]

/-- **The container after an operation.** -/
theorem containerID_apply (l : Lease) (op : LeaseOp) :
    (l.apply op).containerID = match op with
      | .setContainer c => c
      | _ => l.containerID := by
  obtain ⟨_, _, _, _, _, _, _, _, _, h⟩ := l.apply_eq op
  rw [h]

/-- **The refund after an operation.** -/
theorem refunded_apply (l : Lease) (op : LeaseOp) :
    (l.apply op).refunded = match op with
      | .markSettled r => if l.settleState = .notApplicable then l.refunded else some r
      | _ => l.refunded := by
  obtain ⟨_, _, _, _, _, _, _, _, _, h⟩ := l.apply_eq op
  rw [h]

/-- The end is final. -/
theorem status_apply_of_isTerminal {l : Lease} (h : l.status.isTerminal) (op : LeaseOp) :
    (l.apply op).status = l.status := by
  have ha : l.status ≠ .active := fun hs => by simp [hs, LeaseStatus.isTerminal] at h
  have hp : l.status ≠ .paused := fun hs => by simp [hs, LeaseStatus.isTerminal] at h
  rw [status_apply]
  cases op <;> simp only [h, ha, hp, if_true, if_false]

theorem isTerminal_apply {l : Lease} (h : l.status.isTerminal) (op : LeaseOp) :
    (l.apply op).status.isTerminal := by
  rw [status_apply_of_isTerminal h, h]

end Lease

/-! ### Well-formed leases -/

/-- The amounts are amounts. -/
structure Ledger.Sound (g : Ledger) : Prop where
  price : 0 ≤ g.pricePerSecond
  credit : 0 ≤ g.credit
  burned : 0 ≤ g.burned

/-- Nothing is settled before the ledger is in use, and everything has a session and a settle state
after. -/
structure Lease.Sound (l : Lease) : Prop where
  unmetered : l.ledger = none → l.settleState = .notApplicable ∧ l.sessionID = ""
  metered : ∀ g, l.ledger = some g → l.settleState ≠ .notApplicable ∧ l.sessionID ≠ "" ∧ g.Sound

/-- `MarkMetered` is called once, with a session id, and amounts are amounts. -/
def LeaseOp.Allowed (l : Lease) : LeaseOp → Prop
  | .markMetered _ sessionID _ pricePerSecond credit =>
    l.ledger = none ∧ sessionID ≠ "" ∧ 0 ≤ pricePerSecond ∧ 0 ≤ credit
  | .addCredit amount => 0 ≤ amount
  | _ => True

theorem Ledger.Sound.charge {g : Ledger} (h : g.Sound) {elapsed : ℤ} (he : 0 ≤ elapsed) :
    0 ≤ g.charge elapsed ∧ g.charge elapsed ≤ g.credit := by
  have := mul_nonneg h.price (Duration.wholeSeconds_nonneg he)
  have := h.credit
  unfold Ledger.charge
  split_ifs <;> omega

theorem Ledger.Sound.chargeAt {g : Ledger} (h : g.Sound) (now : ℤ) (l : Lease) :
    0 ≤ l.chargeAt now g ∧ l.chargeAt now g ≤ g.credit := by
  unfold Lease.chargeAt
  split_ifs with hd
  · exact ⟨le_rfl, h.credit⟩
  · exact h.charge (not_le.1 hd).le

theorem Ledger.Sound.spend {g : Ledger} (h : g.Sound) (now : ℤ) (l : Lease) :
    (g.spend (l.chargeAt now g)).Sound := by
  obtain ⟨h0, h1⟩ := h.chargeAt now l
  exact ⟨h.price, sub_nonneg.2 h1, add_nonneg h.burned h0⟩

theorem Ledger.Sound.pay {g : Ledger} (h : g.Sound) {amount : ℤ} (ha : 0 ≤ amount) :
    (g.pay amount).Sound :=
  ⟨h.price, add_nonneg h.credit ha, h.burned⟩

namespace Lease

theorem sound_provisioning (token : String) (expiresAt paidMinutes : ℤ) :
    (provisioning token expiresAt paidMinutes).Sound :=
  ⟨fun _ => ⟨rfl, rfl⟩, fun _ h => by cases h⟩

/-- An operation does not take the ledger away. -/
theorem ledger_apply_ne_none {l : Lease} (h : l.ledger ≠ none) (op : LeaseOp) :
    (l.apply op).ledger ≠ none := by
  rw [ledger_apply]
  cases op with
  | markSettled r => dsimp only; split_ifs <;> simp [h]
  | _ => simp [h]

/-- Only `MarkMetered` brings one. -/
theorem ledger_apply_eq_none {l : Lease} (h : l.ledger = none) {op : LeaseOp}
    (hop : ∀ now s y p c, op ≠ .markMetered now s y p c) : (l.apply op).ledger = none := by
  rw [ledger_apply]
  cases op with
  | markMetered now s y p c => exact absurd rfl (hop now s y p c)
  | markSettled r => dsimp only; split_ifs <;> simp [h]
  | _ => simp [h]

/-- **An allowed operation keeps a lease sound.** -/
theorem Sound.apply {l : Lease} (h : l.Sound) {op : LeaseOp} (hop : op.Allowed l) :
    (l.apply op).Sound := by
  cases hl : l.ledger with
  | none =>
    obtain ⟨hs, hid⟩ := h.unmetered hl
    cases op with
    | markMetered now sessionID payer p c =>
      obtain ⟨-, hsid, hp, hc⟩ := hop
      refine ⟨fun hn => by simp [ledger_apply] at hn, fun g hg => ?_⟩
      rw [ledger_apply] at hg
      cases hg
      exact ⟨by simp [settleState_apply], by simpa [sessionID_apply] using hsid,
        ⟨hp, hc, le_rfl⟩⟩
    | _ =>
      refine ⟨fun _ => by simp [settleState_apply, sessionID_apply, hs, hid], fun g hg => ?_⟩
      exact absurd hg (by simp [ledger_apply, hl, hs])
  | some g =>
    obtain ⟨hs, hid, hg⟩ := h.metered g hl
    refine ⟨fun hn => absurd hn (ledger_apply_ne_none (by simp [hl]) op), fun g' hg' => ?_⟩
    rw [ledger_apply, hl] at hg'
    cases op with
    | markMetered => simp [LeaseOp.Allowed, hl] at hop
    | addCredit a =>
      cases hg'
      exact ⟨by rwa [settleState_apply], by rwa [sessionID_apply], hg.pay hop⟩
    | burn now =>
      cases hg'
      exact ⟨by rwa [settleState_apply], by rwa [sessionID_apply], hg.spend now l⟩
    | markSettled r =>
      simp only [hs, if_false, Option.map_some, Option.some.injEq] at hg'
      subst hg'
      exact ⟨by simp [settleState_apply, hs], by rwa [sessionID_apply],
        ⟨hg.price, le_rfl, hg.burned⟩⟩
    | _ =>
      cases hg'
      exact ⟨by rwa [settleState_apply], by rwa [sessionID_apply], hg⟩

end Lease
end Mach402
