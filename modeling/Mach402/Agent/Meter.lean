import Mach402.Agent.Lease
import Mach402.Library.Purse
import Mach402.Library.Transition

/-!
# The meter

What the operations on a lease do to its money.  The ledger is a purse: `Ledger.Counts` says that
the amounts of a ledger are a purse of units of `k` tinybars, and every operation before the
settlement is an operation on the purse (`Lease.Counts.apply`).

* counted in whole seconds of the price, the purse gives the conservation of the ledger;
* counted in tinybars, it gives the charge of a sequence of ticks, which depends on where the ticks
  fall: each one drops the part of its interval under a second (`rests`);
* `Watched` adds to a lease the moment from which it is charged and the latest clock reading a tick
  has brought, which bounds the charge as long as no tick brings an older reading than the last.
-/

namespace Mach402

/-! ### Counting in units -/

/-- The ledger counted in units of `k` tinybars: `r` units a second, and the purse `x`. -/
structure Ledger.Counts (k r : ℕ) (x : Purse ℕ) (g : Ledger) : Prop where
  price : g.pricePerSecond = k * r
  credit : g.credit = k * x.left
  burned : g.burned = k * x.spent

namespace Ledger.Counts

variable {k r : ℕ} {x : Purse ℕ} {g : Ledger}

theorem pay (h : g.Counts k r x) (n : ℕ) : (g.pay (k * n)).Counts k r (x.pay n) where
  price := h.price
  credit := by simp [Ledger.pay, h.credit, mul_add]
  burned := h.burned

theorem charge_eq (h : g.Counts k r x) {d : ℤ} (hd : 0 ≤ d) :
    g.charge d = k * min (r * (Duration.wholeSeconds d).toNat) x.left := by
  have hw := Int.toNat_of_nonneg (Duration.wholeSeconds_nonneg hd)
  have hprice : g.pricePerSecond * Duration.wholeSeconds d =
      ((k * (r * (Duration.wholeSeconds d).toNat) : ℕ) : ℤ) := by
    rw [h.price]; push_cast; rw [hw]; ring
  have hcredit : g.credit = ((k * x.left : ℕ) : ℤ) := by rw [h.credit]; push_cast; rfl
  rw [Ledger.charge, hprice, hcredit, ← Nat.cast_mul, ← Nat.mul_min_mul_left]
  split_ifs with hlt
  · rw [min_eq_right (by exact_mod_cast hlt.le)]
  · rw [min_eq_left (by exact_mod_cast not_lt.1 hlt)]

theorem spend (h : g.Counts k r x) (n : ℕ) :
    (g.spend (k * min n x.left)).Counts k r (x.spend n) where
  price := h.price
  credit := by
    have : min n x.left ≤ x.left := min_le_right _ _
    simp [Ledger.spend, h.credit]
    ring
  burned := by simp [Ledger.spend, h.burned]; ring

end Ledger.Counts

namespace Lease

/-- The whole seconds a burn at `now` closes. -/
def secondsSince (now : ℤ) (l : Lease) : ℕ :=
  if Duration.sub now l.lastTickAt ≤ 0 then 0
  else (Duration.wholeSeconds (Duration.sub now l.lastTickAt)).toNat

/-- The lease is metered, and its ledger counts as `x`. -/
def Counts (k r : ℕ) (x : Purse ℕ) (l : Lease) : Prop :=
  ∃ g, l.ledger = some g ∧ g.Counts k r x

end Lease

/-- What an operation pays into a lease. -/
def LeaseOp.amount : LeaseOp → ℤ
  | .addCredit amount => amount
  | _ => 0

/-- An operation between `MarkMetered` and `MarkSettled`, whose payment is `n` times `k`. -/
def LeaseOp.Banks (k : ℕ) : LeaseOp → Prop
  | .addCredit amount => ∃ n : ℕ, amount = k * n
  | .markMetered .. | .markSettled _ => False
  | _ => True

namespace Lease.Counts

variable {k r : ℕ} {x : Purse ℕ} {l : Lease}

theorem credit_eq (h : l.Counts k r x) : l.credit = k * x.left := by
  obtain ⟨g, hg, h⟩ := h
  simp [Lease.credit, hg, h.credit]

theorem burned_eq (h : l.Counts k r x) : l.burned = k * x.spent := by
  obtain ⟨g, hg, h⟩ := h
  simp [Lease.burned, hg, h.burned]

/-- A burn spends the seconds it closes. -/
theorem burn (h : l.Counts k r x) (now : ℤ) :
    (l.apply (.burn now)).Counts k r (x.spend (r * l.secondsSince now)) := by
  obtain ⟨g, hg, h⟩ := h
  refine ⟨g.spend (l.chargeAt now g), by simp [ledger_apply, hg], ?_⟩
  have hcharge : l.chargeAt now g = k * min (r * l.secondsSince now) x.left := by
    unfold chargeAt secondsSince
    split_ifs with hd
    · simp
    · exact h.charge_eq (not_le.1 hd).le
  rw [hcharge]
  exact h.spend _

/-- **Every operation before the settlement is one on the purse**: it adds what is paid in to the
total and takes nothing back from what is spent. -/
theorem apply (h : l.Counts k r x) {op : LeaseOp} (hop : op.Banks k) :
    ∃ y : Purse ℕ, (l.apply op).Counts k r y ∧ (k * y.total : ℤ) = k * x.total + op.amount ∧
      x.spent ≤ y.spent := by
  have hsame : (l.apply op).ledger = l.ledger → op.amount = 0 →
      ∃ y : Purse ℕ, (l.apply op).Counts k r y ∧ (k * y.total : ℤ) = k * x.total + op.amount ∧
        x.spent ≤ y.spent := fun hl ha => ⟨x, by rwa [Counts, hl], by simp [ha], le_rfl⟩
  cases op with
  | addCredit a =>
    obtain ⟨n, rfl⟩ := hop
    obtain ⟨g, hg, h⟩ := h
    refine ⟨x.pay n, ⟨g.pay (k * n), by simp [ledger_apply, hg], h.pay n⟩, ?_, le_rfl⟩
    simp [LeaseOp.amount, mul_add]
  | burn now => exact ⟨_, h.burn now, by simp [LeaseOp.amount], by simp⟩
  | markMetered | markSettled => exact hop.elim
  | setSessionLength | setStatus | fail | pause | resume | stop | setContainer =>
    exact hsame (ledger_apply l _) rfl

/-- A run of such operations. -/
theorem run (h : l.Counts k r x) {ops : List LeaseOp} (hops : ∀ op ∈ ops, op.Banks k) :
    ∃ y : Purse ℕ, (l.run ops).Counts k r y ∧
      (k * y.total : ℤ) = k * x.total + (ops.map LeaseOp.amount).sum ∧ x.spent ≤ y.spent := by
  induction ops generalizing l x with
  | nil => exact ⟨x, h, by simp, le_rfl⟩
  | cons op ops ih =>
    obtain ⟨y, hy, htot, hle⟩ := h.apply (hops op (by simp))
    obtain ⟨z, hz, htot', hle'⟩ := ih hy fun op' hop' => hops op' (by simp [hop'])
    refine ⟨z, hz, ?_, hle.trans hle'⟩
    rw [htot', htot, List.map_cons, List.sum_cons, add_assoc]

/-- Counted in seconds of the price, the time shown is the money. -/
theorem seconds (h : l.Counts k 1 x) (hk : 0 < k) :
    l.secondsRemaining = x.left ∧ l.paidSeconds = x.total := by
  obtain ⟨g, hg, h⟩ := h
  have hp : g.pricePerSecond = k := by simp [h.price]
  have hk' : (k : ℤ) ≠ 0 := by exact_mod_cast hk.ne'
  have hpos : ¬ (k : ℤ) ≤ 0 := by exact_mod_cast hk.not_ge
  constructor
  · simp only [Lease.secondsRemaining, hg, Ledger.secondsRemaining, hp, h.credit, if_neg hpos,
      Option.map_some, Option.getD_some]
    exact Int.mul_ediv_cancel_left _ hk'
  · simp only [Lease.paidSeconds, hg, Ledger.paidSeconds, hp, h.credit, h.burned, if_neg hpos,
      Option.map_some, Option.getD_some, ← mul_add, Purse.total, Nat.cast_add]
    exact Int.mul_ediv_cancel_left _ hk'

end Lease.Counts

/-! ### Conservation -/

/-- `MarkMetered` with a price of `p` and a payment for `n` seconds. -/
theorem Lease.counts_markMetered (l : Lease) (now : ℤ) (sessionID payer : String) (p n : ℕ) :
    (l.markMetered now sessionID payer p (p * n)).Counts p 1 ⟨0, n⟩ :=
  ⟨_, ledger_apply l (.markMetered now sessionID payer p (p * n)), by constructor <;> simp⟩

/-- **Ledger conservation.**  From `MarkMetered` at a positive price to `MarkSettled`, with payments
that are multiples of the price: what is burned and what is left are all that was banked, nothing is
owed in reverse, the burned amount only grows, and time and money agree exactly. -/
theorem ledger_conserved (l : Lease) (now : ℤ) (sessionID payer : String) (p n : ℕ) (hp : 0 < p)
    (ops : List LeaseOp) (hops : ∀ op ∈ ops, op.Banks p) :
    let l' := (l.markMetered now sessionID payer p (p * n)).run ops
    let paid := p * n + (ops.map LeaseOp.amount).sum
    l'.burned + l'.credit = paid ∧ 0 ≤ l'.credit ∧ 0 ≤ l'.burned ∧ l'.burned ≤ paid ∧
      (∀ before after, ops = before ++ after →
        ((l.markMetered now sessionID payer p (p * n)).run before).burned ≤ l'.burned) ∧
      (p : ℤ) ∣ l'.credit ∧ (p : ℤ) ∣ l'.burned ∧
      l'.secondsRemaining * p = l'.credit ∧ l'.paidSeconds * p = paid := by
  intro l' paid
  have h0 := l.counts_markMetered now sessionID payer p n
  obtain ⟨y, hy, htot, -⟩ := h0.run hops
  obtain ⟨hrem, hpaid⟩ := hy.seconds hp
  have hsum : (p * y.total : ℤ) = paid := by simpa [Purse.total] using htot
  have hcredit : l'.credit = p * y.left := hy.credit_eq
  have hburned : l'.burned = p * y.spent := hy.burned_eq
  have htotal : l'.burned + l'.credit = paid := by
    rw [hcredit, hburned, ← hsum, Purse.total]; push_cast; ring
  have hcredit0 : 0 ≤ l'.credit := by rw [hcredit]; positivity
  refine ⟨htotal, hcredit0, by rw [hburned]; positivity, by omega, ?_, ⟨_, hcredit⟩, ⟨_, hburned⟩,
    by rw [hrem, hcredit, mul_comm], by rw [hpaid, ← hsum, mul_comm]⟩
  rintro before after rfl
  obtain ⟨z, hz, -, -⟩ := h0.run fun op hop => hops op (List.mem_append_left _ hop)
  obtain ⟨y', hy', -, hle⟩ := hz.run fun op hop => hops op (List.mem_append_right _ hop)
  rw [← Lease.run_append] at hy'
  rw [hz.burned_eq, hy'.burned_eq]
  exact_mod_cast Nat.mul_le_mul_left p hle

/-- Ten seconds at a price of two, a tick, a freeze and ten seconds more. -/
theorem ledger_conserved_two :
    let l := ((Lease.provisioning "t" 0 1).markMetered 0 "0x01" "0.0.1" 2 (2 * 10)).run
      [.burn 3000000000, .pause 3000000000, .addCredit (2 * 10)]
    l.credit = 34 ∧ l.burned + l.credit = 40 :=
  ⟨by decide +kernel, (ledger_conserved (Lease.provisioning "t" 0 1) 0 "0x01" "0.0.1" 2 10 two_pos
    [.burn 3000000000, .pause 3000000000, .addCredit (2 * 10)]
    (by simp only [LeaseOp.Banks, List.forall_mem_cons]; exact
      ⟨trivial, trivial, ⟨10, rfl⟩, by simp⟩)).1⟩

/-! ### Ticks -/

/-- A lease whose ledger is in use. -/
structure MeteredLease where
  lease : Lease
  ledger : Ledger
  metered : lease.ledger = some ledger
  sound : ledger.Sound

/-- The whole seconds of the intervals between `t₀` and successive ticks. -/
def wholeSecondsOf : ℤ → List ℤ → ℤ
  | _, [] => 0
  | t₀, t :: ts => Duration.wholeSeconds (Duration.sub t t₀) + wholeSecondsOf t ts

/-- What the intervals leave over: the time that the ticks pass without a charge. -/
def rests : ℤ → List ℤ → ℤ
  | _, [] => 0
  | t₀, t :: ts =>
    t - t₀ - Duration.second * Duration.wholeSeconds (Duration.sub t t₀) + rests t ts

/-- The last of `t₀` and the ticks after it. -/
def lastTick : ℤ → List ℤ → ℤ
  | t₀, [] => t₀
  | _, t :: ts => lastTick t ts

theorem le_lastTick {t₀ : ℤ} {ts : List ℤ} (h : (t₀ :: ts).IsChain (· ≤ ·)) :
    t₀ ≤ lastTick t₀ ts := by
  induction ts generalizing t₀ with
  | nil => exact le_rfl
  | cons t ts ih =>
    obtain ⟨hle, hts⟩ := List.isChain_cons_cons.1 h
    exact hle.trans (ih hts)

/-- The intervals make up the time from the first tick to the last. -/
theorem rests_add (t₀ : ℤ) (ts : List ℤ) :
    rests t₀ ts + Duration.second * wholeSecondsOf t₀ ts = lastTick t₀ ts - t₀ := by
  induction ts generalizing t₀ with
  | nil => simp [rests, wholeSecondsOf, lastTick]
  | cons t ts ih =>
    have := ih t
    simp only [rests, wholeSecondsOf, lastTick, mul_add]
    omega

/-- The intervals have as many whole seconds as the time they make up exactly if they leave less
than a second over. -/
theorem wholeSecondsOf_eq_iff (t₀ : ℤ) (ts : List ℤ) :
    wholeSecondsOf t₀ ts = (lastTick t₀ ts - t₀) / Duration.second ↔
      0 ≤ rests t₀ ts ∧ rests t₀ ts < Duration.second := by
  rw [← rests_add, eq_comm, Int.ediv_eq_iff_of_pos Duration.second_pos]
  constructor <;> rintro ⟨h, h'⟩ <;> constructor <;> linarith

namespace MeteredLease

/-- The ledger counts in tinybars. -/
theorem counts (m : MeteredLease) :
    m.lease.Counts 1 m.ledger.pricePerSecond.toNat
      ⟨m.ledger.burned.toNat, m.ledger.credit.toNat⟩ :=
  ⟨m.ledger, m.metered, by
    constructor <;> simp [m.sound.price, m.sound.credit, m.sound.burned]⟩

end MeteredLease

/-- A clock reading that is not older than the last tick closes the whole seconds in between. -/
theorem Lease.secondsSince_eq {l : Lease} {now : ℤ} (h : l.lastTickAt ≤ now) :
    (l.secondsSince now : ℤ) = Duration.wholeSeconds (Duration.sub now l.lastTickAt) := by
  rcases h.eq_or_lt with rfl | hlt
  · simp [secondsSince, Duration.sub, Duration.wholeSeconds_zero]
  · have hpos := Duration.sub_pos.2 hlt
    rw [secondsSince, if_neg (not_le.2 hpos),
      Int.toNat_of_nonneg (Duration.wholeSeconds_nonneg hpos.le)]

/-- Ticks in order spend the whole seconds of their intervals. -/
theorem Lease.Counts.ticks {k r : ℕ} {x : Purse ℕ} {l : Lease} (h : l.Counts k r x) {ts : List ℤ}
    (hts : (l.lastTickAt :: ts).IsChain (· ≤ ·)) :
    ∃ n : ℕ, (n : ℤ) = wholeSecondsOf l.lastTickAt ts ∧
      (l.run (ts.map .burn)).Counts k r (x.spend (r * n)) := by
  induction ts generalizing l x with
  | nil => exact ⟨0, rfl, by simpa using h⟩
  | cons t ts ih =>
    obtain ⟨hle, hts⟩ := List.isChain_cons_cons.1 hts
    have hlast : (l.apply (.burn t)).lastTickAt = t := by
      obtain ⟨g, hg, -⟩ := h
      simp [lastTickAt_apply, hg]
    obtain ⟨n, hn, hrun⟩ := ih (h.burn t) (by rwa [hlast])
    refine ⟨l.secondsSince t + n, ?_, ?_⟩
    · rw [Nat.cast_add, Lease.secondsSince_eq hle, hn, hlast, wholeSecondsOf]
    · rwa [mul_add, ← Purse.spend_spend]

/-- **What a sequence of ticks burns.** -/
theorem MeteredLease.burned_ticks (m : MeteredLease) (ts : List ℤ)
    (hts : (m.lease.lastTickAt :: ts).IsChain (· ≤ ·)) :
    (m.lease.run (ts.map .burn)).burned - m.lease.burned =
      min m.ledger.credit (m.ledger.pricePerSecond * wholeSecondsOf m.lease.lastTickAt ts) := by
  obtain ⟨n, hn, h⟩ := m.counts.ticks hts
  rw [h.burned_eq, m.counts.burned_eq, ← hn]
  simp only [Purse.spent_spend, Nat.cast_one, one_mul, Nat.cast_add, Nat.cast_min, Nat.cast_mul,
    Int.toNat_of_nonneg m.sound.price, Int.toNat_of_nonneg m.sound.credit]
  rw [add_sub_cancel_left, min_comm]

/-- **What a sequence of ticks charges, and when that is the charge of the whole time.**  It is, up
to the credit, exactly if the price is zero, or the intervals leave less than a second over in
all, or both ways of counting use the credit up.  One burn at the last tick does charge the whole
time. -/
theorem ticks_charge_iff (m : MeteredLease) (ts : List ℤ)
    (hts : (m.lease.lastTickAt :: ts).IsChain (· ≤ ·)) :
    let t₀ := m.lease.lastTickAt
    let price := m.ledger.pricePerSecond
    let credit := m.ledger.credit
    let time := lastTick t₀ ts - t₀
    ((m.lease.run (ts.map .burn)).burned - m.lease.burned =
        min credit (price * (time / Duration.second)) ↔
      price = 0 ∨ (0 ≤ rests t₀ ts ∧ rests t₀ ts < Duration.second) ∨
        (credit ≤ price * wholeSecondsOf t₀ ts ∧ credit ≤ price * (time / Duration.second))) ∧
    (time < 2 ^ 23 * Duration.second →
      (m.lease.apply (.burn (lastTick t₀ ts))).burned - m.lease.burned =
        min credit (price * (time / Duration.second))) := by
  intro t₀ price credit time
  have hmin : ∀ c a b : ℤ, min c a = min c b ↔ a = b ∨ (c ≤ a ∧ c ≤ b) := by omega
  have hle := le_lastTick hts
  constructor
  · rw [m.burned_ticks ts hts, hmin, mul_eq_mul_left_iff, wholeSecondsOf_eq_iff,
      or_comm (b := _ = 0), or_assoc]
  · intro htime
    have hsub : Duration.sub (lastTick t₀ ts) t₀ = time :=
      Duration.sub_eq hle (by simp only [Duration.second] at htime; omega)
    have hwhole : wholeSecondsOf t₀ [lastTick t₀ ts] = time / Duration.second := by
      rw [wholeSecondsOf, wholeSecondsOf, add_zero, hsub,
        Duration.wholeSeconds_eq (sub_nonneg.2 hle) htime]
    rw [← hwhole]
    exact m.burned_ticks [lastTick t₀ ts] (by simpa using hle)

/-- A fresh session at a price of one, with a hundred seconds paid. -/
def hundredSeconds : MeteredLease where
  lease := (Lease.provisioning "t" 0 1).markMetered 0 "0x01" "0.0.1" 1 100
  ledger := ⟨1, 100, 0⟩
  metered := by rfl
  sound := ⟨by decide, by decide, by decide⟩

/-- Ticks on the second lose nothing. -/
theorem ticks_charge_iff_seconds :
    (hundredSeconds.lease.run ([1000000000, 3000000000].map .burn)).burned -
      hundredSeconds.lease.burned = 3 :=
  (ticks_charge_iff hundredSeconds [1000000000, 3000000000] (by decide)).1.2
    (Or.inr (Or.inl (by decide +kernel)))

/-- **The rest is not carried over.**  Two ticks a second and a half apart charge two seconds for
three. -/
theorem not_ticks_charge :
    ¬ ∀ (m : MeteredLease) (ts : List ℤ), (m.lease.lastTickAt :: ts).IsChain (· ≤ ·) →
      (m.lease.run (ts.map .burn)).burned - m.lease.burned = min m.ledger.credit
        (m.ledger.pricePerSecond *
          ((lastTick m.lease.lastTickAt ts - m.lease.lastTickAt) / Duration.second)) := by
  intro h
  have h3 := h hundredSeconds [1500000000, 3000000000] (by decide)
  revert h3
  decide +kernel

/-! ### Clock readings out of order -/

/-- A lease with the moment its meter was last started, what was burned by then, and the latest
clock reading any burn has brought since. -/
structure Watched where
  lease : Lease
  since : ℤ
  base : ℤ
  latest : ℤ
  deriving DecidableEq, Repr

/-- One operation.  `MarkMetered` is called once. -/
def Watched.step (w : Watched) (op : LeaseOp) : Option Watched :=
  match op with
  | .markMetered .. => none
  | .burn now => some { w with lease := w.lease.apply op, latest := max w.latest now }
  | .resume now =>
    if w.lease.status = .paused then
      some { lease := w.lease.apply op, since := now, base := w.lease.burned, latest := now }
    else some { w with lease := w.lease.apply op }
  | _ => some { w with lease := w.lease.apply op }

/-- The life of a session from its `MarkMetered` on. -/
def session (l : Lease) (now : ℤ) (sessionID payer : String) (price : ℕ) (credit : ℤ) :
    System Watched LeaseOp where
  init := ⟨l.markMetered now sessionID payer price credit, now, 0, now⟩
  step := Watched.step

/-- A burn on time: its clock reading is not older than the last tick, and the interval it closes
has the whole seconds it is charged for. -/
def Watched.OnTime (w : Watched) : LeaseOp → Prop
  | .burn now => w.lease.lastTickAt ≤ now ∧ Duration.second *
      Duration.wholeSeconds (Duration.sub now w.lease.lastTickAt) ≤ now - w.lease.lastTickAt
  | _ => True

instance (w : Watched) : (op : LeaseOp) → Decidable (w.OnTime op)
  | .burn _ => inferInstanceAs (Decidable (_ ∧ _))
  | .markMetered .. | .addCredit _ | .setSessionLength _ | .markSettled _ | .setStatus _ | .fail _
  | .pause _ | .resume _ | .stop _ | .setContainer _ => inferInstanceAs (Decidable True)

/-- No interval under 97 days is charged for more whole seconds than it has. -/
theorem Watched.onTime_burn {w : Watched} {now : ℤ} (h : w.lease.lastTickAt ≤ now)
    (h' : now - w.lease.lastTickAt < 2 ^ 23 * Duration.second) : w.OnTime (.burn now) := by
  refine ⟨h, ?_⟩
  rw [Duration.sub_eq h (by simp only [Duration.second] at h'; omega),
    Duration.wholeSeconds_eq (sub_nonneg.2 h) h']
  exact Int.mul_ediv_self_le Duration.second_pos.ne'

/-- The bound of the charge, and what carries it: the meter's clock is the latest reading. -/
structure Watched.Bounded (price : ℕ) (w : Watched) : Prop where
  ledger : ∃ g, w.lease.ledger = some g ∧ g.pricePerSecond = price
  clock : w.lease.lastTickAt = w.latest
  charged : Duration.second * (w.lease.burned - w.base) ≤ price * (w.latest - w.since)

/-- A burn on time charges at most its interval. -/
theorem Lease.second_mul_chargeAt_le {l : Lease} {g : Ledger} {now : ℤ} {price : ℕ}
    (hg : g.pricePerSecond = price) (h : l.lastTickAt ≤ now)
    (h' : Duration.second * Duration.wholeSeconds (Duration.sub now l.lastTickAt) ≤
      now - l.lastTickAt) :
    Duration.second * l.chargeAt now g ≤ price * (now - l.lastTickAt) := by
  have hp : (0 : ℤ) ≤ price := Int.natCast_nonneg _
  unfold chargeAt
  split_ifs with hd
  · rw [mul_zero]
    exact mul_nonneg hp (sub_nonneg.2 h)
  · have hcharge : g.charge (Duration.sub now l.lastTickAt) ≤
        price * Duration.wholeSeconds (Duration.sub now l.lastTickAt) := by
      rw [Ledger.charge, hg]
      split_ifs with hlt
      · exact hlt.le
      · exact le_rfl
    calc Duration.second * g.charge (Duration.sub now l.lastTickAt)
        ≤ Duration.second * (price * Duration.wholeSeconds (Duration.sub now l.lastTickAt)) :=
          mul_le_mul_of_nonneg_left hcharge Duration.second_pos.le
      _ = price * (Duration.second * Duration.wholeSeconds (Duration.sub now l.lastTickAt)) := by
          ring
      _ ≤ price * (now - l.lastTickAt) := mul_le_mul_of_nonneg_left h' hp

namespace Watched.Bounded

variable {price : ℕ} {w : Watched}

/-- An operation that leaves the earnings and the clock alone. -/
theorem keep (h : w.Bounded price) {l : Lease}
    (hg : ∃ g, l.ledger = some g ∧ g.pricePerSecond = price) (hb : l.burned = w.lease.burned)
    (hc : l.lastTickAt = w.lease.lastTickAt) : ({ w with lease := l } : Watched).Bounded price where
  ledger := hg
  clock := hc.trans h.clock
  charged := by simpa only [hb] using h.charged

theorem keep_ledger (h : w.Bounded price) {l : Lease} (hl : l.ledger = w.lease.ledger)
    (hc : l.lastTickAt = w.lease.lastTickAt) : ({ w with lease := l } : Watched).Bounded price :=
  h.keep (by rw [hl]; exact h.ledger) (by rw [Lease.burned, hl]; rfl) hc

/-- One operation keeps the bound, if a burn is on time. -/
theorem step (h : w.Bounded price) {op : LeaseOp} (hop : w.OnTime op) {w' : Watched}
    (hs : w.step op = some w') : w'.Bounded price := by
  obtain ⟨g, hg, hp⟩ := h.ledger
  have hclock := h.clock
  have hcharged := h.charged
  cases op with
  | markMetered => cases hs
  | burn now =>
    cases hs
    obtain ⟨hle, hwhole⟩ := hop
    have hburn : (w.lease.apply (.burn now)).burned =
        w.lease.burned + w.lease.chargeAt now g := by
      simp [Lease.burned, Lease.ledger_apply, hg, Ledger.spend]
    have hcharge := Lease.second_mul_chargeAt_le hp hle hwhole
    have hmax : max w.latest now = now := max_eq_right (hclock ▸ hle)
    refine ⟨⟨g.spend (w.lease.chargeAt now g), by simp [Lease.ledger_apply, hg], hp⟩, ?_, ?_⟩
    · simp [Lease.lastTickAt_apply, hg, hmax]
    · simp only [hburn, hmax]
      rw [hclock] at hcharge
      linarith
  | resume now =>
    have hl : (w.lease.apply (.resume now)).ledger = w.lease.ledger := Lease.ledger_apply _ _
    simp only [Watched.step] at hs
    split_ifs at hs with hpaused
    · cases hs
      exact ⟨⟨g, hl.trans hg, hp⟩, by simp [Lease.lastTickAt_apply, hpaused],
        by simp [Lease.burned, hl]⟩
    · cases hs
      exact h.keep_ledger hl (by simp [Lease.lastTickAt_apply, hpaused])
  | addCredit a =>
    cases hs
    exact h.keep ⟨g.pay a, by simp [Lease.ledger_apply, hg], hp⟩
      (by simp [Lease.burned, Lease.ledger_apply, hg, Ledger.pay]) (Lease.lastTickAt_apply _ _)
  | markSettled r =>
    cases hs
    refine h.keep ?_ ?_ (Lease.lastTickAt_apply _ _)
    · rw [Lease.ledger_apply]
      split_ifs
      · exact ⟨g, hg, hp⟩
      · exact ⟨{ g with credit := 0 }, by simp [hg], hp⟩
    · rw [Lease.burned, Lease.ledger_apply, Lease.burned]
      split_ifs <;> simp [hg]
  | setSessionLength | setStatus | fail | pause | stop | setContainer =>
    cases hs
    exact h.keep_ledger (Lease.ledger_apply _ _) (Lease.lastTickAt_apply _ _)

end Watched.Bounded

/-- **No interval is charged twice while every burn is on time.**  What has been burned since the
meter was last started is at most the price of the time from then to the latest clock reading. -/
theorem burned_le_of_onTime (l : Lease) (now : ℤ) (sessionID payer : String) (price : ℕ)
    (credit : ℤ) {w : Watched}
    (h : (session l now sessionID payer price credit).Reach Watched.OnTime w) :
    Duration.second * (w.lease.burned - w.base) ≤ price * (w.latest - w.since) := by
  have hbounded := h.invariant (I := Watched.Bounded price) ?_
    fun _ _ _ _ hb hop hs => hb.step hop hs
  · exact hbounded.charged
  · have hl := Lease.ledger_apply l (.markMetered now sessionID payer price credit)
    refine ⟨⟨_, hl, rfl⟩, Lease.lastTickAt_apply l (.markMetered now sessionID payer price credit),
      ?_⟩
    have hb : (l.markMetered now sessionID payer price credit).burned = 0 := by
      rw [Lease.burned, show (l.markMetered now sessionID payer price credit).ledger = _ from hl]
      rfl
    simp [session, hb]

/-- Two burns in order, five seconds apart. -/
theorem burned_le_of_onTime_five :
    ∃ w, (session (Lease.provisioning "t" 0 1) 0 "0x01" "0.0.1" 1 100).Reach Watched.OnTime w ∧
      w.lease.burned = 10 ∧
        Duration.second * (w.lease.burned - w.base) ≤ 1 * (w.latest - w.since) := by
  obtain ⟨w, hw, hb⟩ := System.exists_reach (C := Watched.OnTime)
    (S := session (Lease.provisioning "t" 0 1) 0 "0x01" "0.0.1" 1 100)
    (p := fun w => w.lease.burned = 10) [.burn 5000000000, .burn 10000000000] (by decide +kernel)
  exact ⟨w, hw, by simpa using hb, by simpa using burned_le_of_onTime _ _ _ _ 1 _ hw⟩

/-- **A burn with an older clock reading charges twice.**  The readings are 10, 5 and 10 seconds;
fifteen seconds are charged for ten. -/
theorem not_burned_le :
    ¬ ∀ w, (session (Lease.provisioning "t" 0 1) 0 "0x01" "0.0.1" 1 100).Reachable w →
      Duration.second * (w.lease.burned - w.base) ≤ 1 * (w.latest - w.since) := by
  intro h
  obtain ⟨w, hw, hp⟩ := System.exists_reach (C := System.Any)
    (S := session (Lease.provisioning "t" 0 1) 0 "0x01" "0.0.1" 1 100)
    (p := fun w => ¬ Duration.second * (w.lease.burned - w.base) ≤ 1 * (w.latest - w.since))
    [.burn 10000000000, .burn 5000000000, .burn 10000000000] (by decide +kernel)
  exact of_decide_eq_true hp (h w hw)

end Mach402
