import Mach402.Agent.Config
import Mach402.Agent.Length
import Mathlib.Data.Rat.Floor

/-!
# Buying a session to its end

A session is opened with one chunk of its length and topped up chunk by chunk, while it is metered,
frozen and thawed.  `bought_to_the_end`: whatever length the node accepts, its opening chunk passes
the bounds of a lease, every top-up is offered the next chunk of what is left and stays under the
node's total cap, and it takes exactly `installments` payments to buy all of it.

* `bought`, `installments`: a length, bought in chunks;
* `Op.banks`: the operations that bank a payment;
* `Pc.Buys`: what a thread has been offered is the next chunk;
* `Node.Bought`: what the payments so far have bought.

Top-ups come one after the other, in the sense of `SoleTopUp`.
-/

namespace Mach402

/-! ### Installments -/

section Installments

variable {chunk length : ℤ} {n : ℕ}

/-- What `n` chunks buy of the length. -/
def bought (chunk length : ℤ) (n : ℕ) : ℤ := min (n * chunk) length

/-- How many chunks buy all of it. -/
def installments (chunk length : ℤ) : ℕ := ⌈(length : ℚ) / chunk⌉₊

theorem lt_installments (hc : 0 < chunk) : n < installments chunk length ↔ n * chunk < length := by
  have hq : (0 : ℚ) < chunk := by exact_mod_cast hc
  rw [installments, Nat.lt_ceil, lt_div_iff₀ hq]
  exact_mod_cast Iff.rfl

theorem bought_eq_length (hc : 0 < chunk) :
    bought chunk length n = length ↔ installments chunk length ≤ n := by
  rw [← not_lt, lt_installments hc, bought]
  omega

theorem bought_lt_length (hc : 0 < chunk) :
    bought chunk length n < length ↔ n < installments chunk length := by
  rw [lt_installments hc, bought]
  omega

/-- The next chunk, or the rest. -/
theorem bought_succ (hc : 0 < chunk) (h : n < installments chunk length) :
    bought chunk length (n + 1) =
      bought chunk length n + min chunk (length - bought chunk length n) := by
  have hlt := (lt_installments hc).1 h
  have hnext : ((n + 1 : ℕ) : ℤ) * chunk = n * chunk + chunk := by
    push_cast
    ring
  rw [bought, bought, hnext]
  omega

end Installments

/-! ### Bounds of the opening chunk -/

namespace Leases

/-- **The opening chunk** is as long as the lease behind it may be. -/
theorem validateMinutes_sessionChunk (leases : Leases) {seconds : ℤ}
    (h : leases.validateSessionSeconds seconds = none) :
    leases.validateMinutes (secondsToMinutes (leases.sessionChunk seconds)) = none := by
  have hmin := leases.minMinutes_pos
  have hge := leases.chunk_ge
  have hle := leases.chunk_le
  have hlen : leases.minMinutes * 60 ≤ seconds := by
    unfold validateSessionSeconds at h
    split_ifs at h
    omega
  have hpos := leases.sessionChunk_pos seconds
  rw [leases.sessionChunk_of_validate h] at hpos ⊢
  unfold validateMinutes secondsToMinutes
  simp only [Int.tmod_eq_emod_of_nonneg hpos.le, Int.tdiv_eq_ediv_of_nonneg hpos.le]
  split_ifs <;> first | rfl | omega

end Leases

/-! ### The price -/

/-- The price a session is opened at. -/
def Pc.price : Pc → Option ℕ
  | .collectPayment _ _ price | .mint _ _ price => some price
  | .startLease o | .claimSlot o _ | .provision o | .awaitJupyter o | .failLease o _
  | .activate o | .sign o | .pointAt o | .reachable o | .settleOpening o | .markMetered o _ _ =>
    some o.price
  | _ => none

section Price

variable {cfg : NodeConfig} {C : NodeGuard} {c : Machine.Config Node Pc}

@[simp] theorem Pc.price_of_returned {p : Pc} (h : p.returned) : p.price = none := by
  cases p <;> first | rfl | cases h

/-- It is the node's. -/
theorem act_price {s : Node} {p p' : Pc} {out : Outcome} {op : Op} {q : ℕ}
    (h : s.act cfg p out = some (op, p')) (hq : p'.price = some q) :
    p.price = some q ∨ cfg.leases.sessionPricePerSecond = .ok q := by
  cases p with
  | accepting seconds chunk =>
    simp only [Node.act] at h
    repeat' split at h
    all_goals cases h
    · cases hq
    · cases hq
    · rename_i hprice
      cases hq
      exact Or.inr hprice
  | _ =>
    simp only [Node.act] at h
    (repeat' split at h) <;> cases h <;> first | exact Or.inl hq | cases hq | simp at hq

theorem price_of_reach (h : (nodeSystem cfg).Reach C c) {i : ℕ} {p : Pc}
    (hp : c.threads[i]? = some p) {q : ℕ} (hq : p.price = some q) :
    cfg.leases.sessionPricePerSecond = .ok q :=
  Machine.always (M := node cfg)
    (Q := fun p => ∀ q, p.price = some q → cfg.leases.sessionPricePerSecond = .ok q)
    (fun r q hq => by cases r <;> cases hq)
    (fun _ _ _ _ _ hp ha q hq => (act_price ha hq).elim (hp q) id) h i p hp q hq

/-- **Every session is sold at the node's price.** -/
theorem pricePerSecond_of_reach (h : (nodeSystem cfg).Reach C c) {id : LeaseId}
    (hm : c.shared.Metered id) {q : ℕ} (hq : cfg.leases.sessionPricePerSecond = .ok q) :
    (c.shared.lease id).pricePerSecond = q := by
  have hall : ∀ r ∈ (c.shared.lease id).ledger.map Ledger.pricePerSecond, r = q := by
    refine Machine.shared_of_reach (M := node cfg)
      (I := fun s => ∀ r ∈ (s.lease id).ledger.map Ledger.pricePerSecond, r = q)
      (by simp [Node.lease, Node.initial, Lease.provisioning])
      (fun s e ih => by cases e <;> exact ih) (fun c i out p op p' hc hp _ ha ih => ?_) h
    have hop := allowed_of_reach hc hp ha
    change ∀ r ∈ ((c.shared.apply op).lease id).ledger.map Ledger.pricePerSecond, r = q
    rcases Node.lease_apply_cases hop id with ⟨lop, rfl⟩ | hsame | ⟨-, token, e, m, hnew⟩
    · rw [Node.lease_apply_lease hop]
      cases lop with
      | markMetered now sessionID payer price credit =>
        obtain ⟨o, transaction, rfl, rfl, rfl, rfl⟩ := act_lease_markMetered ha
        have hprice := price_of_reach hc hp rfl
        rw [hq] at hprice
        cases hprice
        simp [Lease.ledger_apply]
      | _ =>
        rw [Lease.ledger_price_apply (by simp)]
        exact ih
    · rw [hsame]
      exact ih
    · simp [hnew, Lease.provisioning]
  obtain ⟨g, hg⟩ := Option.ne_none_iff_exists'.1 hm.lease
  rw [Lease.pricePerSecond, hg]
  exact hall _ (by simp [hg])

end Price

/-! ### Live sessions -/

/-- A session whose renter may buy more: it is not over, and its length is set. -/
structure Node.Live (s : Node) (id : LeaseId) : Prop where
  status : (s.lease id).status.isTerminal = false
  length : 0 < (s.lease id).sessionSeconds

section Live

variable {cfg : NodeConfig} {C : NodeGuard} {c : Machine.Config Node Pc} {s : Node} {id : LeaseId}

/-- Only a session that is over is settled. -/
theorem isTerminal_of_done (h : (nodeSystem cfg).Reach C c) {id : LeaseId}
    (hdone : (c.shared.lease id).settleState = .done) :
    (c.shared.lease id).status.isTerminal = true := by
  refine Machine.shared_of_reach (M := node cfg)
    (I := fun s => (s.lease id).settleState = .done → (s.lease id).status.isTerminal = true)
    (by simp [Node.lease, Node.initial, Lease.provisioning])
    (fun s e ih => by cases e <;> exact ih) (fun c i out p op p' hc hp _ ha ih => ?_) h hdone
  have hop := allowed_of_reach hc hp ha
  change ((c.shared.apply op).lease id).settleState = .done →
    ((c.shared.apply op).lease id).status.isTerminal = true
  rcases Node.lease_apply_cases hop id with ⟨lop, rfl⟩ | hsame | ⟨-, token, e, m, hnew⟩
  · rw [Node.lease_apply_lease hop, Lease.settleState_apply]
    intro hd
    cases lop with
    | markMetered => cases hd
    | markSettled owed =>
      have hover : c.shared.Over id := by
        cases moneyStep_of_act ha with
        | idle _ hi _ => cases hi
        | markSettled => exact (knows_of_reach hc hp).1
      exact Lease.isTerminal_apply hover.lease _
    | _ => exact Lease.isTerminal_apply (ih hd) _
  · rw [hsame]
    exact ih
  · simp [hnew, Lease.provisioning]

theorem Node.metered_of_ledger (h : (s.lease id).ledger ≠ none) : s.Metered id := by
  cases hl : s.leases id with
  | none => exact absurd (by simp [Node.lease, hl, Lease.provisioning]) h
  | some l => exact ⟨l, hl, by rwa [Node.lease_eq hl] at h⟩

/-- A live session is metered, and not settled. -/
theorem Node.Live.pending (h : (nodeSystem cfg).Reach SoleTopUp c) (hlive : c.shared.Live id) :
    c.shared.Metered id ∧ (c.shared.lease id).settleState = .pending := by
  have hlen := (((lengthOutline cfg).holds h).shared id).2
  have hm : c.shared.Metered id :=
    Node.metered_of_ledger fun hn => absurd hlive.length (by simp [hlen hn])
  refine ⟨hm, ?_⟩
  have hne := ((sound_of_reach h).lease id _ hm.leases_eq).metered
  obtain ⟨g, hg⟩ := Option.ne_none_iff_exists'.1 hm.lease
  have happ := (hne g hg).1
  cases hst : (c.shared.lease id).settleState with
  | notApplicable => exact absurd hst happ
  | pending => rfl
  | done => exact absurd (isTerminal_of_done h hst) (by simp [hlive.status])

end Live

/-! ### The next chunk -/

/-- As long as the session is not settled, `chunk` is what it is offered next. -/
def Lease.Next (most : ℤ) (l : Lease) (chunk : ℤ) : Prop :=
  l.settleState = .pending → 0 < l.unpaidSeconds ∧ chunk = min most l.unpaidSeconds

/-- **What a thread has been offered** is the next chunk, until it has banked it. -/
def Pc.Buys (leases : Leases) (s : Node) : Pc → Prop
  | .topUpCap id _ chunk | .topUpCollect id _ chunk | .settleTopUp id _ chunk =>
    (s.lease id).Next leases.sessionChunkSeconds chunk
  | .addCredit p => ∃ chunk, p.amount = (s.lease p.id).pricePerSecond * chunk ∧
    (s.lease p.id).Next leases.sessionChunkSeconds chunk
  | .setLength o _ _ => (s.lease o.id).settleState = .pending →
    (s.lease o.id).paidSeconds = leases.sessionChunk o.seconds
  | _ => True

section Buys

variable {s : Node} {op : Op} {id : LeaseId}

/-- Until it is settled, the time sold of a session changes by payments only. -/
theorem Node.paidSeconds_apply (hop : op.Allowed s) (hm : s.Metered id)
    (ha : ∀ a, op ≠ .lease id (.addCredit a))
    (h : ((s.apply op).lease id).settleState = .pending) :
    (s.lease id).settleState = .pending ∧
      ((s.apply op).lease id).paidSeconds = (s.lease id).paidSeconds := by
  refine Node.metered_cases (P := fun l => l.settleState = .pending →
    (s.lease id).settleState = .pending ∧ l.paidSeconds = (s.lease id).paidSeconds) hop hm
    (fun h => ⟨h, rfl⟩) (fun lop hlop hnew h => ?_) h
  rw [Lease.settleState_apply] at h
  cases lop with
  | markMetered => exact absurd rfl (hnew _ _ _ _ _)
  | addCredit a => exact absurd hlop (ha a)
  | markSettled r => split_ifs at h
  | _ => exact ⟨h, Lease.paidSeconds_apply (by simp) (by simp) (by simp)⟩

theorem Node.next_apply {most chunk : ℤ} (h : (s.lease id).Next most chunk) (hop : op.Allowed s)
    (hm : s.Metered id) (ha : ∀ a, op ≠ .lease id (.addCredit a))
    (hl : ∀ n, op ≠ .lease id (.setSessionLength n)) :
    ((s.apply op).lease id).Next most chunk := by
  intro hst
  obtain ⟨hold, hpaid⟩ := Node.paidSeconds_apply hop hm ha hst
  rw [Lease.unpaidSeconds, Node.sessionSeconds_apply hop hm hl, hpaid]
  exact h hold

theorem Node.pricePerSecond_apply (hop : op.Allowed s) (hm : s.Metered id) :
    ((s.apply op).lease id).pricePerSecond = (s.lease id).pricePerSecond :=
  Node.metered_cases (P := fun l => l.pricePerSecond = (s.lease id).pricePerSecond) hop hm rfl
    fun _ _ hnew => Lease.pricePerSecond_apply hnew

/-- **Offers survive** the steps of the other threads, but for a payment for their session. -/
theorem Pc.Buys.later {leases : Leases} {q : Pc} (h : q.Buys leases s) (hk : q.Knows s)
    (hop : op.Allowed s) (ha : ∀ id a, q.sells = some id → op ≠ .lease id (.addCredit a))
    (hl : ∀ id n, q.sells = some id → op ≠ .lease id (.setSessionLength n)) :
    q.Buys leases (s.apply op) := by
  cases q with
  | topUpCap id | topUpCollect id | settleTopUp id =>
    exact Node.next_apply h hop hk.1 (fun a => ha id a rfl) fun n => hl id n rfl
  | addCredit p =>
    obtain ⟨chunk, hamount, hnext⟩ := h
    refine ⟨chunk, ?_, Node.next_apply hnext hop hk.1 (fun a => ha p.id a rfl)
      fun n => hl p.id n rfl⟩
    rw [hamount, Node.pricePerSecond_apply hop hk.1]
  | setLength o =>
    intro hst
    obtain ⟨hold, hpaid⟩ := Node.paidSeconds_apply hop hk (fun a => ha o.id a rfl) hst
    rw [hpaid, h hold]
  | _ => trivial

@[simp] theorem Pc.buys_of_returned {leases : Leases} {p : Pc} (h : p.returned) :
    p.Buys leases s := by
  cases p <;> trivial

end Buys

/-- A chunk at a positive price pays for its seconds. -/
theorem Lease.paidSeconds_markMetered_of_pos (l : Lease) (now : ℤ) (sessionID payer : String)
    {p : ℕ} (hp : 0 < p) (chunk : ℤ) :
    (l.apply (.markMetered now sessionID payer p (p * chunk))).paidSeconds = chunk := by
  have hpos : (0 : ℤ) < p := by exact_mod_cast hp
  simp only [Lease.paidSeconds, Lease.ledger_apply, Option.map_some, Option.getD_some,
    Ledger.paidSeconds, zero_add, if_neg (not_le.2 hpos)]
  exact Int.mul_ediv_cancel_left _ hpos.ne'

/-- **A step offers** the next chunk. -/
theorem buys_step {cfg : NodeConfig} {c : Machine.Config Node Pc} {p p' : Pc} {out : Outcome}
    {op : Op} (hk : p.Knows c.shared) (h : c.shared.act cfg p out = some (op, p'))
    (hg : p.soleTopUp c) (hq : ∀ q, p.quote = some q → cfg.leases.Quotes q)
    (hprice : ∀ q, p.price = some q → 0 < q)
    (hw : p.Within (cfg.leases.maxTotalMinutes * 60) c.shared) (hb : p.Buys cfg.leases c.shared) :
    p'.Buys cfg.leases (c.shared.apply op) := by
  cases p with
  | topUpLength id =>
    simp only [Pc.soleTopUp, decide_eq_true_eq] at hg
    simp only [Node.act] at h
    split_ifs at h with hp hl <;> cases h
    · trivial
    · trivial
    · exact absurd (hg.resolve_left hp) hl
  | topUpUnpaid id price =>
    simp only [Node.act] at h
    split_ifs at h with hu <;> cases h
    · trivial
    · exact fun _ => ⟨not_le.1 hu, rfl⟩
  | topUpCap id price chunk =>
    simp only [Node.act] at h
    split_ifs at h <;> cases h
    · trivial
    · exact hb
  | topUpCollect id price chunk =>
    cases out <;> cases h
    · exact hb
    · trivial
    · trivial
  | settleTopUp id price chunk =>
    cases out <;> cases h
    · exact ⟨chunk, by rw [← hw.1.price]; rfl, hb⟩
    · trivial
    · trivial
  | markMetered o payer transaction =>
    cases h
    have hm : c.shared.Unmetered o.id := hk.2
    obtain ⟨-, hchunk⟩ := hq _ rfl
    intro _
    rw [Node.lease_apply_lease hm, ← hchunk]
    exact Lease.paidSeconds_markMetered_of_pos _ _ _ _ (hprice _ rfl) _
  | _ =>
    simp only [Node.act] at h
    (repeat' split at h) <;> cases h <;> first | trivial | simp

/-! ### In every run -/

/-- **Offers**: in a run of sole top-ups, what a thread has been offered is the next chunk. -/
def saleOutline (cfg : NodeConfig)
    (hprice : ∀ q, cfg.leases.sessionPricePerSecond = .ok q → 0 < q) :
    Machine.Outline (node cfg) Node.initial SoleTopUp where
  I _ := True
  A s p := p.Buys cfg.leases s
  X _ _ := True
  init := trivial
  symm _ _ _ := trivial
  start s r := by cases r <;> trivial
  apart _ _ := trivial
  envI _ _ _ := trivial
  envA s e p h := by cases p <;> cases e <;> exact h
  act c i out p op p' hc hp hg _ hA ha :=
    have hw := ((lengthOutline cfg).holds hc).annot i p hp
    ⟨trivial, buys_step (knows_of_reach hc hp) ha (hg.run hp) (fun q => quotes_of_reach hc hp)
      (fun q hq => hprice q (price_of_reach hc hp hq)) hw hA⟩
  free c i j out p q op p' hij hc hp hq hg _ hAp hAq _ ha := by
    have hX := ((lengthOutline cfg).holds hc).apart i j p q hij hp hq
    refine ⟨hAq.later (knows_of_reach hc hq) (allowed_of_reach hc hp ha) ?_ ?_, trivial⟩
    · rintro id a hid rfl
      obtain ⟨p₀, rfl, rfl, rfl⟩ := act_addCredit ha
      exact hX p₀.id rfl hid
    · rintro id n hid rfl
      obtain ⟨o, payer, transaction, rfl, rfl, rfl⟩ := act_setSessionLength ha
      exact hX o.id rfl hid

/-- The payments for a session that an operation banks. -/
def Op.banks (id : LeaseId) : Op → ℕ
  | .lease j (.markMetered ..) | .lease j (.addCredit _) => if j = id then 1 else 0
  | _ => 0

/-- A run of sole top-ups that banks `n` payments for the session gets to `c`. -/
abbrev Banks (cfg : NodeConfig) (id : LeaseId) (c : Machine.Config Node Pc) (n : ℕ) : Prop :=
  Machine.Histories (node cfg) Node.initial SoleTopUp (fun _ _ op n => n + op.banks id) 0 c n

/-- **What `n` payments have bought** of a session. -/
structure Lease.Bought (leases : Leases) (l : Lease) (n : ℕ) : Prop where
  unmetered : l.ledger = none → n = 0
  opened : l.ledger ≠ none → l.sessionSeconds = 0 → n = 1
  sold : l.settleState = .pending → 0 < l.sessionSeconds →
    leases.validateSessionSeconds l.sessionSeconds = none ∧ 0 < n ∧
      n ≤ installments leases.sessionChunkSeconds l.sessionSeconds ∧
      l.paidSeconds = bought leases.sessionChunkSeconds l.sessionSeconds n

section Bought

variable {leases : Leases} {l : Lease} {n : ℕ}

/-- Other operations buy nothing. -/
theorem Lease.Bought.apply (h : l.Bought leases n) {op : LeaseOp}
    (hm : ∀ now s y p c, op ≠ .markMetered now s y p c) (ha : ∀ a, op ≠ .addCredit a)
    (hset : ∀ n, op ≠ .setSessionLength n) : (l.apply op).Bought leases n := by
  have hsame : (l.apply op).sessionSeconds = l.sessionSeconds := by
    rw [Lease.sessionSeconds_apply]
    cases op with
    | setSessionLength n => exact absurd rfl (hset n)
    | _ => rfl
  refine ⟨fun hn => h.unmetered ?_, fun hn hz => h.opened ?_ (hsame ▸ hz), fun hst hpos => ?_⟩
  · by_contra hne
    exact Lease.ledger_apply_ne_none hne op hn
  · intro hnone
    exact hn (Lease.ledger_apply_eq_none hnone hm)
  · rw [hsame] at hpos ⊢
    rw [Lease.settleState_apply] at hst
    cases op with
    | markMetered => exact absurd rfl (hm _ _ _ _ _)
    | markSettled r => split_ifs at hst
    | _ =>
      rw [Lease.paidSeconds_apply hm ha (by simp)]
      exact h.sold hst hpos

/-- The opening chunk is the first. -/
theorem Lease.Bought.open (hlen : leases.validateSessionSeconds l.sessionSeconds = none)
    (hpaid : l.settleState = .pending → l.paidSeconds = leases.sessionChunk l.sessionSeconds)
    (hm : l.ledger ≠ none) : l.Bought leases 1 := by
  have hc := leases.chunk_pos
  have hpos : 0 < l.sessionSeconds := by
    have hmin := leases.minMinutes_pos
    unfold Leases.validateSessionSeconds at hlen
    split_ifs at hlen
    omega
  refine ⟨fun hn => absurd hn hm, fun _ _ => rfl, fun hst _ => ⟨hlen, one_pos, ?_, ?_⟩⟩
  · rw [Nat.one_le_iff_ne_zero, ← Nat.pos_iff_ne_zero, lt_installments hc]
    simpa using hpos
  · rw [hpaid hst, leases.sessionChunk_of_validate hlen, bought, Nat.cast_one, one_mul, min_comm]

/-- **A top-up is the next one.** -/
theorem Lease.Bought.topUp (h : l.Bought leases n) (hp : 0 < l.pricePerSecond)
    (hlen : 0 < l.sessionSeconds) (hm : l.ledger ≠ none) {chunk : ℤ}
    (hnext : l.Next leases.sessionChunkSeconds chunk) :
    (l.apply (.addCredit (l.pricePerSecond * chunk))).Bought leases (n + 1) := by
  have hsame : (l.apply (.addCredit (l.pricePerSecond * chunk))).sessionSeconds =
      l.sessionSeconds := Lease.sessionSeconds_apply _ _
  have hstate : (l.apply (.addCredit (l.pricePerSecond * chunk))).settleState = l.settleState :=
    Lease.settleState_apply _ _
  refine ⟨fun hn => absurd hn (Lease.ledger_apply_ne_none hm _), fun _ hz => ?_, fun hst _ => ?_⟩
  · exact absurd hlen (by rw [← hsame, hz]; exact lt_irrefl 0)
  · rw [hstate] at hst
    rw [hsame, Lease.paidSeconds_addCredit hp]
    obtain ⟨hv, -, -, hpaid⟩ := h.sold hst hlen
    obtain ⟨hunpaid, hchunk⟩ := hnext hst
    have hc := leases.chunk_pos
    rw [Lease.unpaidSeconds, if_neg (not_le.2 hlen)] at hunpaid hchunk
    have hlt : n < installments leases.sessionChunkSeconds l.sessionSeconds := by
      rw [← bought_lt_length hc, ← hpaid]
      omega
    refine ⟨hv, n.succ_pos, hlt, ?_⟩
    rw [bought_succ hc hlt, ← hpaid, hchunk]
    omega

end Bought

theorem Op.banks_eq_zero {op : Op} {id : LeaseId} (h : ∀ lop, op ≠ .lease id lop) :
    op.banks id = 0 := by
  cases op with
  | lease j lop =>
    have hj : j ≠ id := fun hj => h lop (hj ▸ rfl)
    cases lop <;> first | rfl | exact if_neg hj
  | _ => rfl

section Reach

variable {cfg : NodeConfig} {c : Machine.Config Node Pc} {n : ℕ} {id : LeaseId}

theorem bought_step (hprice : ∀ q, cfg.leases.sessionPricePerSecond = .ok q → 0 < q)
    (hc : (nodeSystem cfg).Reach SoleTopUp c) {i : ℕ} {out : Outcome} {p p' : Pc} {op : Op}
    (hp : c.threads[i]? = some p) (ha : c.shared.act cfg p out = some (op, p'))
    (h : (c.shared.lease id).Bought cfg.leases n) :
    ((c.shared.apply op).lease id).Bought cfg.leases (n + op.banks id) := by
  have hop := allowed_of_reach hc hp ha
  have hk := knows_of_reach hc hp
  have hw := ((lengthOutline cfg).holds hc).annot i p hp
  have hlen := (((lengthOutline cfg).holds hc).shared id).2
  have hb := ((saleOutline cfg hprice).holds hc).annot i p hp
  by_cases hlop : ∃ lop, op = .lease id lop
  · obtain ⟨lop, rfl⟩ := hlop
    rw [Node.lease_apply_lease hop]
    cases lop with
    | markMetered now sessionID payer price credit =>
      have hnone : (c.shared.lease id).ledger = none := hop.lease.1
      have hzero := hlen hnone
      rw [h.unmetered hnone, Op.banks, if_pos rfl]
      refine ⟨fun hn => by simp [Lease.ledger_apply] at hn, fun _ _ => rfl, fun _ hpos => ?_⟩
      rw [Lease.sessionSeconds_apply] at hpos
      exact absurd hpos (by simp [hzero])
    | addCredit a =>
      obtain ⟨p₀, rfl, rfl, rfl⟩ := act_addCredit ha
      obtain ⟨price, chunk', hamount', hpriced, -, -⟩ := hw
      obtain ⟨chunk, hamount, hnext⟩ := hb
      rw [hamount, Op.banks, if_pos rfl]
      exact h.topUp (hpriced.price ▸ hpriced.pos) hpriced.length hk.1.lease hnext
    | setSessionLength m =>
      obtain ⟨o, payer, transaction, rfl, rfl, rfl⟩ := act_setSessionLength ha
      have hm : c.shared.Metered o.id := hk
      obtain ⟨hv, -⟩ := quotes_of_reach hc hp rfl
      rw [h.opened hm.lease hw.1]
      refine Lease.Bought.open (by rwa [Lease.sessionSeconds_apply]) (fun hst => ?_)
        (Lease.ledger_apply_ne_none hm.lease _)
      rw [Lease.settleState_apply] at hst
      rw [Lease.sessionSeconds_apply, Lease.paidSeconds_apply (by simp) (by simp) (by simp)]
      exact hb hst
    | _ => exact h.apply (by simp) (by simp) (by simp)
  · have hother : ∀ lop, op ≠ .lease id lop := fun lop hl => hlop ⟨lop, hl⟩
    rw [Op.banks_eq_zero hother]
    rcases Node.lease_apply_cases hop id with ⟨lop, hl⟩ | hsame | ⟨hn, token, e, m, hnew⟩
    · exact absurd hl (hother lop)
    · rwa [hsame]
    · have hnone : (c.shared.lease id).ledger = none := by
        by_contra hne
        exact hn (Node.metered_of_ledger hne).present
      rw [h.unmetered hnone, hnew]
      refine ⟨fun _ => rfl, fun hne => absurd rfl hne, fun hst => ?_⟩
      cases hst

/-- **What a session has been sold** is what its payments have bought. -/
theorem bought_of_banks (hprice : ∀ q, cfg.leases.sessionPricePerSecond = .ok q → 0 < q)
    (h : Banks cfg id c n) : (c.shared.lease id).Bought cfg.leases n := by
  refine Machine.Histories.invariant (I := fun s n => (s.lease id).Bought cfg.leases n) ?_
    (fun s e n ih => by cases e <;> exact ih)
    (fun c i out p op p' n hc hp _ ha ih => bought_step hprice hc hp ha ih) h
  refine ⟨fun _ => rfl, fun hne => absurd rfl hne, fun hst => ?_⟩
  cases hst

end Reach

/-! ### To the end -/

/-- The next chunk of a session, or the rest of it. -/
def Lease.nextChunk (most : ℤ) (l : Lease) : ℤ := min most (l.sessionSeconds - l.paidSeconds)

/-- **What the node offers a top-up** of the session, at the price it was opened at: the next chunk,
unless all of it has been paid for, and never a refusal for the node's total cap. -/
def Pc.Offered (cfg : NodeConfig) (s : Node) (id : LeaseId) (price : ℤ) (out : Outcome) :
    Pc → Prop
  | .topUpStatus j => j = id → s.act cfg (.topUpStatus j) out = some (.skip, .topUpLength id)
  | .topUpLength j =>
    j = id → s.act cfg (.topUpLength j) out = some (.skip, .topUpUnpaid id price)
  | .topUpUnpaid j q => j = id → q = price ∧
    s.act cfg (.topUpUnpaid j q) out = some (.skip,
      if (s.lease id).fullyPaid then .done (.paidInFull (s.lease id).sessionSeconds)
      else .topUpCap id price ((s.lease id).nextChunk cfg.leases.sessionChunkSeconds))
  | .topUpCap j q chunk => j = id → q = price ∧
    chunk = (s.lease id).nextChunk cfg.leases.sessionChunkSeconds ∧
    s.act cfg (.topUpCap j q chunk) out = some (.skip, .topUpCollect id price chunk)
  | .topUpCollect j q chunk | .settleTopUp j q chunk =>
    j = id → q = price ∧ chunk = (s.lease id).nextChunk cfg.leases.sessionChunkSeconds
  | .addCredit p =>
    p.id = id → p.amount = price * (s.lease id).nextChunk cfg.leases.sessionChunkSeconds
  | _ => True

section Offered

variable {cfg : NodeConfig} {c : Machine.Config Node Pc} {id : LeaseId}

theorem Lease.Next.nextChunk {most chunk : ℤ} {l : Lease} (h : l.Next most chunk)
    (hst : l.settleState = .pending) (hlen : 0 < l.sessionSeconds) :
    chunk = l.nextChunk most := by
  obtain ⟨hunpaid, hchunk⟩ := h hst
  rw [Lease.unpaidSeconds, if_neg (not_le.2 hlen)] at hunpaid hchunk
  rw [hchunk, Lease.nextChunk]
  omega

/-- All of a live session is under the node's total cap. -/
theorem Node.Live.length_le (hprice : ∀ r, cfg.leases.sessionPricePerSecond = .ok r → 0 < r)
    (h : (nodeSystem cfg).Reach SoleTopUp c) (hlive : c.shared.Live id) :
    (c.shared.lease id).sessionSeconds ≤ cfg.leases.maxTotalMinutes * 60 := by
  obtain ⟨n, hn⟩ := Machine.exists_histories h (fun _ _ op n => n + op.banks id) 0
  have hv := ((bought_of_banks hprice hn).sold (hlive.pending h).2 hlive.length).1
  have hmax := cfg.leases.maxMinutes_le
  unfold Leases.validateSessionSeconds at hv
  split_ifs at hv
  omega

theorem pos_of_price {q : ℕ} (hq : cfg.leases.sessionPricePerSecond = .ok q) (hpos : 0 < q) :
    ∀ r, cfg.leases.sessionPricePerSecond = .ok r → 0 < r := by
  intro r hr
  rw [hq] at hr
  cases hr
  exact hpos

/-- **Every top-up of a live session is offered the next chunk.** -/
theorem offered_of_reach {q : ℕ} (hq : cfg.leases.sessionPricePerSecond = .ok q) (hpos : 0 < q)
    (h : (nodeSystem cfg).Reach SoleTopUp c) (hlive : c.shared.Live id) {i : ℕ} {p : Pc}
    (hp : c.threads[i]? = some p) (out : Outcome) : p.Offered cfg c.shared id q out := by
  obtain ⟨hm, hst⟩ := hlive.pending h
  have hlen := hlive.length
  have hprice := pricePerSecond_of_reach h hm hq
  have hw := ((lengthOutline cfg).holds h).annot i p hp
  have hprices := pos_of_price hq hpos
  have hb := ((saleOutline cfg hprices).holds h).annot i p hp
  cases p with
  | topUpStatus j =>
    rintro rfl
    simp [Node.act, hlive.status]
  | topUpLength j =>
    rintro rfl
    simp [Node.act, hprice, hpos.ne', hlen]
  | topUpUnpaid j r =>
    rintro rfl
    have hr : r = q := hw.price ▸ hprice
    refine ⟨hr, ?_⟩
    have hunpaid : (c.shared.lease j).unpaidSeconds ≤ 0 ↔ (c.shared.lease j).fullyPaid = true := by
      rw [Lease.unpaidSeconds, if_neg (not_le.2 hlen), Lease.fullyPaid, decide_eq_true_eq]
      omega
    simp only [Node.act, hunpaid, hr]
    split_ifs with hf
    · rfl
    · have hrest : 0 < (c.shared.lease j).unpaidSeconds := not_le.1 (mt hunpaid.1 hf)
      rw [Lease.Next.nextChunk (fun _ => ⟨hrest, rfl⟩) hst hlen]
  | topUpCap j r chunk =>
    rintro rfl
    have hr : r = q := hw.1.price ▸ hprice
    refine ⟨hr, hb.nextChunk hst hlen, ?_⟩
    have hle := hlive.length_le hprices h
    have hroom : (c.shared.lease j).paidSeconds + chunk ≤ (c.shared.lease j).sessionSeconds := hw.2
    simp only [Node.act, if_neg (not_lt.2 (hroom.trans hle)), hr]
  | topUpCollect j r chunk | settleTopUp j r chunk =>
    rintro rfl
    exact ⟨hw.1.price ▸ hprice, hb.nextChunk hst hlen⟩
  | addCredit p =>
    rintro rfl
    obtain ⟨chunk, hamount, hnext⟩ := hb
    rw [hamount, hprice, hnext.nextChunk hst hlen]
  | _ => trivial

/-- **A top-up of a live session**, by itself, banks the next chunk. -/
theorem leads_topUp {q : ℕ} (hq : cfg.leases.sessionPricePerSecond = .ok q) (hpos : 0 < q)
    (h : (nodeSystem cfg).Reach SoleTopUp c) (hlive : c.shared.Live id)
    (hrest : (c.shared.lease id).paidSeconds < (c.shared.lease id).sessionSeconds) :
    ∃ (s' : Node) (p' : Payment),
      (node cfg).Leads c.shared (.topUpStatus id) s' (.topUpPaused p') ∧
      (s'.lease id).paidSeconds = (c.shared.lease id).paidSeconds +
        (c.shared.lease id).nextChunk cfg.leases.sessionChunkSeconds := by
  obtain ⟨hm, hst⟩ := hlive.pending h
  have hprice := pricePerSecond_of_reach h hm hq
  have hlen := hlive.length
  have hunpaid : (c.shared.lease id).unpaidSeconds =
      (c.shared.lease id).sessionSeconds - (c.shared.lease id).paidSeconds := by
    rw [Lease.unpaidSeconds, if_neg (not_le.2 hlen)]
    omega
  have hcap := hlive.length_le (pos_of_price hq hpos) h
  have hnext : min cfg.leases.sessionChunkSeconds (c.shared.lease id).unpaidSeconds =
      (c.shared.lease id).nextChunk cfg.leases.sessionChunkSeconds := by
    rw [hunpaid, Lease.nextChunk]
  have hfits : ¬ cfg.leases.maxTotalMinutes * 60 < (c.shared.lease id).paidSeconds +
      (c.shared.lease id).nextChunk cfg.leases.sessionChunkSeconds := by
    rw [Lease.nextChunk]
    omega
  let chunk := (c.shared.lease id).nextChunk cfg.leases.sessionChunkSeconds
  let p : Payment := { id, amount := q * chunk, payer := "", transaction := "", opening := none }
  let paid := c.shared.apply (.settle id (q * chunk))
  have hpaid : paid.Metered id := hm
  let out : Outcome := .ok "" ""
  have hstatus : c.shared.act cfg (.topUpStatus id) out = some (.skip, .topUpLength id) := by
    simp [Node.act, hlive.status]
  have hlength : c.shared.act cfg (.topUpLength id) out = some (.skip, .topUpUnpaid id q) := by
    simp [Node.act, hprice, hpos.ne', hlen]
  have hrest' : c.shared.act cfg (.topUpUnpaid id q) out = some (.skip, .topUpCap id q chunk) := by
    simp only [Node.act]
    rw [if_neg (by omega), hnext]
  have hfits' : c.shared.act cfg (.topUpCap id q chunk) out =
      some (.skip, .topUpCollect id q chunk) := by
    simp only [Node.act]
    rw [if_neg hfits]
  have hcollect : c.shared.act cfg (.topUpCollect id q chunk) out =
      some (.skip, .settleTopUp id q chunk) := rfl
  have hsettle : c.shared.act cfg (.settleTopUp id q chunk) out =
      some (.settle id (q * chunk), .addCredit p) := rfl
  have hbank : paid.act cfg (.addCredit p) out =
      some (.lease id (.addCredit (q * chunk)), .topUpPaused p) := rfl
  refine ⟨paid.apply (.lease id (.addCredit (q * chunk))), p, ?_, ?_⟩
  · have hpay : (node cfg).Leads c.shared (.topUpCollect id q chunk)
        (paid.apply (.lease id (.addCredit (q * chunk)))) (.topUpPaused p) :=
      .step (o := out) hcollect <| .step (o := out) hsettle <|
        .step (s := paid) (o := out) hbank .refl
    exact .step (o := out) hstatus <| .step (o := out) hlength <| .step (o := out) hrest' <|
      .step (o := out) hfits' hpay
  · have hpos' : 0 < (c.shared.lease id).pricePerSecond := by
      rw [hprice]
      exact_mod_cast hpos
    rw [Node.lease_apply_lease hpaid, ← hprice]
    exact Lease.paidSeconds_addCredit hpos' chunk

end Offered

/-- **Whatever the node agrees to sell can be bought to the end.** -/
theorem bought_to_the_end {cfg : NodeConfig} {l : Config.Leases} {dir : String}
    (henabled : l.enabled = true) (hvalid : (l.applyDefaults dir).validate = none)
    (hcfg : cfg.leases = (l.applyDefaults dir).terms
      ((Config.validate_eq_none (l := l.applyDefaults dir) henabled).1 hvalid))
    {q : ℕ} (hq : cfg.leases.sessionPricePerSecond = .ok q) (hpos : 0 < q) :
    let chunk := (l.applyDefaults dir).sessionChunkSeconds
    (∀ seconds, cfg.leases.validateSessionSeconds seconds = none →
      cfg.leases.sessionChunk seconds = min seconds chunk ∧
      cfg.leases.validateMinutes (secondsToMinutes (cfg.leases.sessionChunk seconds)) = none) ∧
    ∀ (c : Machine.Config Node Pc) (id : LeaseId) (n : ℕ), Banks cfg id c n →
      c.shared.Live id →
      let s := c.shared.lease id
      let N := installments chunk s.sessionSeconds
      cfg.leases.validateSessionSeconds s.sessionSeconds = none ∧ 0 < n ∧ n ≤ N ∧
      s.paidSeconds = min (n * chunk) s.sessionSeconds ∧
      (n < N → 0 < s.nextChunk chunk) ∧ (s.fullyPaid = true ↔ n = N) ∧
      (s.fullyPaid = true → s.paidSeconds = s.sessionSeconds) ∧
      (∀ (i : ℕ) (p : Pc) (out : Outcome), c.threads[i]? = some p →
        p.Offered cfg c.shared id q out) ∧
      (n < N → ∃ (s' : Node) (p' : Payment),
        (node cfg).Leads c.shared (.topUpStatus id) s' (.topUpPaused p') ∧
        (s'.lease id).paidSeconds = min ((n + 1) * chunk) s.sessionSeconds) := by
  have hchunk : (l.applyDefaults dir).sessionChunkSeconds = cfg.leases.sessionChunkSeconds := by
    rw [hcfg]
    rfl
  have hc := cfg.leases.chunk_pos
  simp only [hchunk]
  refine ⟨fun seconds hv => ⟨cfg.leases.sessionChunk_of_validate hv,
    cfg.leases.validateMinutes_sessionChunk hv⟩, fun c id n hn hlive => ?_⟩
  have h := hn.reach
  obtain ⟨hv, hpos', hle, hpaid⟩ := (bought_of_banks (pos_of_price hq hpos) hn).sold
    (hlive.pending h).2 hlive.length
  have hlt : (c.shared.lease id).paidSeconds < (c.shared.lease id).sessionSeconds ↔
      n < installments cfg.leases.sessionChunkSeconds (c.shared.lease id).sessionSeconds := by
    rw [hpaid]
    exact bought_lt_length hc
  have heq : (c.shared.lease id).paidSeconds = (c.shared.lease id).sessionSeconds ↔
      installments cfg.leases.sessionChunkSeconds (c.shared.lease id).sessionSeconds ≤ n := by
    rw [hpaid]
    exact bought_eq_length hc
  have hfull : (c.shared.lease id).fullyPaid = true ↔
      (c.shared.lease id).paidSeconds = (c.shared.lease id).sessionSeconds := by
    have hlen := hlive.length
    rw [Lease.fullyPaid, decide_eq_true_eq, hpaid, bought]
    omega
  refine ⟨hv, hpos', hle, hpaid, fun hn' => ?_, ?_, hfull.1, fun i p out hp =>
    offered_of_reach hq hpos h hlive hp out, fun hn' => ?_⟩
  · have := hlt.2 hn'
    rw [Lease.nextChunk]
    omega
  · rw [hfull, heq]
    omega
  · obtain ⟨s', p', hleads, hpaid'⟩ := leads_topUp hq hpos h hlive (hlt.2 hn')
    refine ⟨s', p', hleads, ?_⟩
    rw [hpaid', Lease.nextChunk, hpaid, ← bought_succ hc hn', bought]
    push_cast
    rfl

/-! ### A small node -/

/-- What the provider of `NodeConfig.small` writes down. -/
def smallLeases : Config.Leases :=
  { Config.defaultLeases with
    enabled := true, priceTinybarsPerMinute := "60", minMinutes := 1, maxMinutes := 60
    maxTotalMinutes := 120, graceMinutes := 1, sessionChunkSeconds := 60
    lowCreditThresholdSeconds := 30 }

theorem smallLeases_valid : (smallLeases.applyDefaults "").validate = none :=
  (Config.validate_eq_none rfl).2
    { image := (by decide : "cleargate/lease-runtime:dev" ≠ "")
      perMinute := (by decide : (Config.parseUint "60").isSome = true)
      minutes := (by decide : (0 : ℤ) < 1 ∧ (1 : ℤ) ≤ 60)
      maxTotalMinutes := (by decide : (60 : ℤ) ≤ 120)
      caKeyPath := Config.resolveAgainst_ne_empty (Config.orString_ne_empty (by decide))
      tunnel := rfl
      proxyImage := (by decide : "cleargate/lease-egress:dev" ≠ "")
      paymentMode := rfl
      chunk_ge := (by decide : (1 : ℤ) * 60 ≤ 60)
      chunk_le := (by decide : (60 : ℤ) ≤ 60 * 60)
      lowCredit := (by decide : (30 : ℤ) < 60)
      perSecond := Or.inl rfl }

/-- Two minutes, a minute at a time. -/
theorem bought_twoMinutes :
    ∃ c, Banks .small 0 c 2 ∧ (c.shared.lease 0).fullyPaid = true ∧
      (c.shared.lease 0).paidSeconds = 120 := by
  obtain ⟨d, hd, hp⟩ := System.exists_reach
    (S := ((node .small).recording fun _ _ op n => n + op.banks 0).system (Node.initial, 0))
    (C := fun (d : Machine.Config (Node × ℕ) Pc) l => SoleTopUp d.forget l)
    (p := fun d => decide (d.shared.2 = 2 ∧ (d.shared.1.lease 0).sessionSeconds = 120 ∧
      (d.shared.1.lease 0).status.isTerminal = false)) topUpWhenSpent (by decide +kernel)
  obtain ⟨hn, hlen, hstatus⟩ := of_decide_eq_true hp
  have hc : Banks .small 0 d.forget 2 := hn ▸ hd
  have hN : 2 = installments 60 120 := by decide +kernel
  have hcfg : NodeConfig.small.leases = (smallLeases.applyDefaults "").terms
      ((Config.validate_eq_none rfl).1 smallLeases_valid) := rfl
  obtain ⟨-, -, -, -, -, hfull, hpaid, -⟩ := (bought_to_the_end rfl smallLeases_valid hcfg
    (q := 1) rfl (by decide)).2 d.forget 0 2 hc ⟨hstatus, hlen ▸ by decide⟩
  have hf := hfull.2 (hN.trans (by rw [← hlen]; rfl))
  exact ⟨d.forget, hc, hf, (hpaid hf).trans hlen⟩

end Mach402
