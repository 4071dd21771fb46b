import Mach402.Contracts.Solvency

/-!
# Payouts are exact

What a deposit is for (`Priced`), and where it goes once its session is settled (`Accounts`): the
provider is paid for the time used, the renter gets the rest back, each once, and each either by a
transfer or by a payout held for them until they withdraw it (`Held`).
-/

namespace Mach402

namespace SessionEscrow

/-! ### What is deposited -/

/-- A session that exists has begun, and its deposit is for its duration. -/
def Session.Priced (now : ℕ) (s : Session) : Prop :=
  s.renter ≠ 0 → s.deposited = s.pricePerSecond * s.duration ∧ s.startTime ≤ now

/-- All sessions are priced. -/
def World.Priced (w : World) : Prop := ∀ id, (w.sessions id).Priced w.timestamp

section Priced

variable {chain : Chain} {w w' : World} {p : Pc}

theorem World.Priced.update (h : w.Priced) {id : SessionId} {s : Session}
    (hs : s.Priced w.timestamp) (hw : w'.sessions = Function.update w.sessions id s)
    (ht : w'.timestamp = w.timestamp) : w'.Priced := by
  intro j
  rw [hw, ht, Function.update_apply]
  split_ifs
  · exact hs
  · exact h j

theorem priced_call (h : w.Priced) {c : Call} (hw : w.call chain c = some (w', p)) :
    w'.Priced := by
  obtain ⟨-, hcalled⟩ := called_of_call hw
  cases hcalled with
  | openSession id provider pricePerSecond duration _ hsender hok =>
    obtain ⟨-, hvalue, rfl⟩ := World.openSession_ok hok
    exact h.update (s := ⟨c.sender, provider, pricePerSecond, w.timestamp, duration, c.value,
      false⟩) (fun _ => ⟨hvalue, le_rfl⟩) rfl rfl
  | topUp id addedDuration _ hok =>
    obtain ⟨hr, -, hvalue, rfl⟩ := World.topUp_ok hok
    obtain ⟨hd, ht⟩ := h id hr
    refine h.update (s := { w.sessions id with
      duration := (w.sessions id).duration + addedDuration
      deposited := (w.sessions id).deposited + c.value }) (fun _ => ⟨?_, ht⟩) rfl rfl
    rw [mul_add, ← hd]
    exact congrArg _ hvalue
  | settle id _ hok =>
    obtain ⟨hr, -, -, rfl⟩ := World.settle_ok hok
    exact h.update (s := { w.sessions id with settled := true }) (fun _ => h id hr) rfl rfl
  | withdraw _ hok =>
    obtain ⟨-, rfl⟩ := World.withdraw_ok hok
    exact h

/-- Every session is priced, as an invariant of the contract. -/
def pricedOutline (chain : Chain) :
    Program.Outline (sessionEscrow chain) (World.initial chain) fun _ => true where
  I _ w := w.Priced
  init _ h := absurd rfl h
  start _ _ _ _ _ h hw := priced_call h hw
  act _ _ _ h := Act.Keeps.mono isolated_act fun _ _ hu id => by
    rw [hu.sessions, hu.timestamp]
    exact h id
  env _ w _ _ _ _ h hw := by
    obtain ⟨_, -, -, rfl⟩ | ⟨_, rfl⟩ := World.happen_some hw
    · exact h
    · exact fun id hr => ⟨(h id hr).1, (h id hr).2.trans (Nat.le_add_right _ _)⟩

end Priced

/-! ### Who a session is with -/

/-- An existing session is with those who opened it, and was opened once. -/
def World.Opened (w : World) : Prop := ∀ id,
  if (w.sessions id).renter = 0 then w.openings id = []
  else ∃ duration deposited, w.openings id = [.sessionOpened id (w.sessions id).renter
    (w.sessions id).provider (w.sessions id).pricePerSecond duration deposited
    (w.sessions id).startTime]

section Opened

variable {chain : Chain} {w w' : World} {p : Pc}

/-- Nobody else comes to be a party, and the price and the start stay. -/
theorem World.Opened.keep (h : w.Opened) {id : SessionId} {s : Session}
    (hw : w'.sessions = Function.update w.sessions id s)
    (ho : ∀ id, w'.openings id = w.openings id) (hr : s.renter = (w.sessions id).renter)
    (hp : s.provider = (w.sessions id).provider)
    (hprice : s.pricePerSecond = (w.sessions id).pricePerSecond)
    (hs : s.startTime = (w.sessions id).startTime) : w'.Opened := by
  intro j
  rw [hw, ho]
  by_cases hj : j = id
  · subst hj
    rw [Function.update_self, hr, hp, hprice, hs]
    exact h j
  · rw [Function.update_of_ne hj]
    exact h j

theorem opened_call (h : w.Opened) {c : Call} (hw : w.call chain c = some (w', p)) :
    w'.Opened := by
  obtain ⟨-, hcalled⟩ := called_of_call hw
  cases hcalled with
  | openSession id provider pricePerSecond duration _ hsender hok =>
    obtain ⟨hr, -, rfl⟩ := World.openSession_ok hok
    intro j
    have hj := h j
    by_cases hjid : j = id
    · subst hjid
      -- it did not exist, so it has not been opened before
      have hnil : w.openings j = [] := by
        rw [if_pos] at hj
        · exact hj
        · exact hr
      simp only [Function.update_self, if_neg hsender]
      refine ⟨duration, c.value, ?_⟩
      simp only [World.openings, World.receive, List.filter_append] at hnil ⊢
      rw [hnil]
      simp [Event.opens]
    · simp only [Function.update_of_ne hjid]
      have hopen : World.openings { w.receive c.value with
          sessions := Function.update (w.receive c.value).sessions id ⟨c.sender, provider,
            pricePerSecond, (w.receive c.value).timestamp, duration, c.value, false⟩
          log := (w.receive c.value).log ++ [.sessionOpened id c.sender provider pricePerSecond
            duration c.value (w.receive c.value).timestamp] } j = w.openings j := by
        simp [World.openings, World.receive, Event.opens, Ne.symm hjid]
      rw [hopen]
      exact hj
  | topUp id addedDuration _ hok =>
    obtain ⟨-, -, -, rfl⟩ := World.topUp_ok hok
    exact h.keep (s := { w.sessions id with
      duration := (w.sessions id).duration + addedDuration
      deposited := (w.sessions id).deposited + c.value })
      rfl (openings_append rfl rfl) rfl rfl rfl rfl
  | settle id _ hok =>
    obtain ⟨-, -, -, rfl⟩ := World.settle_ok hok
    exact h.keep (s := { w.sessions id with settled := true }) rfl (fun _ => rfl) rfl rfl rfl rfl
  | withdraw _ hok =>
    obtain ⟨-, rfl⟩ := World.withdraw_ok hok
    exact h

/-- Every session is with those who opened it, as an invariant of the contract. -/
def openedOutline (chain : Chain) :
    Program.Outline (sessionEscrow chain) (World.initial chain) fun _ => true where
  I _ w := w.Opened
  init _ := rfl
  start _ _ _ _ _ h hw := opened_call h hw
  act _ _ _ h := Act.Keeps.mono isolated_act fun _ _ hu id => by
    rw [hu.sessions, hu.openings]
    exact h id
  env _ w _ _ _ _ h hw := by
    obtain ⟨_, -, -, rfl⟩ | ⟨_, rfl⟩ := World.happen_some hw
    · exact h
    · exact h

end Opened

/-! ### What a settlement pays -/

/-- The session that a settlement in progress is about. -/
def Pc.session : Pc → Option SessionId
  | .payProvider _ id _ | .deferProvider _ id _ _ | .payRenter _ id _ | .deferRenter _ id _ _
  | .settled _ id _ => some id
  | _ => none

/-- The payouts to one party: one, unless it is of nothing. -/
def Delivered (payee : Address) (tinybars : ℕ) (payouts : List Payout) : Prop :=
  if tinybars = 0 then payouts = [] else ∃ pushed, payouts = [⟨payee, tinybars, pushed⟩]

/-- The session is settled, and its deposit split as at that time. -/
structure World.Settled (w : World) (id : SessionId) (q : Split) : Prop where
  renter : (w.sessions id).renter ≠ 0
  settled : (w.sessions id).settled = true
  exact : q.Exact (w.sessions id) (w.settledAt id)

/-- **Both parties have been paid**, each once, and the exact amount. -/
def World.PaidOut (w : World) (id : SessionId) (q : Split) : Prop :=
  ∃ toProvider toRenter, w.payouts id = toProvider ++ toRenter ∧
    Delivered (w.sessions id).provider q.providerAmount toProvider ∧
    Delivered (w.sessions id).renter q.refundAmount toRenter

/-- What a settlement in progress knows. -/
def Pc.Knows (w : World) : Pc → Prop
  | .payProvider _ id q => w.Settled id q ∧ w.payouts id = []
  | .deferProvider _ id q payee => w.Settled id q ∧ w.payouts id = [] ∧
      0 < q.providerAmount ∧ payee = (w.sessions id).provider
  | .payRenter _ id q => w.Settled id q ∧
      Delivered (w.sessions id).provider q.providerAmount (w.payouts id)
  | .deferRenter _ id q payee => w.Settled id q ∧
      Delivered (w.sessions id).provider q.providerAmount (w.payouts id) ∧
      0 < q.refundAmount ∧ payee = (w.sessions id).renter
  | .settled _ id q => w.Settled id q ∧ w.PaidOut id q
  | _ => True

/-- Nothing has changed about the session. -/
structure Same (w w' : World) (id : SessionId) : Prop where
  sessions : w'.sessions id = w.sessions id
  settledAt : w'.settledAt id = w.settledAt id
  payouts : w'.payouts id = w.payouts id

section Knows

variable {w w' : World} {id : SessionId} {q : Split} {p : Pc}

theorem Same.refl : Same w w id := ⟨rfl, rfl, rfl⟩

theorem World.Settled.same (h : w.Settled id q) (hw : Same w w' id) : w'.Settled id q := by
  obtain ⟨hr, hs, hq⟩ := h
  exact ⟨by rwa [hw.sessions], by rwa [hw.sessions], by rwa [hw.sessions, hw.settledAt]⟩

theorem World.PaidOut.same (h : w.PaidOut id q) (hw : Same w w' id) : w'.PaidOut id q := by
  rw [PaidOut, hw.sessions, hw.payouts]
  exact h

/-- What a settlement knows is about its session only. -/
theorem Pc.Knows.same (h : p.Knows w) (hw : ∀ id, p.session = some id → Same w w' id) :
    p.Knows w' := by
  cases p with
  | payProvider sender id q =>
    have hid := hw id rfl
    exact ⟨h.1.same hid, hid.payouts.trans h.2⟩
  | deferProvider sender id q payee =>
    have hid := hw id rfl
    exact ⟨h.1.same hid, hid.payouts.trans h.2.1, h.2.2.1, by rw [hid.sessions]; exact h.2.2.2⟩
  | payRenter sender id q =>
    have hid := hw id rfl
    exact ⟨h.1.same hid, by rw [hid.sessions, hid.payouts]; exact h.2⟩
  | deferRenter sender id q payee =>
    have hid := hw id rfl
    exact ⟨h.1.same hid, by rw [hid.sessions, hid.payouts]; exact h.2.1, h.2.2.1,
      by rw [hid.sessions]; exact h.2.2.2⟩
  | settled sender id q =>
    have hid := hw id rfl
    exact ⟨h.1.same hid, h.2.same hid⟩
  | _ => trivial

/-- A settlement in progress is about a session that is settled. -/
theorem Pc.Knows.settled (h : p.Knows w) (hp : p.session = some id) :
    (w.sessions id).renter ≠ 0 ∧ (w.sessions id).settled = true := by
  cases p with
  | payProvider | deferProvider | payRenter | deferRenter | settled =>
    cases hp
    exact ⟨h.1.renter, h.1.settled⟩
  | _ => cases hp

end Knows

/-- **The accounts of the settlements**, while the calls in progress are to go on at `ps`. -/
structure Accounts (ps : List Pc) (w : World) : Prop where
  knows : ∀ p ∈ ps, p.Knows w
  /-- No two settlements in progress are about one session. -/
  apart : ps.Pairwise fun p q => ∀ id, p.session = some id → q.session ≠ some id
  unpaid : ∀ id, (w.sessions id).renter = 0 ∨ (w.sessions id).settled = false →
    w.payouts id = []
  paid : ∀ id, (w.sessions id).renter ≠ 0 → (w.sessions id).settled = true →
    (∀ p ∈ ps, p.session ≠ some id) → ∃ q, w.Settled id q ∧ w.PaidOut id q

namespace Accounts

variable {chain : Chain} {ps : List Pc} {w w' : World} {p p' : Pc}

/-- A session that is not settled has no settlement in progress. -/
theorem not_settling (h : Accounts ps w) {id : SessionId}
    (hid : (w.sessions id).renter = 0 ∨ (w.sessions id).settled = false) :
    ∀ p ∈ ps, p.session ≠ some id := by
  intro p hp hpid
  obtain ⟨hr, hs⟩ := (h.knows p hp).settled hpid
  rcases hid with h0 | h0
  · exact hr h0
  · rw [hs] at h0
    cases h0

/-- Changes to a session that is not settled, and not settled afterwards either. -/
theorem change (h : Accounts ps w) {id : SessionId} {s : Session}
    (hid : (w.sessions id).renter = 0 ∨ (w.sessions id).settled = false)
    (hs : s.settled = false) (hp : p.session = none) (hk : p.Knows w')
    (hw : w'.sessions = Function.update w.sessions id s) (ht : w'.settledAt = w.settledAt)
    (hpay : w'.payouts = w.payouts) : Accounts (p :: ps) w' := by
  have hsame : ∀ j, j ≠ id → Same w w' j := fun j hj =>
    ⟨by rw [hw, Function.update_of_ne hj], by rw [ht], by rw [hpay]⟩
  have hsid : (w'.sessions id).settled = false := by rw [hw, Function.update_self]; exact hs
  refine ⟨?_, ?_, fun j hj => ?_, fun j hr hset hno => ?_⟩
  · rintro r (_ | ⟨_, hr⟩)
    · exact hk
    · refine (h.knows r hr).same fun j hj => hsame j ?_
      rintro rfl
      exact h.not_settling hid r hr hj
  · exact List.pairwise_cons.2 ⟨fun r _ j hj => absurd (hp.symm.trans hj) nofun, h.apart⟩
  · by_cases hjid : j = id
    · subst hjid
      rw [hpay]
      exact h.unpaid j hid
    · rw [hpay]
      rw [(hsame j hjid).sessions] at hj
      exact h.unpaid j hj
  · have hjid : j ≠ id := by
      rintro rfl
      rw [hsid] at hset
      cases hset
    have hj := hsame j hjid
    rw [hj.sessions] at hr hset
    obtain ⟨q, hq, hpaid⟩ := h.paid j hr hset fun r hr' => hno r (List.mem_cons_of_mem _ hr')
    exact ⟨q, hq.same hj, hpaid.same hj⟩

/-- A settlement starts. -/
theorem settle (h : Accounts ps w) {sender : Address} {id : SessionId} {q : Split}
    (hok : w.settle id = .ok (w', q)) : Accounts (.payProvider sender id q :: ps) w' := by
  obtain ⟨hr, hs, hq, rfl⟩ := World.settle_ok hok
  have hsame : ∀ j, j ≠ id → Same w { w with
      sessions := Function.update w.sessions id { w.sessions id with settled := true }
      settledAt := Function.update w.settledAt id w.timestamp } j := fun j hj =>
    ⟨Function.update_of_ne hj _ _, Function.update_of_ne hj _ _, rfl⟩
  have hnot := h.not_settling (Or.inr hs)
  refine ⟨?_, ?_, fun j hj => ?_, fun j hr' hset hno => ?_⟩
  · rintro r (_ | ⟨_, hr'⟩)
    · refine ⟨⟨?_, ?_, ?_⟩, h.unpaid id (Or.inr hs)⟩
      · simpa using hr
      · simp
      · obtain ⟨h1, h2, h3, h4⟩ := Session.split_ok hq
        simp only [Function.update_self]
        exact ⟨h1, h2, h3, h4⟩
    · refine (h.knows r hr').same fun j hj => hsame j ?_
      rintro rfl
      exact hnot r hr' hj
  · refine List.pairwise_cons.2 ⟨fun r hr' j hj hrj => ?_, h.apart⟩
    cases hj
    exact hnot r hr' hrj
  · by_cases hjid : j = id
    · exact hjid ▸ h.unpaid id (Or.inr hs)
    · rw [(hsame j hjid).sessions] at hj
      exact h.unpaid j hj
  · have hjid : j ≠ id := by
      rintro rfl
      exact hno _ List.mem_cons_self rfl
    have hj := hsame j hjid
    rw [hj.sessions] at hr' hset
    obtain ⟨p, hp, hpaid⟩ := h.paid j hr' hset fun r hr' => hno r (List.mem_cons_of_mem _ hr')
    exact ⟨p, hp.same hj, hpaid.same hj⟩

/-- Nothing about any session changes. -/
theorem same (h : Accounts ps w) (hw : ∀ id, Same w w' id) : Accounts ps w' := by
  refine ⟨fun r hr => (h.knows r hr).same fun id _ => hw id, h.apart, fun id hid => ?_,
    fun id hr hset hno => ?_⟩
  · rw [(hw id).sessions] at hid
    rw [(hw id).payouts]
    exact h.unpaid id hid
  · rw [(hw id).sessions] at hr hset
    obtain ⟨q, hq, hpaid⟩ := h.paid id hr hset hno
    exact ⟨q, hq.same (hw id), hpaid.same (hw id)⟩

/-- A call starts that is no settlement. -/
theorem push (h : Accounts ps w) (hp : p.session = none) (hk : p.Knows w) :
    Accounts (p :: ps) w := by
  refine ⟨?_, ?_, h.unpaid, fun id hr hset hno => ?_⟩
  · rintro r (_ | ⟨_, hr⟩)
    · exact hk
    · exact h.knows r hr
  · exact List.pairwise_cons.2 ⟨fun r _ j hj => absurd (hp.symm.trans hj) nofun, h.apart⟩
  · exact h.paid id hr hset fun r hr' => hno r (List.mem_cons_of_mem _ hr')

/-- A call goes on, and changes at most the payouts of the session it settles. -/
theorem goto (h : Accounts (p :: ps) w) (hs : p'.session = p.session) (hk : p'.Knows w')
    (hw : ∀ id, p.session ≠ some id → Same w w' id) (hsess : w'.sessions = w.sessions) :
    Accounts (p' :: ps) w' := by
  obtain ⟨hapart, htail⟩ := List.pairwise_cons.1 h.apart
  refine ⟨?_, List.pairwise_cons.2 ⟨fun r hr id hid => hapart r hr id (hs ▸ hid), htail⟩,
    fun id hid => ?_, fun id hr hset hno => ?_⟩
  · rintro r (_ | ⟨_, hr⟩)
    · exact hk
    · exact (h.knows r (List.mem_cons_of_mem _ hr)).same fun id hid =>
        hw id fun hpid => hapart r hr id hpid hid
  · rw [hsess] at hid
    rw [(hw id (h.not_settling hid p List.mem_cons_self)).payouts]
    exact h.unpaid id hid
  · have hid := hw id fun hpid => hno p' List.mem_cons_self (hs.trans hpid)
    rw [hid.sessions] at hr hset
    obtain ⟨q, hq, hpaid⟩ := h.paid id hr hset fun r hr' => by
      rcases List.mem_cons.1 hr' with rfl | hr'
      · exact fun hpid => hno p' List.mem_cons_self (hs.trans hpid)
      · exact hno r (List.mem_cons_of_mem _ hr')
    exact ⟨q, hq.same hid, hpaid.same hid⟩

/-- A call returns. -/
theorem pop (h : Accounts (p :: ps) w)
    (hpaid : ∀ id, p.session = some id → ∃ q, w.Settled id q ∧ w.PaidOut id q) :
    Accounts ps w := by
  refine ⟨fun r hr => h.knows r (List.mem_cons_of_mem _ hr), (List.pairwise_cons.1 h.apart).2,
    h.unpaid, fun id hr hset hno => ?_⟩
  by_cases hp : p.session = some id
  · exact hpaid id hp
  · refine h.paid id hr hset fun r hr' => ?_
    rcases List.mem_cons.1 hr' with rfl | hr'
    · exact hp
    · exact hno r hr'

theorem call (h : Accounts ps w) {c : Call} (hw : w.call chain c = some (w', p)) :
    Accounts (p :: ps) w' := by
  obtain ⟨-, hcalled⟩ := called_of_call hw
  cases hcalled with
  | openSession id provider pricePerSecond duration _ hsender hok =>
    obtain ⟨hr, -, rfl⟩ := World.openSession_ok hok
    exact h.change (s := ⟨c.sender, provider, pricePerSecond, w.timestamp, duration,
      c.value, false⟩) (Or.inl hr) rfl rfl trivial rfl rfl rfl
  | topUp id addedDuration _ hok =>
    obtain ⟨hr, hs, -, rfl⟩ := World.topUp_ok hok
    exact h.change (s := { w.sessions id with
      duration := (w.sessions id).duration + addedDuration
      deposited := (w.sessions id).deposited + c.value }) (Or.inr hs) hs rfl trivial rfl rfl rfl
  | settle id _ hok => exact h.settle hok
  | withdraw _ hok =>
    obtain ⟨-, rfl⟩ := World.withdraw_ok hok
    refine push ?_ rfl trivial
    exact h.same fun id => ⟨rfl, rfl, rfl⟩

/-- A payout is recorded. -/
theorem payout (h : Accounts (p :: ps) w) {id : SessionId} (hp : p.session = some id)
    (hs : p'.session = some id) {payout : Payout} (hsess : w'.sessions = w.sessions)
    (hset : w'.settledAt = w.settledAt)
    (hpay : w'.payouts = Function.update w.payouts id (w.payouts id ++ [payout]))
    (hk : p'.Knows w') : Accounts (p' :: ps) w' := by
  refine h.goto (hs.trans hp.symm) hk (fun j hj => ⟨by rw [hsess], by rw [hset], ?_⟩) hsess
  rw [hpay, Function.update_of_ne]
  rintro rfl
  exact hj hp

/-- **Every step of the code keeps the accounts.** -/
theorem act (h : Accounts (p :: ps) w) : (w.act chain p).Keeps Accounts ps w := by
  have hk := h.knows p List.mem_cons_self
  cases p with
  | payProvider sender id q =>
    obtain ⟨hq, hnil⟩ := hk
    simp only [World.act]
    split_ifs with hpos
    · refine World.keeps_pay (fun w' hw => ?_)
        (h.goto rfl ⟨hq, hnil, hpos, rfl⟩ (fun _ _ => .refl) rfl)
      obtain ⟨-, rfl⟩ := World.transfer_some hw
      refine h.payout rfl rfl rfl rfl rfl ⟨⟨hq.renter, hq.settled, hq.exact⟩, ?_⟩
      rw [Delivered, if_neg hpos.ne']
      exact ⟨true, by simp [World.record, hnil]⟩
    · refine h.goto rfl ⟨hq, ?_⟩ (fun _ _ => .refl) rfl
      rw [Delivered, if_pos (Nat.eq_zero_of_not_pos hpos)]
      exact hnil
  | deferProvider sender id q payee =>
    obtain ⟨hq, hnil, hpos, rfl⟩ := hk
    refine World.keeps_defer (h.payout rfl rfl rfl rfl rfl
      ⟨⟨hq.renter, hq.settled, hq.exact⟩, ?_⟩)
    rw [Delivered, if_neg hpos.ne']
    exact ⟨false, by simp [World.record, hnil]⟩
  | payRenter sender id q =>
    obtain ⟨hq, hdel⟩ := hk
    simp only [World.act]
    split_ifs with hpos
    · refine World.keeps_pay (fun w' hw => ?_)
        (h.goto rfl ⟨hq, hdel, hpos, rfl⟩ (fun _ _ => .refl) rfl)
      obtain ⟨-, rfl⟩ := World.transfer_some hw
      refine h.payout rfl rfl rfl rfl rfl ⟨⟨hq.renter, hq.settled, hq.exact⟩,
        w.payouts id, _, Function.update_self .., hdel, ?_⟩
      rw [Delivered, if_neg hpos.ne']
      exact ⟨true, rfl⟩
    · refine h.goto rfl ⟨hq, w.payouts id, [], (List.append_nil _).symm, hdel, ?_⟩
        (fun _ _ => .refl) rfl
      rw [Delivered, if_pos (Nat.eq_zero_of_not_pos hpos)]
  | deferRenter sender id q payee =>
    obtain ⟨hq, hdel, hpos, rfl⟩ := hk
    refine World.keeps_defer (h.payout rfl rfl rfl rfl rfl
      ⟨⟨hq.renter, hq.settled, hq.exact⟩, w.payouts id, _, Function.update_self .., hdel, ?_⟩)
    rw [Delivered, if_neg hpos.ne']
    exact ⟨false, rfl⟩
  | settled sender id q =>
    refine (h.pop fun j hj => ?_).same fun _ => ⟨rfl, rfl, rfl⟩
    cases hj
    exact ⟨q, hk⟩
  | send payee tinybars =>
    simp only [World.act]
    split
    · rename_i w' hw
      obtain ⟨-, rfl⟩ := World.transfer_some hw
      exact ⟨h.goto rfl trivial (fun _ _ => ⟨rfl, rfl, rfl⟩) rfl,
        h.goto rfl trivial (fun _ _ => .refl) rfl⟩
    · exact h.goto rfl trivial (fun _ _ => .refl) rfl
  | withdrawFailed payee tinybars => trivial
  | withdrawn | finished => exact (h.pop fun _ hid => by cases hid).same fun _ => ⟨rfl, rfl, rfl⟩

end Accounts

/-- The accounts, as an invariant of the contract. -/
def accountsOutline (chain : Chain) :
    Program.Outline (sessionEscrow chain) (World.initial chain) fun _ => true where
  I := Accounts
  init := ⟨nofun, List.Pairwise.nil, fun _ _ => rfl, fun _ hr => absurd rfl hr⟩
  start _ _ _ _ _ h hw := h.call hw
  act _ _ _ h := h.act
  env ps w _ _ _ _ h hw := by
    obtain ⟨_, -, -, rfl⟩ | ⟨_, rfl⟩ := World.happen_some hw
    · exact h.same fun _ => ⟨rfl, rfl, rfl⟩
    · exact h.same fun _ => ⟨rfl, rfl, rfl⟩

/-! ### Payouts that are held -/

/-- What a payout leaves to be withdrawn by `a`. -/
def Payout.heldFor (a : Address) (p : Payout) : ℕ :=
  if p.payee = a ∧ p.pushed = false then p.tinybars else 0

/-- All payouts that could not be pushed to `a`. -/
def World.deferred (w : World) (a : Address) : ℕ :=
  total (fun payouts => (payouts.map (Payout.heldFor a)).sum) w.payouts

/-- What a call in progress is withdrawing for `a`. -/
def Pc.sending (a : Address) : Pc → ℕ
  | .send payee tinybars | .withdrawFailed payee tinybars => if payee = a then tinybars else 0
  | _ => 0

/-- **What could not be pushed is held** for its payee, unless they have withdrawn it or are about
to. -/
def Held (ps : List Pc) (w : World) : Prop :=
  ∀ a, w.pendingWithdrawal a + w.withdrawals a + (ps.map (Pc.sending a)).sum = w.deferred a

namespace Held

variable {chain : Chain} {ps : List Pc} {w w' : World} {p p' : Pc}

theorem deferred_record (w : World) (id : SessionId) (payout : Payout) (a : Address) :
    (w.record id payout).deferred a = w.deferred a + payout.heldFor a := by
  have := total_update (fun payouts => (payouts.map (Payout.heldFor a)).sum) w.payouts id
    (w.payouts id ++ [payout])
  simp only [List.map_append, List.sum_append, List.map_cons, List.map_nil, List.sum_cons,
    List.sum_nil] at this
  simp only [World.deferred, World.record]
  omega

/-- A call goes on without a withdrawal. -/
theorem goto (h : Held (p :: ps) w) (hp : ∀ a, p'.sending a = p.sending a) :
    Held (p' :: ps) w := by
  intro a
  simpa only [List.map_cons, List.sum_cons, hp] using h a

theorem push (h : Held ps w) (hp : ∀ a, p.sending a = 0) : Held (p :: ps) w := by
  intro a
  simpa only [List.map_cons, List.sum_cons, hp, zero_add] using h a

theorem pop (h : Held (p :: ps) w) (hp : ∀ a, p.sending a = 0) : Held ps w := by
  intro a
  simpa only [List.map_cons, List.sum_cons, hp, zero_add] using h a

theorem call (h : Held ps w) {c : Call} (hw : w.call chain c = some (w', p)) :
    Held (p :: ps) w' := by
  obtain ⟨-, hcalled⟩ := called_of_call hw
  cases hcalled with
  | openSession id provider pricePerSecond duration _ hsender hok =>
    obtain ⟨-, -, rfl⟩ := World.openSession_ok hok
    exact push (w := w) h fun _ => rfl
  | topUp id addedDuration _ hok =>
    obtain ⟨-, -, -, rfl⟩ := World.topUp_ok hok
    exact push (w := w) h fun _ => rfl
  | settle id _ hok =>
    obtain ⟨-, -, -, rfl⟩ := World.settle_ok hok
    exact push (w := w) h fun _ => rfl
  | withdraw _ hok =>
    obtain ⟨rfl, rfl⟩ := World.withdraw_ok hok
    intro a
    have ha := h a
    simp only [List.map_cons, List.sum_cons, Pc.sending, Function.update_apply]
    show _ = w.deferred a
    by_cases hs : c.sender = a
    · subst hs
      simp only [if_true]
      omega
    · rw [if_neg (Ne.symm hs), if_neg hs]
      omega

/-- A payout that cannot be pushed is held. -/
theorem defer {id : SessionId} {payee : Address} {tinybars : ℕ} {paid : Pc}
    (h : Held (p :: ps) w) (hp : ∀ a, paid.sending a = p.sending a) :
    (w.defer id payee tinybars paid).Keeps Held ps w := by
  refine World.keeps_defer fun a => ?_
  have ha := h a
  rw [deferred_record]
  simp only [World.deferred, List.map_cons, List.sum_cons, hp, World.record,
    Function.update_apply, Payout.heldFor, and_true] at ha ⊢
  by_cases hs : payee = a
  · subst hs
    rw [if_pos rfl, if_pos rfl]
    omega
  · rw [if_neg (Ne.symm hs), if_neg hs, add_zero]
    exact ha

/-- A payout that is pushed is not. -/
theorem pushed {id : SessionId} {payee : Address} {tinybars n : ℕ} (h : Held (p :: ps) w)
    (hp : ∀ a, p'.sending a = p.sending a) (hw : w.transfer chain payee n = some w') :
    Held (p' :: ps) (w'.record id ⟨payee, tinybars, true⟩) := by
  intro a
  obtain ⟨-, rfl⟩ := World.transfer_some hw
  have ha := h.goto hp a
  rw [deferred_record]
  simpa [World.deferred, World.record, Payout.heldFor] using ha

theorem act (h : Held (p :: ps) w) : (w.act chain p).Keeps Held ps w := by
  cases p with
  | payProvider sender id q | payRenter sender id q =>
    simp only [World.act]
    split_ifs with hpos
    · exact World.keeps_pay (fun w' hw => h.pushed (fun _ => rfl) hw) (h.goto fun _ => rfl)
    · exact h.goto fun _ => rfl
  | deferProvider sender id q payee | deferRenter sender id q payee =>
    exact h.defer fun _ => rfl
  | send payee tinybars =>
    simp only [World.act]
    split
    · rename_i w' hw
      obtain ⟨-, rfl⟩ := World.transfer_some hw
      refine ⟨fun a => ?_, h.goto fun _ => rfl⟩
      have ha := h a
      simp only [List.map_cons, List.sum_cons, Pc.sending, Function.update_apply] at ha ⊢
      show _ = w.deferred a
      by_cases hs : payee = a
      · subst hs
        simp only [if_true] at ha ⊢
        omega
      · rw [if_neg hs] at ha
        rw [if_neg (Ne.symm hs)]
        omega
    · exact h.goto fun _ => rfl
  | withdrawFailed payee tinybars => trivial
  | settled | withdrawn | finished => exact h.pop fun _ => rfl

end Held

/-- The payouts that are held, as an invariant of the contract. -/
def heldOutline (chain : Chain) :
    Program.Outline (sessionEscrow chain) (World.initial chain) fun _ => true where
  I := Held
  init a := by
    have hd : (World.initial chain).deferred a = 0 := total_eq_zero fun _ => rfl
    rw [hd]
    rfl
  start _ _ _ _ _ h hw := h.call hw
  act _ _ _ h := h.act
  env ps w _ _ _ _ h hw := by
    obtain ⟨_, -, -, rfl⟩ | ⟨_, rfl⟩ := World.happen_some hw
    · exact h
    · exact h

/-! ### Settlements go through -/

/-- How much of a settlement is left. -/
def Pc.rank : Pc → ℕ
  | .payProvider .. => 5
  | .deferProvider .. => 4
  | .payRenter .. => 3
  | .deferRenter .. => 2
  | .settled .. => 1
  | _ => 0

/-- The split of a priced deposit does not over- or underflow. -/
theorem Session.exists_split {s : Session} {now : ℕ}
    (hd : s.deposited = s.pricePerSecond * s.duration) (ht : s.startTime ≤ now)
    (hlt : s.deposited < wordSize) : ∃ q, s.split now = .ok q := by
  let elapsed := if s.duration < now - s.startTime then s.duration else now - s.startTime
  have helapsed : elapsed ≤ s.duration := by
    dsimp only [elapsed]
    split_ifs <;> omega
  have hle : s.pricePerSecond * elapsed ≤ s.deposited :=
    hd ▸ Nat.mul_le_mul_left s.pricePerSecond helapsed
  refine ⟨⟨elapsed, s.pricePerSecond * elapsed, s.deposited - s.pricePerSecond * elapsed⟩, ?_⟩
  simp only [split, sub, mul, if_pos ht]
  rw [if_pos (hle.trans_lt hlt)]
  dsimp only
  rw [if_pos hle]

section Split

variable {s : Session} {q q₁ q₂ : Split} {t₁ t₂ : ℕ}

/-- **The earlier, the less for the provider**, and the more for the renter. -/
theorem Split.Exact.mono (h₁ : q₁.Exact s t₁) (h₂ : q₂.Exact s t₂) (h : t₁ ≤ t₂) :
    q₁.providerAmount ≤ q₂.providerAmount ∧ q₂.refundAmount ≤ q₁.refundAmount := by
  have helapsed : q₁.elapsed ≤ q₂.elapsed := by
    rw [h₁.elapsed, h₂.elapsed]
    omega
  have hpa : q₁.providerAmount ≤ q₂.providerAmount := by
    rw [h₁.provider, h₂.provider]
    exact Nat.mul_le_mul_left _ helapsed
  have := h₁.refund
  have := h₂.refund
  exact ⟨hpa, by omega⟩

end Split

section Reachable

variable {chain : Chain} {c : Program.Config World Pc} {id : SessionId}

theorem priced_of_reachable (h : (escrowSystem chain).Reachable c) : c.state.Priced :=
  ((pricedOutline chain).holds_of_reachable h).state

theorem opened_of_reachable (h : (escrowSystem chain).Reachable c) : c.state.Opened :=
  ((openedOutline chain).holds_of_reachable h).state

theorem accounts_of_reachable (h : (escrowSystem chain).Reachable c) :
    Accounts c.points c.state :=
  ((accountsOutline chain).holds_of_reachable h).state

theorem held_of_reachable (h : (escrowSystem chain).Reachable c) : Held c.points c.state :=
  ((heldOutline chain).holds_of_reachable h).state

/-- A session that is not settled can be, and is split as quoted. -/
theorem settle_of_reachable (h : (escrowSystem chain).Reachable c)
    (hr : (c.state.sessions id).renter ≠ 0) (hs : (c.state.sessions id).settled = false)
    {sender : Address} (h0 : sender ≠ 0) (hself : sender ≠ chain.self) :
    ∃ w q, c.state.call chain ⟨sender, 0, .settle id⟩ = some (w, .payProvider sender id q) ∧
      c.state.quoteSettlement id = .ok q ∧
      q.Exact (c.state.sessions id) c.state.timestamp := by
  obtain ⟨hd, ht⟩ := priced_of_reachable h id hr
  have hheld : (c.state.sessions id).held = (c.state.sessions id).deposited := by
    simp [Session.held, hr, hs]
  have hb := books_of_reachable h
  have hlt := hb.balance_lt
  have hbal := hb.balance
  have hle := held_le_deposits c.state id
  obtain ⟨q, hq⟩ := Session.exists_split hd ht (by omega)
  obtain ⟨w, hok⟩ : ∃ w, c.state.settle id = .ok (w, q) := ⟨{ c.state with
      sessions := Function.update c.state.sessions id { c.state.sessions id with settled := true }
      settledAt := Function.update c.state.settledAt id c.state.timestamp }, by
    simp only [World.settle, hr, hs, if_false, Bool.false_eq_true, hq]⟩
  refine ⟨w, q, ?_, World.quoteSettlement_of_settle hok, Session.split_ok hq⟩
  simp only [World.call, h0, hself, Nat.not_lt_zero, or_self, if_false, ne_eq, not_true, hok,
    Except.toOption, Option.map_some]

/-- A settlement in progress proceeds. -/
theorem proceeds_of_reachable (h : (escrowSystem chain).Reachable c) {entry : World} {p : Pc}
    {fs : List (Program.Frame World Pc)} (hc : c.stack = .running entry p :: fs)
    (hp : p.session ≠ none) : (c.state.act chain p).Proceeds Pc.rank p.rank := by
  have hb := books_of_reachable h
  have hpoints : c.points = p :: fs.filterMap Program.Frame.point := by
    rw [Program.Config.points, hc]
    rfl
  have hlt := hb.balance_lt
  have hbal := hb.balance
  rw [hpoints, due_cons] at hbal
  have hpay : ∀ (id : SessionId) (payee : Address) (tinybars : ℕ) (paid deferred : Pc) (n : ℕ),
      paid.rank < n → deferred.rank < n →
      (c.state.pay chain id payee tinybars paid deferred).Proceeds Pc.rank n := by
    intro id payee tinybars paid deferred n hpaid hdeferred
    unfold World.pay
    split
    · exact ⟨hpaid, hdeferred⟩
    · exact hdeferred
  -- what is held for the payee and the payout are parts of the balance
  have hdefer : ∀ (id : SessionId) (payee : Address) (tinybars : ℕ) (paid : Pc) (n : ℕ),
      paid.rank < n → tinybars ≤ p.due →
      (c.state.defer id payee tinybars paid).Proceeds Pc.rank n := by
    intro id payee tinybars paid n hpaid hdue
    have hle := pendingWithdrawal_le_pending c.state payee
    have hadd : add (c.state.pendingWithdrawal payee) tinybars =
        .ok (c.state.pendingWithdrawal payee + tinybars) := if_pos (by omega)
    rw [World.defer, hadd]
    exact hpaid
  cases p with
  | payProvider sender id q =>
    simp only [World.act]
    split_ifs
    · exact hpay _ _ _ _ _ _ (show 3 < 5 by decide) (show 4 < 5 by decide)
    · exact show 3 < 5 by decide
  | deferProvider sender id q payee =>
    exact hdefer _ _ _ _ _ (show 3 < 4 by decide) (Nat.le_add_right _ _)
  | payRenter sender id q =>
    simp only [World.act]
    split_ifs
    · exact hpay _ _ _ _ _ _ (show 1 < 3 by decide) (show 2 < 3 by decide)
    · exact show 1 < 3 by decide
  | deferRenter sender id q payee =>
    exact hdefer _ _ _ _ _ (show 1 < 2 by decide) le_rfl
  | settled sender id q => trivial
  | _ => exact absurd rfl hp

end Reachable

/-- **No deposit is stranded.** -/
structure Unstranded (chain : Chain) (c : Program.Config World Pc) : Prop where
  /-- A deposit is the price of the duration. -/
  priced : ∀ id, (c.state.sessions id).renter ≠ 0 → (c.state.sessions id).deposited =
    (c.state.sessions id).pricePerSecond * (c.state.sessions id).duration
  /-- A session is with those who opened it. -/
  opened : ∀ id, (c.state.sessions id).renter ≠ 0 → ∃ duration deposited,
    c.state.openings id = [.sessionOpened id (c.state.sessions id).renter
      (c.state.sessions id).provider (c.state.sessions id).pricePerSecond duration deposited
      (c.state.sessions id).startTime]
  /-- Anyone can settle a session, and it is split as of now, and as quoted. -/
  settles : ∀ id, (c.state.sessions id).renter ≠ 0 → (c.state.sessions id).settled = false →
    ∀ sender, sender ≠ 0 → sender ≠ chain.self → ∃ w q,
      c.state.call chain ⟨sender, 0, .settle id⟩ = some (w, .payProvider sender id q) ∧
      c.state.quoteSettlement id = .ok q ∧ q.Exact (c.state.sessions id) c.state.timestamp
  /-- A settlement in progress never reverts, and comes to its end. -/
  proceeds : ∀ entry p fs, c.stack = .running entry p :: fs → p.session ≠ none →
    (c.state.act chain p).Proceeds Pc.rank p.rank
  /-- Once it is over, both parties have been paid the exact amounts. -/
  paid : ∀ id, (c.state.sessions id).renter ≠ 0 → (c.state.sessions id).settled = true →
    (∀ p ∈ c.points, p.session ≠ some id) → ∃ q, c.state.Settled id q ∧ c.state.PaidOut id q
  /-- What could not be pushed can be withdrawn. -/
  held : Held c.points c.state
  /-- The earlier a session is settled, the less goes to the provider. -/
  mono : ∀ id t₁ t₂ q₁ q₂, t₁ ≤ t₂ → (c.state.sessions id).split t₁ = .ok q₁ →
    (c.state.sessions id).split t₂ = .ok q₂ →
    q₁.providerAmount ≤ q₂.providerAmount ∧ q₂.refundAmount ≤ q₁.refundAmount

/-- **No deposit is stranded, and the split is exact**, in every reachable state. -/
theorem unstranded_of_reachable {chain : Chain} {c : Program.Config World Pc}
    (h : (escrowSystem chain).Reachable c) : Unstranded chain c where
  priced id hr := (priced_of_reachable h id hr).1
  opened id hr := by simpa only [if_neg hr] using opened_of_reachable h id
  settles _ hr hs _ h0 hself := settle_of_reachable h hr hs h0 hself
  proceeds _ _ _ hc hp := proceeds_of_reachable h hc hp
  paid := (accounts_of_reachable h).paid
  held := held_of_reachable h
  mono _ _ _ _ _ ht h₁ h₂ := (Session.split_ok h₁).mono (Session.split_ok h₂) ht

/-- Both sessions are settled, the first one from its provider's payout. -/
theorem unstranded_settleReentered : ∃ c, (escrowSystem .small).Reachable c ∧
    c.state.payouts 1 = [⟨3, 10, false⟩, ⟨2, 10, true⟩] ∧ Unstranded .small c := by
  obtain ⟨c, hc, hp⟩ := System.exists_reach (S := escrowSystem .small)
    (C := fun _ _ => True)
    (p := fun c => decide (c.state.payouts 1 = [⟨3, 10, false⟩, ⟨2, 10, true⟩]))
    settleReentered (by decide +kernel)
  exact ⟨c, hc.reachable, of_decide_eq_true hp, unstranded_of_reachable hc.reachable⟩

end SessionEscrow
end Mach402
