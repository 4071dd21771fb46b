import Mach402.Contracts.Quotes

/-!
# What a record keeps

A mirror node shows the escrow contract as it stands between two transactions, when there is no
call in progress that might still fail and undo what it shows.

* `Session.Kept`, `kept_of_run`: from there on the record of a session stays with the same parties,
  at the same price and start, its time only grows, and once it is settled it does not change;
* `World.Recorded`, `recorded_of_reachable`: an id that nobody has opened reads as zero, and no
  deposit is more than all the money there is;
* `Session.Secured`, `secured_of_run`: what a deposit is good for.
-/

namespace Mach402

namespace SessionEscrow

/-! ### What stays -/

/-- What later transactions leave of a record. -/
structure Session.Kept (s t : Session) : Prop where
  renter : t.renter = s.renter
  provider : t.provider = s.provider
  pricePerSecond : t.pricePerSecond = s.pricePerSecond
  startTime : t.startTime = s.startTime
  duration : s.duration ≤ t.duration
  settled : s.settled = true → t = s

section Kept

variable {chain : Chain} {w w' : World} {p : Pc} {s t : Session} {id : SessionId}

theorem Session.Kept.refl (s : Session) : s.Kept s := ⟨rfl, rfl, rfl, rfl, le_rfl, fun _ => rfl⟩

/-- A call leaves it to every record that exists. -/
theorem kept_call (hr : s.renter ≠ 0) (h : s.Kept (w.sessions id)) {c : Call}
    (hw : w.call chain c = some (w', p)) : s.Kept (w'.sessions id) := by
  have hrenter : (w.sessions id).renter ≠ 0 := by rw [h.renter]; exact hr
  -- a record that is not settled has not been settled before
  have hopen : (w.sessions id).settled = false → s.settled ≠ true := by
    intro hfalse hs
    rw [h.settled hs, hs] at hfalse
    cases hfalse
  obtain ⟨-, hcalled⟩ := called_of_call hw
  cases hcalled with
  | openSession j provider pricePerSecond duration _ _ hok =>
    obtain ⟨hnone, -, rfl⟩ := World.openSession_ok hok
    have hne : id ≠ j := by
      rintro rfl
      exact hrenter hnone
    show s.Kept (Function.update w.sessions j _ id)
    rw [Function.update_of_ne hne]
    exact h
  | topUp j addedDuration _ hok =>
    obtain ⟨-, hlive, -, rfl⟩ := World.topUp_ok hok
    show s.Kept (Function.update w.sessions j _ id)
    by_cases hj : id = j
    · subst hj
      rw [Function.update_self]
      exact ⟨h.renter, h.provider, h.pricePerSecond, h.startTime,
        h.duration.trans (Nat.le_add_right _ _), fun hs => absurd hs (hopen hlive)⟩
    · rw [Function.update_of_ne hj]
      exact h
  | settle j _ hok =>
    obtain ⟨-, hlive, -, rfl⟩ := World.settle_ok hok
    show s.Kept (Function.update w.sessions j _ id)
    by_cases hj : id = j
    · subst hj
      rw [Function.update_self]
      exact ⟨h.renter, h.provider, h.pricePerSecond, h.startTime, h.duration,
        fun hs => absurd hs (hopen hlive)⟩
    · rw [Function.update_of_ne hj]
      exact h
  | withdraw _ hok =>
    obtain ⟨-, rfl⟩ := World.withdraw_ok hok
    exact h

/-- The record is kept, as an invariant of all that follows on `w`. -/
def keptOutline (chain : Chain) (w : World) (id : SessionId) (hr : (w.sessions id).renter ≠ 0) :
    Program.Outline (sessionEscrow chain) w fun _ => true where
  I _ v := (w.sessions id).Kept (v.sessions id)
  init := .refl _
  start _ _ _ _ _ h hv := kept_call hr h hv
  act _ _ _ h := Act.Keeps.mono isolated_act fun _ _ hu => by
    rw [hu.sessions]
    exact h
  env _ v _ _ _ _ h hv := by
    obtain ⟨_, -, -, rfl⟩ | ⟨_, rfl⟩ := World.happen_some hv
    · exact h
    · exact h

/-- **A record is kept** from any point between two transactions on. -/
theorem kept_of_run {c d : Program.Config World Pc} (hc : c.stack = [])
    (hr : (c.state.sessions id).renter ≠ 0) (h : (escrowSystem chain).Run System.Any c d) :
    (c.state.sessions id).Kept (d.state.sessions id) := by
  obtain ⟨w, stack⟩ := c
  obtain rfl : stack = [] := hc
  -- with nothing to be undone, `w` is as good a start as the deployment
  have hreach : ((sessionEscrow chain).system w).Reachable d := h
  exact ((keptOutline chain w id hr).holds_of_reachable hreach).state

end Kept

/-! ### What is recorded -/

/-- Nothing is recorded that nobody has paid for. -/
def World.Recorded (chain : Chain) (w : World) : Prop := ∀ id,
  ((w.sessions id).renter = 0 → w.sessions id = .zero) ∧ (w.sessions id).deposited ≤ chain.supply

section Recorded

variable {chain : Chain} {ps : List Pc} {w w' : World} {p : Pc}

theorem World.Recorded.update (h : w.Recorded chain) {id : SessionId} {s : Session}
    (hr : s.renter ≠ 0) (hs : s.deposited ≤ chain.supply)
    (hw : w'.sessions = Function.update w.sessions id s) : w'.Recorded chain := by
  intro j
  rw [hw, Function.update_apply]
  split_ifs
  · exact ⟨fun h0 => absurd h0 hr, hs⟩
  · exact h j

/-- What comes in is part of all the money, beside what is held already. -/
theorem recorded_call (hb : Books chain ps w) (h : w.Recorded chain) {c : Call}
    (hw : w.call chain c = some (w', p)) : w'.Recorded chain := by
  have hbalance := hb.balance
  have hsupply := hb.supply
  obtain ⟨hvalue, hcalled⟩ := called_of_call hw
  cases hcalled with
  | openSession id provider pricePerSecond duration _ hsender hok =>
    obtain ⟨-, -, rfl⟩ := World.openSession_ok hok
    refine h.update (s := ⟨c.sender, provider, pricePerSecond, w.timestamp, duration, c.value,
      false⟩) hsender ?_ rfl
    show c.value ≤ chain.supply
    omega
  | topUp id addedDuration _ hok =>
    obtain ⟨hr, hlive, -, rfl⟩ := World.topUp_ok hok
    have hr : (w.sessions id).renter ≠ 0 := hr
    have hlive : (w.sessions id).settled = false := hlive
    have hheld : (w.sessions id).held = (w.sessions id).deposited := by
      simp [Session.held, hr, hlive]
    have hle := held_le_deposits w id
    refine h.update (s := { w.sessions id with
      duration := (w.sessions id).duration + addedDuration
      deposited := (w.sessions id).deposited + c.value }) hr ?_ rfl
    show (w.sessions id).deposited + c.value ≤ chain.supply
    omega
  | settle id _ hok =>
    obtain ⟨hr, -, -, rfl⟩ := World.settle_ok hok
    exact h.update (s := { w.sessions id with settled := true }) hr (h id).2 rfl
  | withdraw _ hok =>
    obtain ⟨-, rfl⟩ := World.withdraw_ok hok
    exact h

/-- The records, with the books, as an invariant of the contract. -/
def recordedOutline (chain : Chain) :
    Program.Outline (sessionEscrow chain) (World.initial chain) fun _ => true where
  I ps w := Books chain ps w ∧ w.Recorded chain
  init := ⟨(booksOutline chain).init, fun _ => ⟨fun _ => rfl, Nat.zero_le _⟩⟩
  start ps w c w' p h hw := ⟨h.1.call hw, recorded_call h.1 h.2 hw⟩
  act ps w p h := h.1.act.and (Act.Keeps.mono isolated_act fun _ _ hu id => by
    rw [hu.sessions]
    exact h.2 id)
  env ps w _ _ _ _ h hw := by
    refine ⟨h.1.happen hw, ?_⟩
    obtain ⟨_, -, -, rfl⟩ | ⟨_, rfl⟩ := World.happen_some hw
    · exact h.2
    · exact h.2

theorem recorded_of_reachable {c : Program.Config World Pc}
    (h : (escrowSystem chain).Reachable c) : c.state.Recorded chain :=
  ((recordedOutline chain).holds_of_reachable h).state.2

end Recorded

/-! ### What a deposit is good for -/

/-- **The deposit of a session is secured** in a later state: it is kept for the time paid, and it
is split as it should be whenever somebody settles. -/
structure Secured (chain : Chain) (s : Session) (id : SessionId) (d : Program.Config World Pc) :
    Prop where
  kept : s.Kept (d.state.sessions id)
  /-- It pays for every second, at the same price. -/
  paid : (d.state.sessions id).deposited =
    (d.state.sessions id).pricePerSecond * (d.state.sessions id).duration
  /-- Until it is settled anybody can settle it, whatever the payees do. -/
  settles : (d.state.sessions id).settled = false → d.yielded = true → ∀ sender, sender ≠ 0 →
    sender ≠ chain.self → ∃ q, Settles chain d sender id q ∧
      q.Exact (d.state.sessions id) d.state.timestamp
  /-- Once that is over the provider has what was used, and the renter the rest. -/
  split : (d.state.sessions id).settled = true → (∀ p ∈ d.points, p.session ≠ some id) →
    ∃ q, d.state.Settled id q ∧ d.state.PaidOut id q

/-- A deposit that has been made is secured for good. -/
theorem secured_of_run {chain : Chain} {c d : Program.Config World Pc} {id : SessionId}
    (h : (escrowSystem chain).Reachable c) (hc : c.stack = [])
    (hr : (c.state.sessions id).renter ≠ 0) (hd : (escrowSystem chain).Run System.Any c d) :
    Secured chain (c.state.sessions id) id d := by
  have hreach : (escrowSystem chain).Reachable d := Relation.ReflTransGen.trans h hd
  have hkept := kept_of_run hc hr hd
  have hexists : (d.state.sessions id).renter ≠ 0 := by rw [hkept.renter]; exact hr
  refine ⟨hkept, (priced_of_reachable hreach id hexists).1, fun hs hy sender h0 hself => ?_,
    (accounts_of_reachable hreach).paid id hexists⟩
  obtain ⟨w, q, hw, -, hq⟩ := settle_of_reachable hreach hexists hs h0 hself
  exact ⟨q, settles_of_call hreach hy hw, hq⟩

end SessionEscrow
end Mach402
