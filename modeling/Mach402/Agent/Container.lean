import Mach402.Agent.Expiry

/-!
# The meter and the container

`PauseLease`, `ResumeLease`, the sweep and the calls to Docker they make, one after the other, over
one lease and its container.  A lease is paused before Docker is asked to freeze its container, and
active, its meter running, before Docker is asked to thaw it; neither is taken back when the call
fails.

* `Rental`: the lease, its container, the clock, and the call to Docker in progress;
* `rental`: all of it as a system;
* `meter_runs`: between two calls the status says what the container does, in every run in which
  the calls succeed; and only time in which the container ran is burned, if it is thawed at once.
-/

namespace Mach402

/-- What the container does. -/
inductive Container
  | running (since : ℤ)
  | frozen
  | removed
  deriving DecidableEq, Repr

/-- It is neither frozen nor gone. -/
def Container.isRunning : Container → Bool
  | .running _ => true
  | _ => false

/-- A call to Docker: the freeze of `PauseLease`, the thaw of `ResumeLease`, and the two of
`reapLeaseResources`. -/
inductive DockerCall
  | pause
  | unpause
  | thaw
  | remove
  deriving DecidableEq, Repr

/-- A lease with its container, and the call in progress. -/
structure Rental where
  lease : Lease
  container : Container
  clock : ℤ
  call : Option DockerCall
  deriving DecidableEq, Repr

/-- What happens next. -/
inductive RentalStep
  | advance (nanoseconds : ℕ)
  /-- The call in progress returns. -/
  | returns (ok : Bool)
  | addCredit (amount : ℤ)
  | pauseLease
  | resumeLease
  /-- The clock goes on between its readings. -/
  | sweep (toCheck toPause : ℕ)
  /-- `handleSessionStop`. -/
  | stop
  deriving DecidableEq, Repr

namespace Rental

/-- `PauseLease`, up to its call. -/
def pauseLease (r : Rental) : Rental :=
  if r.lease.status ≠ .active then r
  else
    { r with
      lease := r.lease.pause r.clock
      call := if r.lease.containerID = "" then none else some .pause }

/-- `ResumeLease`, up to its call. -/
def resumeLease (r : Rental) : Rental :=
  if r.lease.status ≠ .paused then r
  else
    { r with
      lease := r.lease.resume r.clock
      call := if r.lease.containerID = "" then none else some .unpause }

/-- `StopLease`, up to the calls of `reapLeaseResources`. -/
def stopLease (status : LeaseStatus) (r : Rental) : Rental :=
  if r.lease.status.isTerminal then r
  else
    { r with
      lease := r.lease.stop status
      call := if r.lease.containerID = "" then none else some .thaw }

/-- The meter ticks. -/
def burn (r : Rental) : Rental := { r with lease := (r.lease.burn r.clock).1 }

/-- The clock goes on. -/
def wait (nanoseconds : ℕ) (r : Rental) : Rental := { r with clock := r.clock + nanoseconds }

/-- The second half of `sweepLeases`. -/
def sweepSwitch (leases : Leases) (toPause : ℕ) (r : Rental) : Rental :=
  match r.lease.status with
  | .active =>
    if r.lease.fullyPaid ∧ r.lease.secondsRemaining = 0 then r.stopLease .expired
    else if r.lease.overdueBy r.clock < sessionFreezeGrace then r
    else (r.wait toPause).pauseLease
  | .paused =>
    if r.lease.pausedFor r.clock < Duration.ofSeconds (leases.graceMinutes * 60) then r
    else r.stopLease .expired
  | _ => r

/-- `sweepLeases`, up to its call. -/
def sweep (leases : Leases) (toCheck toPause : ℕ) (r : Rental) : Rental :=
  if r.lease.status.isTerminal then r
  else if r.lease.sessionID ≠ "" ∧ r.lease.status = .active then
    (r.burn.wait toCheck).sweepSwitch leases toPause
  else (r.wait toCheck).sweepSwitch leases toPause

/-- `handleSessionStop`, up to its call. -/
def stop (r : Rental) : Rental :=
  if r.lease.status = .active then r.burn.stopLease .stopped else r.stopLease .stopped

/-- What a call to Docker does when it returns.  A container that is frozen is not removed. -/
def returned (r : Rental) : DockerCall → Bool → Rental
  | .pause, ok => { r with container := if ok then .frozen else r.container, call := none }
  | .unpause, ok =>
    { r with container := if ok then .running r.clock else r.container, call := none }
  | .thaw, ok =>
    { r with
      container := if ok ∧ r.container = .frozen then .running r.clock else r.container
      call := some .remove }
  | .remove, ok =>
    { r with
      container := if ok ∧ r.container ≠ .frozen then .removed else r.container
      call := none }

/-- One step.  The operations come one after the other, each once the call before has returned; a
payment may be banked at any time. -/
def step (leases : Leases) (r : Rental) : RentalStep → Option Rental
  | .advance nanoseconds => some (r.wait nanoseconds)
  | .returns ok => r.call.map fun call => r.returned call ok
  | .addCredit amount => some { r with lease := r.lease.addCredit amount }
  | .pauseLease => if r.call = none then some r.pauseLease else none
  | .resumeLease => if r.call = none then some r.resumeLease else none
  | .sweep toCheck toPause => if r.call = none then some (r.sweep leases toCheck toPause) else none
  | .stop => if r.call = none then some r.stop else none

/-- A session that has just been opened: it is active, and its container runs. -/
structure Opened (r : Rental) : Prop where
  active : r.lease.status = .active
  sessionID : r.lease.sessionID ≠ ""
  containerID : r.lease.containerID ≠ ""
  idle : r.call = none
  running : ∃ since, r.container = .running since ∧ since ≤ r.lease.lastTickAt ∧ since ≤ r.clock

end Rental

/-- **The lease and its container** from `r` on. -/
def rental (leases : Leases) (r : Rental) : System Rental RentalStep where
  init := r
  step := Rental.step leases

/-- The calls to Docker succeed; a container that is not frozen need not be thawed. -/
def Rental.Succeeds (r : Rental) : RentalStep → Prop
  | .returns ok => ok = true ∨ r.call = some .thaw ∧ r.container ≠ .frozen
  | _ => True

/-- No time passes while a container is being thawed for its renter. -/
def Rental.Prompt (r : Rental) : RentalStep → Prop
  | .advance _ => r.call ≠ some .unpause
  | _ => True

instance (r : Rental) : (l : RentalStep) → Decidable (r.Succeeds l)
  | .returns _ => inferInstanceAs (Decidable (_ ∨ _))
  | .advance _ | .addCredit _ | .pauseLease | .resumeLease | .sweep .. | .stop =>
    inferInstanceAs (Decidable True)

instance (r : Rental) : (l : RentalStep) → Decidable (r.Prompt l)
  | .advance _ => inferInstanceAs (Decidable (_ ≠ _))
  | .returns _ | .addCredit _ | .pauseLease | .resumeLease | .sweep .. | .stop =>
    inferInstanceAs (Decidable True)

/-! ### The status says what the container does -/

namespace Rental

/-- **What the container does**, by the status of the lease and the call in progress. -/
def Agrees (r : Rental) : Prop :=
  match r.call with
  | none => r.lease.status = .active ∧ r.container.isRunning ∨
      r.lease.status = .paused ∧ r.container = .frozen ∨
      r.lease.status.isTerminal ∧ r.container = .removed
  | some .pause => r.lease.status = .paused ∧ r.container.isRunning
  | some .unpause => r.lease.status = .active ∧ r.container = .frozen
  | some .thaw => r.lease.status.isTerminal ∧ r.container ≠ .removed
  | some .remove => r.lease.status.isTerminal ∧ r.container.isRunning

/-- A session with a container. -/
structure Live (r : Rental) : Prop where
  sessionID : r.lease.sessionID ≠ ""
  containerID : r.lease.containerID ≠ ""
  agrees : r.Agrees

section Keep

variable {r r' : Rental} {leases : Leases}

/-- An operation keeps the ids. -/
theorem Live.of_apply (h : r.Live) (op : LeaseOp) (hop : ∀ c, op ≠ .setContainer c)
    (hm : ∀ now s y p c, op ≠ .markMetered now s y p c) (hl : r'.lease = r.lease.apply op)
    (ha : r'.Agrees) : r'.Live := by
  refine ⟨?_, ?_, ha⟩
  · rw [hl, Lease.sessionID_apply]
    cases op with
    | markMetered => exact absurd rfl (hm _ _ _ _ _)
    | _ => exact h.sessionID
  · rw [hl, Lease.containerID_apply]
    cases op with
    | setContainer => exact absurd rfl (hop _)
    | _ => exact h.containerID

/-- An operation that keeps the status keeps the agreement. -/
theorem Live.of_status (h : r.Live) (op : LeaseOp) (hop : ∀ c, op ≠ .setContainer c)
    (hm : ∀ now s y p c, op ≠ .markMetered now s y p c)
    (hs : (r.lease.apply op).status = r.lease.status) :
    Live { r with lease := r.lease.apply op } := by
  refine h.of_apply op hop hm rfl ?_
  have ha := h.agrees
  simp only [Agrees, hs] at ha ⊢
  exact ha

theorem Live.wait (h : r.Live) (n : ℕ) : (r.wait n).Live := ⟨h.sessionID, h.containerID, h.agrees⟩

theorem Live.burn (h : r.Live) : r.burn.Live :=
  h.of_status (.burn r.clock) (by simp) (by simp) (Lease.status_apply _ _)

/-- Between two calls, an active lease has a container that runs. -/
theorem Live.running (h : r.Live) (hc : r.call = none) (ha : r.lease.status = .active) :
    r.container.isRunning := by
  have hagrees := h.agrees
  simpa [Agrees, hc, ha, LeaseStatus.isTerminal] using hagrees

/-- A paused one has one that is frozen. -/
theorem Live.frozen (h : r.Live) (hc : r.call = none) (hp : r.lease.status = .paused) :
    r.container = .frozen := by
  have hagrees := h.agrees
  simpa [Agrees, hc, hp, LeaseStatus.isTerminal] using hagrees

/-- One that is not over has one. -/
theorem Live.ne_removed (h : r.Live) (hc : r.call = none) (ho : ¬ r.lease.status.isTerminal) :
    r.container ≠ .removed := by
  intro hr
  have hagrees := h.agrees
  simp [Agrees, hc, hr, Container.isRunning, ho] at hagrees

theorem Live.pauseLease (h : r.Live) (hc : r.call = none) : r.pauseLease.Live := by
  unfold Rental.pauseLease
  split_ifs with ha hid
  · exact h
  · exact absurd hid h.containerID
  · have hst := Lease.status_apply r.lease (.pause r.clock)
    dsimp only at hst
    rw [if_pos (not_not.1 ha)] at hst
    exact h.of_apply (.pause r.clock) (by simp) (by simp) rfl
      ⟨hst, h.running hc (not_not.1 ha)⟩

theorem Live.resumeLease (h : r.Live) (hc : r.call = none) : r.resumeLease.Live := by
  unfold Rental.resumeLease
  split_ifs with hp hid
  · exact h
  · exact absurd hid h.containerID
  · have hst := Lease.status_apply r.lease (.resume r.clock)
    dsimp only at hst
    rw [if_pos (not_not.1 hp)] at hst
    exact h.of_apply (.resume r.clock) (by simp) (by simp) rfl
      ⟨hst, h.frozen hc (not_not.1 hp)⟩

theorem Live.stopLease (h : r.Live) (hc : r.call = none) {status : LeaseStatus}
    (hs : status.isTerminal) : (r.stopLease status).Live := by
  unfold Rental.stopLease
  split_ifs with ho hid
  · exact h
  · exact absurd hid h.containerID
  · have hst := Lease.status_apply r.lease (.stop status)
    dsimp only at hst
    rw [if_neg ho] at hst
    refine h.of_apply (.stop status) (by simp) (by simp) rfl ⟨?_, h.ne_removed hc ho⟩
    show (r.lease.apply (.stop status)).status.isTerminal = true
    rw [hst]
    exact hs

theorem Live.sweepSwitch (h : r.Live) (hc : r.call = none) (toPause : ℕ) :
    (r.sweepSwitch leases toPause).Live := by
  unfold Rental.sweepSwitch
  split
  · split_ifs
    · exact h.stopLease hc rfl
    · exact h
    · exact (h.wait toPause).pauseLease hc
  · split_ifs
    · exact h
    · exact h.stopLease hc rfl
  · exact h

theorem Live.sweep (h : r.Live) (hc : r.call = none) (toCheck toPause : ℕ) :
    (r.sweep leases toCheck toPause).Live := by
  unfold Rental.sweep
  split_ifs
  · exact h
  · exact (h.burn.wait toCheck).sweepSwitch hc toPause
  · exact (h.wait toCheck).sweepSwitch hc toPause

theorem Live.stop (h : r.Live) (hc : r.call = none) : r.stop.Live := by
  unfold Rental.stop
  split_ifs
  · exact h.burn.stopLease hc rfl
  · exact h.stopLease hc rfl

/-- A call that succeeds makes the container do what the status says. -/
theorem Live.returned (h : r.Live) {call : DockerCall} (hc : r.call = some call) {ok : Bool}
    (hok : ok = true ∨ r.call = some .thaw ∧ r.container ≠ .frozen) :
    (r.returned call ok).Live := by
  have hagrees := h.agrees
  refine ⟨?_, ?_, ?_⟩
  · cases call <;> exact h.sessionID
  · cases call <;> exact h.containerID
  · cases call with
    | pause =>
      obtain rfl : ok = true := hok.resolve_right (by simp [hc])
      simp only [Agrees, hc] at hagrees
      exact Or.inr (Or.inl ⟨hagrees.1, rfl⟩)
    | unpause =>
      obtain rfl : ok = true := hok.resolve_right (by simp [hc])
      simp only [Agrees, hc] at hagrees
      exact Or.inl ⟨hagrees.1, rfl⟩
    | thaw =>
      simp only [Agrees, hc] at hagrees
      refine ⟨hagrees.1, ?_⟩
      cases hcont : r.container with
      | frozen =>
        obtain rfl : ok = true := hok.resolve_right (by simp [hcont])
        simp [Rental.returned, hcont, Container.isRunning]
      | running => simp [Rental.returned, hcont, Container.isRunning]
      | removed => exact absurd hcont hagrees.2
    | remove =>
      obtain rfl : ok = true := hok.resolve_right (by simp [hc])
      simp only [Agrees, hc] at hagrees
      have hne : r.container ≠ .frozen := fun hf => by simp [hf, Container.isRunning] at hagrees
      exact Or.inr (Or.inr ⟨hagrees.1, if_pos ⟨rfl, hne⟩⟩)

/-- **A step keeps them in agreement**, if its calls succeed. -/
theorem Live.step (h : r.Live) {l : RentalStep} (hl : r.Succeeds l)
    (hs : r.step leases l = some r') : r'.Live := by
  cases l with
  | advance n => cases hs; exact h.wait n
  | returns ok =>
    obtain ⟨call, hc, rfl⟩ := Option.map_eq_some_iff.1 hs
    exact h.returned hc hl
  | addCredit amount =>
    cases hs
    exact h.of_status (.addCredit amount) (by simp) (by simp) (Lease.status_apply _ _)
  | pauseLease =>
    simp only [Rental.step] at hs
    split_ifs at hs with hc
    cases hs
    exact h.pauseLease hc
  | resumeLease =>
    simp only [Rental.step] at hs
    split_ifs at hs with hc
    cases hs
    exact h.resumeLease hc
  | sweep toCheck toPause =>
    simp only [Rental.step] at hs
    split_ifs at hs with hc
    cases hs
    exact h.sweep hc toCheck toPause
  | stop =>
    simp only [Rental.step] at hs
    split_ifs at hs with hc
    cases hs
    exact h.stop hc

end Keep

/-! ### What is burned -/

/-- **The container has run since the last tick**, and will have when it is thawed. -/
structure Clocked (r : Rental) : Prop where
  started : ∀ since, r.container = .running since → since ≤ r.clock
  running : r.lease.status = .active → ∀ since, r.container = .running since →
    since ≤ r.lease.lastTickAt
  thawing : r.call = some .unpause → r.lease.lastTickAt = r.clock

section Clocked

variable {r r' : Rental} {leases : Leases}

theorem Clocked.wait (h : r.Clocked) (hc : r.call ≠ some .unpause) (n : ℕ) :
    (r.wait n).Clocked where
  started since hs := (h.started since hs).trans (Int.le_add_of_nonneg_right n.cast_nonneg)
  running := h.running
  thawing hu := absurd hu hc

/-- The tick is now, and the container has been started. -/
theorem Clocked.burn (h : r.Clocked) (hc : r.call ≠ some .unpause) : r.burn.Clocked where
  started := h.started
  running ha since hs := by
    have htick := Lease.lastTickAt_apply r.lease (.burn r.clock)
    have hst := Lease.status_apply r.lease (.burn r.clock)
    dsimp only at htick hst
    show since ≤ (r.lease.apply (.burn r.clock)).lastTickAt
    rw [htick]
    split_ifs
    · exact h.running (hst ▸ ha) since hs
    · exact h.started since hs
  thawing hu := absurd hu hc

theorem Clocked.addCredit (h : r.Clocked) (amount : ℤ) :
    Clocked { r with lease := r.lease.addCredit amount } := by
  have htick : (r.lease.addCredit amount).lastTickAt = r.lease.lastTickAt :=
    Lease.lastTickAt_apply r.lease (.addCredit amount)
  have hst : (r.lease.addCredit amount).status = r.lease.status :=
    Lease.status_apply r.lease (.addCredit amount)
  refine ⟨h.started, fun ha since hs => ?_, fun hu => htick.trans (h.thawing hu)⟩
  exact (h.running (hst ▸ ha) since hs).trans_eq htick.symm

/-- A lease that is not active burns nothing. -/
theorem clocked_of_inactive (ha : r.lease.status ≠ .active)
    (hcont : ∀ since, r.container = .running since → since ≤ r.clock)
    (hc : r.call ≠ some .unpause) : r.Clocked :=
  ⟨hcont, fun ha' => absurd ha' ha, fun hu => absurd hu hc⟩

theorem Clocked.pauseLease (h : r.Clocked) : r.pauseLease.Clocked := by
  by_cases ha : r.lease.status = .active
  · rw [Rental.pauseLease, if_neg (not_not.2 ha)]
    have hst := Lease.status_apply r.lease (.pause r.clock)
    dsimp only at hst
    rw [if_pos ha] at hst
    refine clocked_of_inactive ?_ h.started (by dsimp only; split_ifs <;> simp)
    show (r.lease.apply (.pause r.clock)).status ≠ .active
    simp [hst]
  · rw [Rental.pauseLease, if_pos ha]
    exact h

/-- The container is frozen still; the meter starts now. -/
theorem Clocked.resumeLease (h : r.Clocked) (hl : r.Live) (hc : r.call = none) :
    r.resumeLease.Clocked := by
  by_cases hp : r.lease.status = .paused
  · rw [Rental.resumeLease, if_neg (not_not.2 hp)]
    have htick := Lease.lastTickAt_apply r.lease (.resume r.clock)
    dsimp only at htick
    rw [if_pos hp] at htick
    refine ⟨h.started, fun _ since hs => ?_, fun _ => htick⟩
    have hfrozen : Container.frozen = .running since := (hl.frozen hc hp).symm.trans hs
    cases hfrozen
  · rw [Rental.resumeLease, if_pos hp]
    exact h

theorem Clocked.stopLease (h : r.Clocked) {status : LeaseStatus} (hs : status.isTerminal) :
    (r.stopLease status).Clocked := by
  by_cases ho : r.lease.status.isTerminal
  · rw [Rental.stopLease, if_pos ho]
    exact h
  · rw [Rental.stopLease, if_neg ho]
    have hst := Lease.status_apply r.lease (.stop status)
    dsimp only at hst
    rw [if_neg ho] at hst
    refine clocked_of_inactive (fun ha => ?_) h.started (by dsimp only; split_ifs <;> simp)
    obtain rfl : status = .active := hst.symm.trans ha
    cases hs

theorem Clocked.sweepSwitch (h : r.Clocked) (hc : r.call = none) (toPause : ℕ) :
    (r.sweepSwitch leases toPause).Clocked := by
  unfold Rental.sweepSwitch
  split
  · split_ifs
    · exact h.stopLease rfl
    · exact h
    · exact (h.wait (by simp [hc]) toPause).pauseLease
  · split_ifs
    · exact h
    · exact h.stopLease rfl
  · exact h

theorem Clocked.sweep (h : r.Clocked) (hc : r.call = none) (toCheck toPause : ℕ) :
    (r.sweep leases toCheck toPause).Clocked := by
  have hcall : r.call ≠ some .unpause := by simp [hc]
  unfold Rental.sweep
  split_ifs
  · exact h
  · exact ((h.burn hcall).wait hcall toCheck).sweepSwitch hc toPause
  · exact (h.wait hcall toCheck).sweepSwitch hc toPause

theorem Clocked.stop (h : r.Clocked) (hc : r.call = none) : r.stop.Clocked := by
  unfold Rental.stop
  split_ifs
  · exact (h.burn (by simp [hc])).stopLease rfl
  · exact h.stopLease rfl

/-- A container that is thawed for its renter has run since the meter started. -/
theorem Clocked.returned (h : r.Clocked) (hl : r.Live) {call : DockerCall}
    (hc : r.call = some call) (ok : Bool) : (r.returned call ok).Clocked := by
  have hagrees := hl.agrees
  cases call with
  | pause =>
    simp only [Agrees, hc] at hagrees
    refine clocked_of_inactive (by simp [Rental.returned, hagrees.1]) (fun since hs => ?_)
      (by simp [Rental.returned])
    cases ok with
    | true => cases hs
    | false => exact h.started since hs
  | unpause =>
    refine ⟨fun since hs => ?_, fun ha since hs => ?_, by simp [Rental.returned]⟩
    · cases ok with
      | true =>
        obtain rfl : r.clock = since := Container.running.inj hs
        exact le_rfl
      | false => exact h.started since hs
    · cases ok with
      | true =>
        obtain rfl : r.clock = since := Container.running.inj hs
        exact (h.thawing hc).ge
      | false => exact h.running ha since hs
  | thaw =>
    simp only [Agrees, hc] at hagrees
    refine clocked_of_inactive (fun ha => ?_) (fun since hs => ?_) (by simp [Rental.returned])
    · rw [show r.lease.status = .active from ha] at hagrees
      cases hagrees.1
    · simp only [Rental.returned] at hs
      split_ifs at hs
      · obtain rfl : r.clock = since := Container.running.inj hs
        exact le_rfl
      · exact h.started since hs
  | remove =>
    simp only [Agrees, hc] at hagrees
    refine clocked_of_inactive (fun ha => ?_) (fun since hs => ?_) (by simp [Rental.returned])
    · rw [show r.lease.status = .active from ha] at hagrees
      cases hagrees.1
    · simp only [Rental.returned] at hs
      split_ifs at hs
      exact h.started since hs

/-- **A step keeps it**, if no time passes while the container is thawed. -/
theorem Clocked.step (h : r.Clocked) (hl : r.Live) {l : RentalStep} (hp : r.Prompt l)
    (hs : r.step leases l = some r') : r'.Clocked := by
  cases l with
  | advance n => cases hs; exact h.wait hp n
  | returns ok =>
    obtain ⟨call, hc, rfl⟩ := Option.map_eq_some_iff.1 hs
    exact h.returned hl hc ok
  | addCredit amount => cases hs; exact h.addCredit amount
  | pauseLease =>
    simp only [Rental.step] at hs
    split_ifs at hs with hc
    cases hs
    exact h.pauseLease
  | resumeLease =>
    simp only [Rental.step] at hs
    split_ifs at hs with hc
    cases hs
    exact h.resumeLease hl hc
  | sweep toCheck toPause =>
    simp only [Rental.step] at hs
    split_ifs at hs with hc
    cases hs
    exact h.sweep hc toCheck toPause
  | stop =>
    simp only [Rental.step] at hs
    split_ifs at hs with hc
    cases hs
    exact h.stop hc

/-- What the sweep does to the lease. -/
theorem lease_sweep (toCheck toPause : ℕ) :
    (r.sweep leases toCheck toPause).lease =
      r.lease.sweep leases r.clock (r.clock + toCheck) (r.clock + toCheck + toPause) := by
  have hstop : ∀ (r : Rental) (status : LeaseStatus),
      (r.stopLease status).lease = r.lease.stop status := fun r status => by
    simp only [Rental.stopLease, Lease.stop]
    split_ifs <;> rfl
  have hpause : ∀ r : Rental, r.pauseLease.lease = r.lease.pause r.clock := fun r => by
    simp only [Rental.pauseLease, Lease.pause]
    split_ifs <;> rfl
  have hswitch : ∀ r : Rental, (r.sweepSwitch leases toPause).lease =
      r.lease.sweepSwitch leases r.clock (r.clock + toPause) := fun r => by
    simp only [Rental.sweepSwitch, Lease.sweepSwitch]
    cases r.lease.status with
    | active =>
      dsimp only
      split_ifs
      · exact hstop r .expired
      · rfl
      · exact hpause _
    | paused =>
      dsimp only
      split_ifs
      · rfl
      · exact hstop r .expired
    | _ => rfl
  unfold Rental.sweep Lease.sweep
  split_ifs
  · rfl
  · exact hswitch _
  · exact hswitch _

end Clocked

end Rental

/-! ### In every run -/

section Reach

variable {leases : Leases} {r c : Rental}

theorem live_of_reach (h : r.Opened) (hc : (rental leases r).Reach Rental.Succeeds c) :
    c.Live := by
  refine hc.invariant ⟨h.sessionID, h.containerID, ?_⟩ fun s l t _ hl hsucc hs => hl.step hsucc hs
  obtain ⟨since, hs, -⟩ := h.running
  show Rental.Agrees r
  simp [Rental.Agrees, h.idle, h.active, hs, Container.isRunning]

theorem clocked_of_reach (h : r.Opened)
    (hc : (rental leases r).Reach (fun s l => Rental.Succeeds s l ∧ Rental.Prompt s l) c) :
    c.Clocked := by
  refine hc.invariant ?_ fun s l t hr hk hp hs =>
    hk.step (live_of_reach h (hr.mono fun _ _ hl => hl.1)) hp.2 hs
  obtain ⟨since, hs, htick, hclock⟩ := h.running
  refine ⟨fun u hu => ?_, fun _ u hu => ?_, fun hu => ?_⟩
  · obtain rfl : since = u := Container.running.inj (hs.symm.trans hu)
    exact hclock
  · obtain rfl : since = u := Container.running.inj (hs.symm.trans hu)
    exact htick
  · rw [show (rental leases r).init.call = none from h.idle] at hu
    cases hu

/-- **The meter runs when the container does.**  Between two calls to Docker, while these succeed,
an active lease is one whose container runs, a paused one is one whose container is frozen, and a
sweep burns if the container runs.  If containers are thawed at once, what it burns is time in which
the container ran. -/
theorem meter_runs (h : r.Opened) :
    (∀ c, (rental leases r).Reach Rental.Succeeds c → c.call = none →
      (c.lease.status = .active ↔ c.container.isRunning) ∧
      (c.lease.status = .paused ↔ c.container = .frozen) ∧
      (c.container.isRunning → ∀ toCheck toPause, (c.sweep leases toCheck toPause).lease =
        (c.lease.apply (.burn c.clock)).sweepSwitch leases (c.clock + toCheck)
          (c.clock + toCheck + toPause))) ∧
    ∀ c, (rental leases r).Reach (fun s l => Rental.Succeeds s l ∧ Rental.Prompt s l) c →
      c.call = none → c.lease.status = .active →
        ∃ since, c.container = .running since ∧ since ≤ c.lease.lastTickAt := by
  refine ⟨fun c hc hidle => ?_, fun c hc hidle ha => ?_⟩
  · have hl := live_of_reach h hc
    have hagrees := hl.agrees
    simp only [Rental.Agrees, hidle] at hagrees
    refine ⟨⟨fun ha => hl.running hidle ha, fun hr => ?_⟩,
      ⟨fun hp => hl.frozen hidle hp, fun hf => ?_⟩, fun hr toCheck toPause => ?_⟩
    · rcases hagrees with ⟨ha, -⟩ | ⟨-, hf⟩ | ⟨-, hf⟩
      · exact ha
      · simp [hf, Container.isRunning] at hr
      · simp [hf, Container.isRunning] at hr
    · rcases hagrees with ⟨-, hr⟩ | ⟨hp, -⟩ | ⟨-, hr⟩
      · simp [hf, Container.isRunning] at hr
      · exact hp
      · simp [hf] at hr
    · rcases hagrees with ⟨ha, -⟩ | ⟨-, hf⟩ | ⟨-, hf⟩
      · rw [Rental.lease_sweep, Lease.sweep_of_active hl.sessionID ha]
      · simp [hf, Container.isRunning] at hr
      · simp [hf, Container.isRunning] at hr
  · have hl := live_of_reach h (hc.mono fun _ _ hl => hl.1)
    have hr := hl.running hidle ha
    cases hcont : c.container with
    | running since => exact ⟨since, rfl, (clocked_of_reach h hc).running ha since hcont⟩
    | frozen | removed => simp [hcont, Container.isRunning] at hr

end Reach

/-- A session of a tinybar a second that has just bought a minute. -/
def Rental.minute : Rental where
  lease := { Lease.provisioning "token" 0 1 with status := .active, containerID := "container" }
    |>.markMetered 0 "session" "renter" 1 60
  container := .running 0
  clock := 0
  call := none

theorem Rental.opened_minute : Rental.minute.Opened := by
  refine ⟨by decide, by decide, by decide, rfl, 0, rfl, by decide, by decide⟩

/-- It is frozen, bought another minute, and thawed. -/
theorem meter_runs_thawed :
    ∃ c, (rental NodeConfig.small.leases .minute).Reach
        (fun s l => Rental.Succeeds s l ∧ Rental.Prompt s l) c ∧
      c.lease.status = .active ∧ c.container.isRunning ∧ c.lease.credit = 60 ∧
      ∃ since, c.container = .running since ∧ since ≤ c.lease.lastTickAt := by
  obtain ⟨c, hc, hp⟩ := System.exists_reach (S := rental NodeConfig.small.leases .minute)
    (C := fun s l => Rental.Succeeds s l ∧ Rental.Prompt s l)
    (p := fun c => decide (c.call = none ∧ c.lease.status = .active ∧ c.lease.credit = 60))
    [.advance 60000000000, .sweep 0 0, .advance 30000000000, .sweep 0 0, .returns true,
      .advance 10000000000, .addCredit 60, .resumeLease, .returns true] (by decide +kernel)
  obtain ⟨hidle, ha, hcredit⟩ := of_decide_eq_true hp
  obtain ⟨hagrees, hclock⟩ := @meter_runs NodeConfig.small.leases _ Rental.opened_minute
  refine ⟨c, hc, ha, ?_, hcredit, hclock c hc hidle ha⟩
  exact (hagrees c (hc.mono fun _ _ hl => hl.1) hidle).1.1 ha

/-- **A paused lease can have a container that runs**, and is not metered: Docker does not freeze
it, and `PauseLease` does not take the status back. -/
theorem not_meter_runs :
    ¬ ∀ (leases : Leases) (r c : Rental), r.Opened → (rental leases r).Reachable c →
      c.call = none →
        (c.lease.status = .active ↔ c.container.isRunning) ∧
        (c.lease.status = .paused ↔ c.container = .frozen) := by
  intro h
  obtain ⟨c, hc, hp⟩ := System.exists_reach (S := rental NodeConfig.small.leases .minute)
    (C := System.Any)
    (p := fun c => decide (c.call = none ∧ c.lease.status = .paused ∧ c.container = .running 0))
    [.advance 60000000000, .sweep 0 0, .advance 30000000000, .sweep 0 0, .returns false]
    (by decide +kernel)
  obtain ⟨hidle, hst, hr⟩ := of_decide_eq_true hp
  have hfrozen := (h _ _ c Rental.opened_minute hc hidle).2.1 hst
  rw [hr] at hfrozen
  cases hfrozen

end Mach402
