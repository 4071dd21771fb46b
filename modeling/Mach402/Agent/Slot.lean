import Mach402.Agent.NodeInvariant

/-!
# The slot

The operations of the runner on the life of a lease, called by anyone at any time: `StartLease`,
`PauseLease`, `ResumeLease`, `StopLease`, `fail` and `setStatus`.  The slot and the status of a
lease are under different locks, and a lease is over before its slot is released.

* `RunnerCall`, `RunnerPc`, `Runner.act`: the calls, and what they do step by step;
* `runner`: all of them as a `Machine` over the shared state of a node;
* `one_renter`: the lease that is not over has the slot, nobody takes the slot from it, and what is
  over stays as it ended.
-/

namespace Mach402

/-! ### The calls -/

/-- A status that a lease ends with. -/
abbrev FinalStatus := { status : LeaseStatus // status.isTerminal }

/-- A call to the runner.  The callers of `StopLease` pass a status that ends the lease. -/
inductive RunnerCall
  | startLease (token : String) (seconds : ℤ)
  | pauseLease (id : LeaseId)
  | resumeLease (id : LeaseId)
  | stopLease (id : LeaseId) (status : FinalStatus)
  | fail (id : LeaseId) (err : String)
  | setStatus (id : LeaseId) (status : LeaseStatus)
  deriving DecidableEq

/-- What a call does next. -/
inductive RunnerPc
  -- the caller mints the id
  | mint (token : String) (seconds : ℤ)
  -- `StartLease`
  | startLease (id : LeaseId) (token : String) (seconds : ℤ)
  | claimSlot (id : LeaseId) (token : String) (seconds expiresAt : ℤ)
  | provision (id : LeaseId)
  | awaitJupyter (id : LeaseId)
  | failLease (id : LeaseId) (err : String)
  | activate (id : LeaseId)
  -- `PauseLease`, `ResumeLease`
  | pauseLease (id : LeaseId)
  | pauseContainer (id : LeaseId)
  | resumeLease (id : LeaseId)
  | unpause (id : LeaseId)
  -- `StopLease`
  | stopLease (id : LeaseId) (status : FinalStatus)
  | reap (id : LeaseId)
  | release (id : LeaseId)
  | fail (id : LeaseId) (err : String)
  | setStatus (id : LeaseId) (status : LeaseStatus)
  | done
  deriving DecidableEq

/-- The first thing a call does. -/
def RunnerCall.start : RunnerCall → RunnerPc
  | .startLease token seconds => .mint token seconds
  | .pauseLease id => .pauseLease id
  | .resumeLease id => .resumeLease id
  | .stopLease id status => .stopLease id status
  | .fail id err => .fail id err
  | .setStatus id status => .setStatus id status

/-- **What a call does next.**  It is made by someone who holds the lease, so the lease exists. -/
def Runner.act (cfg : NodeConfig) (s : Node) : RunnerPc → Outcome → Option (Op × RunnerPc)
  | .mint token seconds, _ => some (.mint, .startLease s.nextLease token seconds)
  | .startLease id token seconds, out =>
    match validateLeaseSpec cfg s seconds out with
    | some _ => some (.skip, .done)
    | none => some (.skip, .claimSlot id token seconds
        (s.clock + Duration.ofSeconds (secondsToMinutes seconds * 60)))
  | .claimSlot id token seconds expiresAt, _ =>
    if s.busy then some (.skip, .done)
    else
      some (.claim id (.provisioning token expiresAt (secondsToMinutes seconds)), .provision id)
  | .provision id, out =>
    match out with
    | .ok containerID _ => some (.lease id (.setContainer containerID), .awaitJupyter id)
    | .fail err => some (.skip, .failLease id err)
    | .unavailable => some (.skip, .failLease id "")
  | .awaitJupyter id, out =>
    match out with
    | .ok .. => some (.skip, .activate id)
    | .fail err => some (.skip, .failLease id err)
    | .unavailable => some (.skip, .failLease id "")
  | .failLease id err, _ => some (.lease id (.fail err), .reap id)
  | .activate id, _ => some (.lease id (.setStatus .active), .done)
  | .pauseLease id, _ => (s.leases id).map fun l =>
    (.lease id (.pause s.clock),
      if l.status = .active ∧ l.containerID ≠ "" then .pauseContainer id else .done)
  | .pauseContainer id, out =>
    match out with
    | .ok .. => some (.freeze id, .done)
    | _ => some (.skip, .done)
  | .resumeLease id, _ => (s.leases id).map fun l =>
    (.lease id (.resume s.clock),
      if l.status = .paused ∧ l.containerID ≠ "" then .unpause id else .done)
  | .unpause id, out =>
    match out with
    | .ok .. => some (.thaw id, .done)
    | _ => some (.skip, .done)
  | .stopLease id status, _ => (s.leases id).map fun l =>
    if l.status.isTerminal then (.skip, .done) else (.lease id (.stop status), .reap id)
  | .reap id, _ => some (.thaw id, .release id)
  | .release id, _ => some (.release id, .done)
  | .fail id err, _ => (s.leases id).map fun _ => (.lease id (.fail err), .done)
  | .setStatus id status, _ => (s.leases id).map fun _ => (.lease id (.setStatus status), .done)
  | .done, _ => none

/-- **The runner** as a machine. -/
def runner (cfg : NodeConfig) : Machine Node Op RunnerPc Outcome RunnerCall Event where
  act := Runner.act cfg
  apply := Node.apply
  start := RunnerCall.start
  env := Node.env

/-- Its runs from the start. -/
abbrev runnerSystem (cfg : NodeConfig) := (runner cfg).system Node.initial

/-! ### What a call knows -/

namespace RunnerPc

/-- The lease that a call has still to bring into being. -/
def opener : RunnerPc → Option LeaseId
  | .startLease id .. | .claimSlot id .. => some id
  | _ => none

/-- What a call knows of its lease: the id is fresh until the slot is claimed, and the slot is
released once the lease is over. -/
def Knows (s : Node) : RunnerPc → Prop
  | .startLease id .. | .claimSlot id .. => s.Absent id
  | .provision id | .awaitJupyter id | .failLease id _ | .activate id => s.Present id
  | .reap id | .release id => s.Over id
  | _ => True

variable {s s' : Node} {mine : Option LeaseId} {p : RunnerPc}

theorem Knows.later (h : p.Knows s) (hl : Node.Later mine s s')
    (ho : ∀ id, p.opener = some id → mine ≠ some id) : p.Knows s' := by
  cases p with
  | startLease id | claimSlot id => exact hl.absent id (ho id rfl) h
  | provision | awaitJupyter | failLease | activate => exact hl.present h
  | reap | release => exact hl.ended h
  | _ => trivial

end RunnerPc

section Act

variable {cfg : NodeConfig} {s : Node} {p p' : RunnerPc} {op : Op} {out : Outcome}

/-- A claimed slot holds the lease that the call provisions. -/
theorem Runner.act_knows_claimSlot {id : LeaseId} {token : String} {seconds expiresAt : ℤ}
    (hk : s.Absent id) (h : Runner.act cfg s (.claimSlot id token seconds expiresAt) out =
      some (op, p')) : op.Allowed s ∧ p'.Knows (s.apply op) := by
  simp only [Runner.act] at h
  split_ifs at h with hb <;> cases h
  · exact ⟨trivial, trivial⟩
  · refine ⟨⟨hk, by simpa using hb, _, _, _, rfl⟩,
      .provisioning token expiresAt (secondsToMinutes seconds), ?_, trivial⟩
    rw [Node.leases_apply]
    exact if_pos rfl

/-- A lease that could not be provisioned is over. -/
theorem Runner.act_knows_failLease {id : LeaseId} {err : String} (hk : s.Present id)
    (h : Runner.act cfg s (.failLease id err) out = some (op, p')) :
    op.Allowed s ∧ p'.Knows (s.apply op) := by
  cases h
  refine ⟨hk.of_lease fun _ => trivial, hk.apply (.fail err) fun l _ => ?_⟩
  rw [Lease.status_apply]
  dsimp only
  split_ifs with hl
  · exact hl
  · rfl

/-- A lease that is stopped is over. -/
theorem Runner.act_knows_stopLease {id : LeaseId} {status : FinalStatus}
    (h : Runner.act cfg s (.stopLease id status) out = some (op, p')) :
    op.Allowed s ∧ p'.Knows (s.apply op) := by
  obtain ⟨l, hl, h⟩ := Option.map_eq_some_iff.1 h
  split_ifs at h with ho <;> cases h
  · exact ⟨trivial, trivial⟩
  · have hp : s.Has (fun l => ¬ l.status.isTerminal) id := ⟨l, hl, ho⟩
    refine ⟨⟨l, hl, trivial⟩, hp.apply (.stop status) fun l hl => ?_⟩
    rw [Lease.status_apply]
    dsimp only
    rw [if_neg hl]
    exact status.2

/-- **A step is allowed, and establishes what its call knows next.** -/
theorem Runner.act_knows (hs : s.Sound) (hk : p.Knows s)
    (h : Runner.act cfg s p out = some (op, p')) : op.Allowed s ∧ p'.Knows (s.apply op) := by
  cases p with
  | mint token seconds =>
    cases h
    refine ⟨trivial, ?_, Nat.lt_succ_self _⟩
    exact Option.eq_none_iff_forall_ne_some.2 fun l hl => absurd (hs.fresh _ l hl) (lt_irrefl _)
  | startLease id token seconds =>
    simp only [Runner.act] at h
    split at h <;> cases h
    · exact ⟨trivial, trivial⟩
    · exact ⟨trivial, hk⟩
  | claimSlot id token seconds expiresAt => exact Runner.act_knows_claimSlot hk h
  | provision id =>
    cases out with
    | ok containerID _ =>
      cases h
      have hop : (Op.lease id (.setContainer containerID)).Allowed s := hk.of_lease fun _ => trivial
      exact ⟨hop, (Node.later_apply hop).present hk⟩
    | fail | unavailable =>
      cases h
      exact ⟨trivial, hk⟩
  | awaitJupyter id => cases out <;> cases h <;> exact ⟨trivial, hk⟩
  | failLease id err => exact Runner.act_knows_failLease hk h
  | activate id =>
    cases h
    exact ⟨hk.of_lease fun _ => trivial, trivial⟩
  | pauseLease id =>
    obtain ⟨l, hl, h⟩ := Option.map_eq_some_iff.1 h
    cases h
    refine ⟨⟨l, hl, trivial⟩, ?_⟩
    split_ifs <;> trivial
  | resumeLease id =>
    obtain ⟨l, hl, h⟩ := Option.map_eq_some_iff.1 h
    cases h
    refine ⟨⟨l, hl, trivial⟩, ?_⟩
    split_ifs <;> trivial
  | pauseContainer id | unpause id => cases out <;> cases h <;> exact ⟨trivial, trivial⟩
  | stopLease id status => exact Runner.act_knows_stopLease h
  | reap id =>
    cases h
    exact ⟨trivial, hk⟩
  | release id =>
    cases h
    exact ⟨hk, trivial⟩
  | fail id err | setStatus id status =>
    obtain ⟨l, hl, h⟩ := Option.map_eq_some_iff.1 h
    cases h
    exact ⟨⟨l, hl, trivial⟩, trivial⟩
  | done => cases h

/-- A step opens only the lease its call has still to bring into being, and that id is fresh. -/
theorem Runner.act_opener (h : Runner.act cfg s p out = some (op, p')) :
    (∀ id, op.opens = some id → p.opener = some id) ∧
      ∀ id, p'.opener = some id → p.opener = some id ∨ id = s.nextLease := by
  cases p with
  | pauseLease id | resumeLease id =>
    obtain ⟨l, hl, h⟩ := Option.map_eq_some_iff.1 h
    cases h
    refine ⟨(by simp [Op.opens]), fun j hj => ?_⟩
    split_ifs at hj <;> cases hj
  | stopLease id status =>
    obtain ⟨l, hl, h⟩ := Option.map_eq_some_iff.1 h
    split_ifs at h <;> cases h <;> exact ⟨(by simp [Op.opens]), (by simp [RunnerPc.opener])⟩
  | fail id err | setStatus id status =>
    obtain ⟨l, hl, h⟩ := Option.map_eq_some_iff.1 h
    cases h
    exact ⟨(by simp [Op.opens]), (by simp [RunnerPc.opener])⟩
  | _ =>
    simp only [Runner.act] at h
    (repeat' split at h) <;> cases h <;>
      exact ⟨(by simp [Op.opens, RunnerPc.opener]), (by simp [RunnerPc.opener])⟩

/-- **The annotation is an outline** of all calls. -/
def runnerOutline (cfg : NodeConfig)
    (C : Machine.Config Node RunnerPc → Machine.Label Outcome RunnerCall Event → Prop) :
    Machine.Outline (runner cfg) Node.initial C where
  I := Node.Sound
  A s p := p.Knows s
  X p q := ∀ id, p.opener = some id → q.opener ≠ some id
  init := Node.sound_initial
  symm p q h id hq hp := h id hp hq
  start s r := by cases r <;> trivial
  apart r q id h := by cases r <;> cases h
  envI s e h := h.env e
  envA s e p h := h.later (s.later_env e) (by simp)
  act c i out p op p' _ _ _ hs hk h := by
    obtain ⟨hop, hk'⟩ := Runner.act_knows hs hk h
    exact ⟨hs.apply hop, hk'⟩
  free c i j out p q op p' _ _ _ _ _ hs hk hq hx h := by
    obtain ⟨hop, -⟩ := Runner.act_knows hs hk h
    obtain ⟨hopens, hopener⟩ := Runner.act_opener h
    refine ⟨hq.later (Node.later_apply hop) fun id hid hmine => ?_, fun id hid hid' => ?_⟩
    · exact hx id (hopens id hmine) hid
    · rcases hopener id hid with hp | rfl
      · exact hx id hp hid'
      · refine lt_irrefl c.shared.nextLease ?_
        cases q with
        | startLease | claimSlot =>
          cases hid'
          exact hq.2
        | _ => cases hid'

end Act

/-! ### In every run -/

section Reach

variable {cfg : NodeConfig} {c c' : Machine.Config Node RunnerPc}

theorem Runner.holds (h : (runnerSystem cfg).Reachable c) :
    (runnerOutline cfg System.Any).Holds c :=
  (runnerOutline cfg System.Any).holds h

/-- Every operation is allowed. -/
theorem Runner.allowed (h : (runnerSystem cfg).Reachable c) {i : ℕ} {p p' : RunnerPc}
    {out : Outcome} {op : Op} (hp : c.threads[i]? = some p)
    (ha : Runner.act cfg c.shared p out = some (op, p')) : op.Allowed c.shared :=
  (Runner.act_knows (Runner.holds h).shared ((Runner.holds h).annot i p hp) ha).1

/-- **The end is final.** -/
theorem Runner.status_of_run (h : (runnerSystem cfg).Reachable c)
    (hr : (runnerSystem cfg).Run System.Any c c') {status : LeaseStatus} (ho : status.isTerminal)
    {id : LeaseId} (hs : c.shared.Has (fun l => l.status = status) id) :
    c'.shared.Has (fun l => l.status = status) id := by
  refine Machine.shared_of_run (M := runner cfg)
    (I := fun s => s.Has (fun l => l.status = status) id) (fun s e hs => by cases e <;> exact hs)
    (fun d i out p op p' hd hp _ ha hs => ?_) h hr hs
  refine (Node.later_apply (Runner.allowed hd hp ha)).has _ (fun l lop hl => ?_) id hs
  rw [Lease.status_apply_of_isTerminal (hl ▸ ho), hl]

/-- **The slot is given up** by a lease that is over only. -/
theorem Runner.over_of_lost (h : (runnerSystem cfg).Reachable c)
    {l : Machine.Label Outcome RunnerCall Event} (hs : (runner cfg).step c l = some c')
    {id : LeaseId} (ha : c.shared.activeLease = some id) (hn : c'.shared.activeLease ≠ some id) :
    c.shared.Over id := by
  cases l with
  | env e => cases hs; cases e <;> exact absurd ha hn
  | start r => cases hs; exact absurd ha hn
  | run i out =>
    obtain ⟨p, op, p', hp, hact, rfl⟩ := Machine.step_run hs
    have hop := Runner.allowed h hp hact
    rw [show (runner cfg).apply c.shared op = c.shared.apply op from rfl,
      Node.activeLease_apply] at hn
    cases op with
    | claim j l => exact Node.over_of_not_busy (Runner.holds h).shared hop.2.1 ha
    | release j =>
      dsimp only at hn
      split_ifs at hn with hj
      · obtain rfl : id = j := Option.some.inj (ha.symm.trans hj)
        exact hop
      · exact absurd ha hn
    | _ => exact absurd ha hn

/-- **One renter at a time, and the end is final.**  In every state reached by any calls, a lease
that is not over has the slot, so there is one at most; whoever releases a slot does not free it
for another lease, and no step takes it from a lease that is not over; and a lease that is over
keeps its status in all runs. -/
theorem one_renter (h : (runnerSystem cfg).Reachable c) :
    (∀ id, c.shared.Has (fun l => ¬ l.status.isTerminal) id → c.shared.activeLease = some id) ∧
    (∀ id id', c.shared.Has (fun l => ¬ l.status.isTerminal) id →
      c.shared.Has (fun l => ¬ l.status.isTerminal) id' → id = id') ∧
    (∀ l c', (runner cfg).step c l = some c' → ∀ id, c.shared.activeLease = some id →
      c'.shared.activeLease ≠ some id → c.shared.Over id ∧
        ∀ i out j, l = .run i out → c.threads[i]? = some (.release j) → j = id) ∧
    (∀ c', (runnerSystem cfg).Run System.Any c c' → ∀ id status, status.isTerminal →
      c.shared.Has (fun l => l.status = status) id →
      c'.shared.Has (fun l => l.status = status) id) := by
  have hslot : ∀ id, c.shared.Has (fun l => ¬ l.status.isTerminal) id →
      c.shared.activeLease = some id :=
    fun id ⟨l, hl, ho⟩ => (Runner.holds h).shared.slot id l hl ho
  refine ⟨hslot, fun id id' hid hid' => ?_, fun l c' hs id ha hn => ?_, fun c' hr id status ho hs =>
    Runner.status_of_run h hr ho hs⟩
  · exact Option.some.inj ((hslot id hid).symm.trans (hslot id' hid'))
  · refine ⟨Runner.over_of_lost h hs ha hn, ?_⟩
    rintro i out j rfl hp
    obtain ⟨p, op, p', hp', hact, rfl⟩ := Machine.step_run hs
    obtain rfl : RunnerPc.release j = p := Option.some.inj (hp.symm.trans hp')
    cases hact
    by_contra hj
    refine hn ?_
    show (c.shared.apply (.release j)).activeLease = some id
    rw [Node.activeLease_apply]
    dsimp only
    rw [if_neg fun hr => hj (Option.some.inj (hr.symm.trans ha)), ha]

end Reach

/-- Call `i` takes `n` steps, and everything outside succeeds. -/
def runnerTurns (i n : ℕ) : List (Machine.Label Outcome RunnerCall Event) :=
  List.replicate n (.run i (.ok "container" ""))

/-- A lease has been stopped, and the next renter has the slot before it is released. -/
def secondRenter : List (Machine.Label Outcome RunnerCall Event) :=
  .start (.startLease "first" 60) :: runnerTurns 0 6 ++
    .start (.stopLease 0 ⟨.stopped, rfl⟩) :: runnerTurns 1 1 ++
    .start (.startLease "second" 60) :: runnerTurns 2 6 ++ runnerTurns 1 1

/-- The release leaves the second renter alone, and the first lease stays stopped. -/
theorem one_renter_second :
    ∃ c, (runnerSystem .small).Reachable c ∧ c.threads[1]? = some (.release 0) ∧
      c.shared.Has (fun l => l.status = .active) 1 ∧ c.shared.activeLease = some 1 ∧
      (∀ l c', (runner .small).step c l = some c' → c'.shared.activeLease = some 1) ∧
      ∀ c', (runnerSystem .small).Run System.Any c c' →
        c'.shared.Has (fun l => l.status = .stopped) 0 := by
  obtain ⟨c, hc, hp⟩ := System.exists_reach (S := runnerSystem .small) (C := System.Any)
    (p := fun c => decide (c.threads[1]? = some (RunnerPc.release 0)) &&
      (c.shared.leases 1).any (fun l : Lease => decide (l.status = .active)) &&
      (c.shared.leases 0).any fun l : Lease => decide (l.status = .stopped))
    secondRenter (by decide +kernel)
  simp only [Bool.and_eq_true, Option.any_eq_true, decide_eq_true_eq] at hp
  obtain ⟨⟨hrel, l₁, hl₁, ha⟩, l₀, hl₀, ho⟩ := hp
  have hlive : ¬ l₁.status.isTerminal := by simp [ha, LeaseStatus.isTerminal]
  obtain ⟨hslot, -, hlost, hfinal⟩ := one_renter hc
  have hone := hslot 1 ⟨l₁, hl₁, hlive⟩
  refine ⟨c, hc, hrel, ⟨l₁, hl₁, ha⟩, hone, fun l c' hs => ?_, fun c' hr => ?_⟩
  · by_contra hn
    obtain ⟨l, hl, hover⟩ := (hlost l c' hs 1 hone hn).1
    obtain rfl : l₁ = l := Option.some.inj (hl₁.symm.trans hl)
    exact hlive hover
  · exact hfinal c' hr 0 .stopped rfl ⟨l₀, hl₀, ho⟩

end Mach402
