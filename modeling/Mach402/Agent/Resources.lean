import Mach402.Agent.Node

/-!
# What a lease holds in Docker

A lease comes with a network, a volume, and two containers, which `provisionLease` creates one by
one and `reapLeaseResources` removes.  Removal is reached from many exits, once for each: it reads
the ids of the containers, which may not be stored yet, and its calls fail once its context has
expired.

* `Host`: what the leases hold, and whose the slot is;
* `HostPc`, `Host.act`: the handlers, call by call to Docker;
* `nothing_survives`: nothing is left of a lease that is over, in every run that removes what it
  gives up.
-/

namespace Mach402

/-! ### The shared state -/

/-- What a lease holds in Docker. -/
inductive Resource
  | container
  | proxy
  | volume
  | network
  deriving DecidableEq, Repr

/-- All that a lease has of Docker. -/
def Resource.all : List Resource := [.container, .proxy, .volume, .network]

/-- What the handlers share. -/
structure Host where
  /-- The leases, by their status. -/
  status : LeaseId → Option LeaseStatus
  activeLease : Option LeaseId
  /-- No lease has this id or a later one. -/
  nextLease : LeaseId
  /-- The lease has the id of its container, of its proxy. -/
  stored : LeaseId → Resource → Bool
  /-- It exists in Docker. -/
  made : LeaseId → Resource → Bool

namespace Host

/-- Nothing has been sold yet. -/
def initial : Host where
  status := fun _ => none
  activeLease := none
  nextLease := 0
  stored := fun _ _ => false
  made := fun _ _ => false

/-- The lease is over. -/
def ended (s : Host) (id : LeaseId) : Bool := (s.status id).any LeaseStatus.isTerminal

/-- The slot is taken by a lease that is not over. -/
def busy (s : Host) : Bool := s.activeLease.any fun id => !s.ended id

end Host

/-- The operations on the shared state. -/
inductive HostOp
  | skip
  | claim (id : LeaseId)
  | setStatus (id : LeaseId) (status : LeaseStatus)
  | create (id : LeaseId) (r : Resource)
  | store (id : LeaseId) (r : Resource)
  | remove (id : LeaseId) (r : Resource)
  | release (id : LeaseId)
  deriving DecidableEq, Repr

/-- One entry of a table is changed. -/
def mark (f : LeaseId → Resource → Bool) (id : LeaseId) (r : Resource) (b : Bool) :
    LeaseId → Resource → Bool :=
  fun j q => if j = id ∧ q = r then b else f j q

/-- What an operation does. -/
def Host.apply (s : Host) : HostOp → Host
  | .skip => s
  | .claim id =>
    { s with
      status := Function.update s.status id (some .provisioning)
      activeLease := some id
      nextLease := s.nextLease + 1 }
  | .setStatus id status =>
    { s with
      status := Function.update s.status id
        ((s.status id).map fun old => if old.isTerminal then old else status) }
  | .create id r => { s with made := mark s.made id r true }
  | .store id r => { s with stored := mark s.stored id r true }
  | .remove id r => { s with made := mark s.made id r false }
  | .release id => if s.activeLease = some id then { s with activeLease := none } else s

/-! ### The handlers -/

/-- How a call ends: it succeeds, it fails, or it fails because its context expires. -/
inductive CallOutcome
  | ok
  | fails
  | expires
  deriving DecidableEq, Repr

/-- The steps of `provisionLease` and `startEgressProxy`, in their order. -/
inductive ProvisionStep
  | createNetwork
  | createVolume
  | createProxy
  | storeProxy
  | connectProxy
  | startProxy
  | createContainer
  | storeContainer
  | startContainer
  | containerIP
  | awaitJupyter
  deriving DecidableEq, Repr

namespace ProvisionStep

/-- The step that follows. -/
def next : ProvisionStep → Option ProvisionStep
  | createNetwork => some createVolume
  | createVolume => some createProxy
  | createProxy => some storeProxy
  | storeProxy => some connectProxy
  | connectProxy => some startProxy
  | startProxy => some createContainer
  | createContainer => some storeContainer
  | storeContainer => some startContainer
  | startContainer => some containerIP
  | containerIP => some awaitJupyter
  | awaitJupyter => none

/-- What a step does when it succeeds. -/
def op (id : LeaseId) : ProvisionStep → HostOp
  | createNetwork => .create id .network
  | createVolume => .create id .volume
  | createProxy => .create id .proxy
  | storeProxy => .store id .proxy
  | createContainer => .create id .container
  | storeContainer => .store id .container
  | _ => .skip

/-- A step under the lock of the lease, which makes no call. -/
def isLocal : ProvisionStep → Bool
  | storeProxy | storeContainer => true
  | _ => false

end ProvisionStep

/-- A call of `reapLeaseResources`. -/
inductive ReapCall
  | unpause (r : Resource)
  | remove (r : Resource)
  deriving DecidableEq, Repr

/-- What a call of `reapLeaseResources` does when it succeeds. -/
def ReapCall.op (id : LeaseId) : ReapCall → HostOp
  | .unpause _ => .skip
  | .remove r => .remove id r

/-- The calls of `reapLeaseResources`, with the ids the lease has. -/
def reapCalls (s : Host) (id : LeaseId) : List ReapCall :=
  (([.container, .proxy] : List Resource).flatMap fun r =>
    if s.stored id r then [.unpause r, .remove r] else []) ++ [.remove .volume, .remove .network]

/-- What starts a handler.  A sweep ends the session or freezes it; a top-up thaws it. -/
inductive HostRequest
  | create
  | stop
  | endLease
  | sweep (ends : Bool)
  | resume
  deriving DecidableEq, Repr

/-- What a handler does next.  `live`: the context of its calls has not expired. -/
inductive HostPc
  -- `handleCreateSession`
  | create
  | claimSlot
  | provision (id : LeaseId) (k : ProvisionStep)
  | failLease (id : LeaseId)
  | activate (id : LeaseId)
  | publish (id : LeaseId)
  | settle (id : LeaseId)
  -- `handleSessionStop`, `EndLease`, `sweepLeases`
  | stop
  | endLease
  | sweep (ends : Bool)
  | sweepSwitch (id : LeaseId) (ends : Bool)
  | resume
  -- `StopLease`, `reapLeaseResources`
  | stopLease (id : LeaseId) (status : LeaseStatus) (live : Bool)
  | readIDs (id : LeaseId) (live : Bool)
  | reap (id : LeaseId) (live : Bool) (calls : List ReapCall)
  | done
  deriving DecidableEq, Repr

/-- The handler has returned. -/
def HostPc.isDone : HostPc → Bool
  | .done => true
  | _ => false

/-- **What a handler does next.** -/
def Host.act (s : Host) : HostPc → CallOutcome → Option (HostOp × HostPc)
  -- `handleCreateSession`
  | .create, out => some (.skip, if out = .ok then .claimSlot else .done)
  | .claimSlot, _ =>
    if s.busy then some (.skip, .done)
    else some (.claim s.nextLease, .provision s.nextLease .createNetwork)
  | .provision id k, out =>
    if k.isLocal ∨ out = .ok then
      some (k.op id, match k.next with
        | some k' => .provision id k'
        | none => .activate id)
    else some (.skip, .failLease id)
  -- the cleanup is detached: its context is live
  | .failLease id, _ => some (.setStatus id .failed, .readIDs id true)
  | .activate id, _ => some (.setStatus id .active, .publish id)
  -- `publishLease` and `Settle`, of which the contexts are passed to `StopLease`
  | .publish id, out =>
    some (.skip, if out = .ok then .settle id else .stopLease id .failed (out ≠ .expires))
  | .settle id, out =>
    some (.skip, if out = .ok then .done else .stopLease id .failed (out ≠ .expires))
  -- `handleSessionStop`, `EndLease`, `sweepLeases`
  | .stop, out =>
    match s.activeLease, out with
    | some id, .ok => some (.skip, .stopLease id .stopped true)
    | _, _ => some (.skip, .done)
  | .endLease, _ =>
    match s.activeLease with
    | some id => some (.skip, .stopLease id .stopped true)
    | none => some (.skip, .done)
  | .sweep ends, _ =>
    match s.activeLease with
    | some id => some (.skip, .sweepSwitch id ends)
    | none => some (.skip, .done)
  | .sweepSwitch id ends, _ =>
    if s.status id = some .active then
      some (if ends then (.skip, .stopLease id .expired true) else (.setStatus id .paused, .done))
    else if s.status id = some .paused ∧ ends then some (.skip, .stopLease id .expired true)
    else some (.skip, .done)
  | .resume, _ =>
    match s.activeLease with
    | some id =>
      some (if s.status id = some .paused then .setStatus id .active else .skip, .done)
    | none => some (.skip, .done)
  -- `StopLease`, `reapLeaseResources`
  | .stopLease id status live, _ =>
    if s.ended id then some (.skip, .done) else some (.setStatus id status, .readIDs id live)
  | .readIDs id live, _ => some (.skip, .reap id live (reapCalls s id))
  | .reap id live (call :: calls), out =>
    some (if live ∧ out = .ok then call.op id else .skip,
      .reap id (live && decide (out ≠ .expires)) calls)
  | .reap id _ [], _ => some (.release id, .done)
  | .done, _ => none

/-- The first thing a handler does. -/
def HostRequest.start : HostRequest → HostPc
  | .create => .create
  | .stop => .stop
  | .endLease => .endLease
  | .sweep ends => .sweep ends
  | .resume => .resume

/-- **The handlers** as a machine. -/
def host : Machine Host HostOp HostPc CallOutcome HostRequest Empty where
  act := Host.act
  apply := Host.apply
  start := HostRequest.start
  env _ e := nomatch e

/-- Its runs from the start. -/
abbrev hostSystem := host.system Host.initial

/-- The step that stores the id of a container. -/
def Resource.storeStep : Resource → Option ProvisionStep
  | .container => some .storeContainer
  | .proxy => some .storeProxy
  | _ => none

/-! ### What is still to be removed -/

/-- The handler has still to remove it, or is still provisioning the lease: it then removes it if
it fails. -/
def HostPc.tends (id : LeaseId) (r : Resource) : HostPc → Bool
  | .provision j _ | .failLease j | .activate j | .readIDs j _ => j = id
  | .reap j _ calls => j = id ∧ .remove r ∈ calls
  | _ => false

/-- A handler gives up what it tends only to another that tends it: a removal fails, or `StartLease`
succeeds for a lease that has been ended, only if what is left has still to be removed by
another. -/
abbrev Removes : Machine.Config Host HostPc →
    Machine.Label CallOutcome HostRequest Empty → Prop :=
  Machine.Guard fun c i p out =>
    match p with
    | .reap id live (.remove r :: _) =>
      live && decide (out = .ok) || !c.shared.made id r ||
        (c.threads.eraseIdx i).any (·.tends id r)
    | .activate id =>
      !c.shared.ended id || Resource.all.all fun r =>
        !c.shared.made id r || (c.threads.eraseIdx i).any (·.tends id r)
    | _ => true

namespace Host

/-- It is left of a lease that is over. -/
def Left (s : Host) (id : LeaseId) (r : Resource) : Prop := s.ended id ∧ s.made id r

/-- It exists, and the lease does not have its id yet. -/
def Unstored (s : Host) (id : LeaseId) (r : Resource) : Prop := s.made id r ∧ ¬ s.stored id r

variable {s : Host} {id : LeaseId} {r : Resource}

/-- **What exists after an operation.** -/
theorem made_apply (s : Host) (op : HostOp) (id : LeaseId) (r : Resource) :
    (s.apply op).made id r = match op with
      | .create j q => if id = j ∧ r = q then true else s.made id r
      | .remove j q => if id = j ∧ r = q then false else s.made id r
      | _ => s.made id r := by
  cases op with
  | release j => simp only [apply]; split_ifs <;> rfl
  | _ => rfl

/-- **The ids after an operation.** -/
theorem stored_apply (s : Host) (op : HostOp) (id : LeaseId) (r : Resource) :
    (s.apply op).stored id r = match op with
      | .store j q => if id = j ∧ r = q then true else s.stored id r
      | _ => s.stored id r := by
  cases op with
  | release j => simp only [apply]; split_ifs <;> rfl
  | _ => rfl

/-- **The end of a lease after an operation.** -/
theorem ended_apply (s : Host) (op : HostOp) (id : LeaseId) :
    (s.apply op).ended id = match op with
      | .claim j => if id = j then false else s.ended id
      | .setStatus j status =>
        if id = j then s.ended id || ((s.status id).isSome && status.isTerminal) else s.ended id
      | _ => s.ended id := by
  cases op with
  | claim j =>
    simp only [ended, apply, Function.update_apply]
    split_ifs <;> rfl
  | setStatus j status =>
    simp only [ended, apply, Function.update_apply]
    split_ifs with hj
    · subst hj
      cases hs : s.status id with
      | none => rfl
      | some old => cases ho : old.isTerminal <;> simp [ho]
    · rfl
  | release j => simp only [ended, apply]; split_ifs <;> rfl
  | _ => rfl

/-- Something is left of a lease when it is created, when the lease ends, or when it was. -/
theorem left_apply {op : HostOp} (h : (s.apply op).Left id r) :
    s.Left id r ∨ op = .create id r ∨
      ∃ status, op = .setStatus id status ∧ status.isTerminal := by
  obtain ⟨he, hm⟩ := h
  rw [ended_apply] at he
  rw [made_apply] at hm
  cases op with
  | claim j =>
    dsimp only at he
    split_ifs at he
    exact Or.inl ⟨he, hm⟩
  | setStatus j status =>
    dsimp only at he
    split_ifs at he with hj
    · subst hj
      simp only [Bool.or_eq_true, Bool.and_eq_true] at he
      rcases he with he | ⟨-, hst⟩
      · exact Or.inl ⟨he, hm⟩
      · exact Or.inr (Or.inr ⟨status, rfl, hst⟩)
    · exact Or.inl ⟨he, hm⟩
  | create j q =>
    dsimp only at hm
    split_ifs at hm with hj
    · obtain ⟨rfl, rfl⟩ := hj
      exact Or.inr (Or.inl rfl)
    · exact Or.inl ⟨he, hm⟩
  | remove j q =>
    dsimp only at hm
    split_ifs at hm
    exact Or.inl ⟨he, hm⟩
  | _ => exact Or.inl ⟨he, hm⟩

/-- What a handler gives up. -/
inductive GivesUp (s : Host) (id : LeaseId) (r : Resource) (out : CallOutcome) : HostPc → Prop
  | activate : s.Left id r → GivesUp s id r out (.activate id)
  | readIDs (live : Bool) : s.Left id r → .remove r ∉ reapCalls s id →
    GivesUp s id r out (.readIDs id live)
  | reap (live : Bool) (calls : List ReapCall) : s.Left id r → ¬ (live ∧ out = .ok) →
    GivesUp s id r out (.reap id live (.remove r :: calls))

/-- Who creates something for a lease, or ends it, tends what is left. -/
theorem act_begins {p p' : HostPc} {op : HostOp} {out : CallOutcome}
    (h : s.act p out = some (op, p'))
    (hop : op = .create id r ∨ ∃ status, op = .setStatus id status ∧ status.isTerminal) :
    p'.tends id r := by
  cases p with
  | provision j k =>
    simp only [act] at h
    split_ifs at h <;> cases h
    · have hj : j = id := by cases k <;> simp [ProvisionStep.op] at hop <;> exact hop.1
      cases k.next <;> simp [HostPc.tends, hj]
    · simp at hop
  | failLease j =>
    cases h
    obtain hop | ⟨_, hop, -⟩ := hop <;> cases hop
    simp [HostPc.tends]
  | stopLease j status live =>
    simp only [act] at h
    split_ifs at h <;> cases h
    · simp at hop
    · obtain hop | ⟨_, hop, -⟩ := hop <;> cases hop
      simp [HostPc.tends]
  | reap j live calls =>
    cases calls with
    | nil =>
      cases h
      simp at hop
    | cons call calls =>
      cases h
      cases call <;> simp only [ReapCall.op] at hop <;> split_ifs at hop <;> simp at hop
  | _ =>
    -- the other statuses are not terminal
    simp only [act] at h
    (repeat' split at h) <;> cases h <;> simp [LeaseStatus.isTerminal] at hop

/-- What is still left of what a call of `reapLeaseResources` tends is removed later, or given
up. -/
theorem act_tends_reap {live : Bool} {calls : List ReapCall} {p' : HostPc} {op : HostOp}
    {out : CallOutcome} (h : s.act (.reap id live calls) out = some (op, p'))
    (hr : .remove r ∈ calls) (hb : s.Left id r) (hd : (s.apply op).Left id r) :
    p'.tends id r ∨ s.GivesUp id r out (.reap id live calls) := by
  cases calls with
  | nil => cases hr
  | cons call calls =>
    cases h
    by_cases hrest : .remove r ∈ calls
    · exact Or.inl (by simp [HostPc.tends, hrest])
    · obtain rfl : .remove r = call := (List.mem_cons.1 hr).resolve_right hrest
      refine Or.inr (.reap live calls hb fun hok => ?_)
      -- the call succeeds, so nothing is left
      have hm := hd.2
      rw [if_pos hok, ReapCall.op, made_apply] at hm
      simp at hm

/-- **What is tended stays so**, or is given up. -/
theorem act_hands_on {p p' : HostPc} {op : HostOp} {out : CallOutcome}
    (h : s.act p out = some (op, p')) (hp : p.tends id r) (hb : s.Left id r)
    (hd : (s.apply op).Left id r) : p'.tends id r ∨ s.GivesUp id r out p := by
  cases p with
  | provision j k =>
    obtain rfl : j = id := by simpa [HostPc.tends] using hp
    simp only [act] at h
    split_ifs at h <;> cases h
    · left
      cases k.next <;> simp [HostPc.tends]
    · exact Or.inl (by simp [HostPc.tends])
  | failLease j =>
    obtain rfl : j = id := by simpa [HostPc.tends] using hp
    cases h
    exact Or.inl (by simp [HostPc.tends])
  | activate j =>
    obtain rfl : j = id := by simpa [HostPc.tends] using hp
    exact Or.inr (.activate hb)
  | readIDs j live =>
    obtain rfl : j = id := by simpa [HostPc.tends] using hp
    cases h
    by_cases hr : .remove r ∈ reapCalls s j
    · exact Or.inl (by simp [HostPc.tends, hr])
    · exact Or.inr (.readIDs live hb hr)
  | reap j live calls =>
    obtain ⟨rfl, hr⟩ : j = id ∧ .remove r ∈ calls := by simpa [HostPc.tends] using hp
    exact act_tends_reap h hr hb hd
  | _ => cases hp

/-- **Whatever is left is tended**, or given up. -/
theorem act_tends {p p' : HostPc} {op : HostOp} {out : CallOutcome}
    (h : s.act p out = some (op, p')) (hd : (s.apply op).Left id r) :
    p'.tends id r ∨ s.Left id r ∧ ¬ p.tends id r ∨ s.GivesUp id r out p := by
  rcases left_apply hd with hb | hop
  · by_cases hp : p.tends id r
    · exact (act_hands_on h hp hb hd).imp_right Or.inr
    · exact Or.inr (Or.inl ⟨hb, hp⟩)
  · exact Or.inl (act_begins h hop)

/-- A container is created just before its id is stored. -/
theorem act_create {p p' : HostPc} {out : CallOutcome} {k : ProvisionStep}
    (hk : r.storeStep = some k) (h : s.act p out = some (.create id r, p')) :
    p' = .provision id k := by
  cases p with
  | provision j k₀ =>
    simp only [act] at h
    split_ifs at h
    all_goals simp only [Option.some.injEq, Prod.mk.injEq, reduceCtorEq, false_and] at h
    obtain ⟨hop, rfl⟩ := h
    cases k₀ <;> cases hop <;> cases hk <;> rfl
  | reap j live calls =>
    cases calls with
    | nil => cases h
    | cons call calls =>
      simp only [act, Option.some.injEq, Prod.mk.injEq] at h
      obtain ⟨hop, -⟩ := h
      cases call <;> simp only [ReapCall.op] at hop <;> split_ifs at hop
  | resume =>
    simp only [act] at h
    split at h
    · simp only [Option.some.injEq, Prod.mk.injEq] at h
      obtain ⟨hop, -⟩ := h
      split_ifs at hop
    · cases h
  | _ => simp only [act] at h; (repeat' split at h) <;> cases h

/-- Until its id is stored, the lease is provisioned. -/
theorem act_unstored {p p' : HostPc} {op : HostOp} {out : CallOutcome} {k : ProvisionStep}
    (hk : r.storeStep = some k) (h : s.act p out = some (op, p'))
    (hu : (s.apply op).Unstored id r) :
    p' = .provision id k ∨ s.Unstored id r ∧ p ≠ .provision id k := by
  obtain ⟨hm, hs⟩ := hu
  rw [stored_apply] at hs
  rw [made_apply] at hm
  by_cases hop : op = .create id r
  · subst hop
    exact Or.inl (act_create hk h)
  · refine Or.inr ⟨⟨?_, ?_⟩, ?_⟩
    · cases op with
      | create j q =>
        dsimp only at hm
        rwa [if_neg fun hj => hop (by rw [hj.1, hj.2])] at hm
      | remove j q =>
        dsimp only at hm
        split_ifs at hm
        exact hm
      | _ => exact hm
    · cases op with
      | store j q =>
        dsimp only at hs
        split_ifs at hs with hj
        · exact absurd rfl hs
        · exact hs
      | _ => exact hs
    · rintro rfl
      cases r <;> cases hk <;> cases h <;> simp [ProvisionStep.op] at hs

/-- A container that is not to be removed has no id yet. -/
theorem unstored_of_not_mem (h : .remove r ∉ reapCalls s id) :
    ∃ k, r.storeStep = some k ∧ ¬ s.stored id r := by
  cases r with
  | container | proxy =>
    refine ⟨_, rfl, fun hs => h ?_⟩
    simp [reapCalls, hs]
  | volume | network => simp [reapCalls] at h

end Host

/-! ### In every run -/

section Reach

variable {C : Machine.Config Host HostPc → Machine.Label CallOutcome HostRequest Empty → Prop}
  {c : Machine.Config Host HostPc} {id : LeaseId} {r : Resource}

/-- A container without an id is being provisioned. -/
theorem provision_of_unstored {k : ProvisionStep} (hk : r.storeStep = some k)
    (h : hostSystem.Reach C c) (hu : c.shared.Unstored id r) :
    ∃ i : ℕ, c.threads[i]? = some (.provision id k) := by
  obtain ⟨i, p, hp, rfl⟩ := Machine.attended (M := host) (σ := Host.initial) (C := C)
    (D := fun s => s.Unstored id r) (W := fun p => p = .provision id k)
    (fun hu => absurd hu.1 (by simp [Host.initial])) (fun s e => nomatch e)
    (fun c i out p op p' _ _ _ ha hu => Host.act_unstored hk ha hu) h hu
  exact ⟨i, hp⟩

theorem exists_of_any {i : ℕ} {P : HostPc → Bool} (h : (c.threads.eraseIdx i).any P) :
    ∃ (j : ℕ) (q : HostPc), i ≠ j ∧ c.threads[j]? = some q ∧ P q := by
  obtain ⟨q, hq, hP⟩ := List.any_eq_true.1 h
  obtain ⟨j, hj, hq⟩ := List.mem_eraseIdx_iff_getElem?.1 hq
  exact ⟨j, q, Ne.symm hj, hq, hP⟩

/-- **What is left of a lease is still to be removed.** -/
theorem left_attended (h : hostSystem.Reach Removes c) (hl : c.shared.Left id r) :
    ∃ (i : ℕ) (p : HostPc), c.threads[i]? = some p ∧ p.tends id r := by
  refine Machine.attended_elsewhere (M := host) (σ := Host.initial) (C := Removes)
    (D := fun s => s.Left id r) (W := fun p => p.tends id r)
    (fun hl => absurd hl.2 (by simp [Host.initial])) (fun s e => nomatch e)
    (fun c i out p op p' hc hp hg ha hl => ?_) h hl
  have hg := hg.run hp
  rcases Host.act_tends ha hl with hW | hbefore | hgives
  · exact Or.inl hW
  · exact Or.inr (Or.inr hbefore)
  · refine Or.inr (Or.inl ?_)
    cases hgives with
    | activate hleft =>
      simp only [hleft.1, Bool.not_true, Bool.false_or, List.all_eq_true] at hg
      have hr := hg r (by cases r <;> simp [Resource.all])
      simp only [hleft.2, Bool.not_true, Bool.false_or] at hr
      exact exists_of_any hr
    | readIDs live hleft hr =>
      obtain ⟨k, hk, hs⟩ := Host.unstored_of_not_mem hr
      obtain ⟨j, hj⟩ := provision_of_unstored hk hc ⟨hleft.2, hs⟩
      refine ⟨j, _, ?_, hj, by simp [HostPc.tends]⟩
      rintro rfl
      rw [hp] at hj
      cases hj
    | reap live calls hleft hfail =>
      simp only [hleft.2, Bool.not_true, Bool.or_false, Bool.or_eq_true, Bool.and_eq_true,
        decide_eq_true_eq] at hg
      exact exists_of_any (hg.resolve_left hfail)

/-- **Nothing survives the lease.**  Once it is over and the handlers have returned, its containers,
its volume and its network are gone. -/
theorem nothing_survives (h : hostSystem.Reach Removes c) (ho : c.shared.ended id)
    (hdone : ∀ p ∈ c.threads, p.isDone) : c.shared.made id r = false := by
  by_contra hm
  obtain ⟨i, p, hp, htends⟩ := left_attended h ⟨ho, by simpa using hm⟩
  have hd := hdone p (List.mem_of_getElem? hp)
  cases p with
  | done => cases htends
  | _ => cases hd

end Reach

/-- Handler `i` takes `n` steps, and its calls succeed. -/
def hostTurns (i n : ℕ) : List (Machine.Label CallOutcome HostRequest Empty) :=
  List.replicate n (.run i .ok)

/-- A lease is evicted while it is provisioned, and then its provisioning runs out of time. -/
theorem nothing_survives_evicted :
    ∃ c, hostSystem.Reach Removes c ∧ c.shared.ended 0 ∧ c.shared.stored 0 .proxy ∧
      ∀ r, c.shared.made 0 r = false := by
  obtain ⟨c, hc, hp⟩ := System.exists_reach (S := hostSystem) (C := Removes)
    (p := fun c => decide (c.shared.ended 0 ∧ c.shared.stored 0 .proxy ∧
      ∀ p ∈ c.threads, p.isDone))
    (.start .create :: hostTurns 0 4 ++ .start .endLease :: hostTurns 1 6 ++ hostTurns 0 2 ++
      .run 0 .expires :: hostTurns 0 7) (by decide +kernel)
  obtain ⟨hended, hproxy, hdone⟩ := of_decide_eq_true hp
  exact ⟨c, hc, hended, hproxy, fun r => nothing_survives hc hended hdone⟩

/-- Docker does what it is asked to under a live context. -/
abbrev DockerObeys : Machine.Config Host HostPc →
    Machine.Label CallOutcome HostRequest Empty → Prop :=
  Machine.Guard fun _ _ p out =>
    match p with
    | .provision _ k => k = .awaitJupyter || decide (out ≠ .fails)
    | .reap .. => out ≠ .fails
    | _ => true

/-- The provider evicts nobody. -/
def Unevicted (_ : Machine.Config Host HostPc) :
    Machine.Label CallOutcome HostRequest Empty → Prop
  | .start r => r ≠ .endLease
  | _ => True

instance (c : Machine.Config Host HostPc) :
    (l : Machine.Label CallOutcome HostRequest Empty) → Decidable (Unevicted c l)
  | .start _ => inferInstanceAs (Decidable (_ ≠ _))
  | .env _ | .run _ _ => inferInstanceAs (Decidable True)

/-- **A container can survive its lease**, if the context that the failed handler passes to
`StopLease` is the one that has expired. -/
theorem not_nothing_survives :
    ¬ ∀ c, hostSystem.Reach (fun c l => DockerObeys c l ∧ Unevicted c l) c →
      ∀ id, c.shared.ended id → c.shared.activeLease ≠ some id →
        (∀ p ∈ c.threads, p.isDone) → ∀ r, c.shared.made id r = false := by
  intro h
  obtain ⟨c, hc, hp⟩ := System.exists_reach (S := hostSystem)
    (C := fun c l => DockerObeys c l ∧ Unevicted c l)
    (p := fun c => decide (c.shared.ended 0 ∧ c.shared.activeLease = none ∧
      (∀ p ∈ c.threads, p.isDone) ∧ c.shared.made 0 .container))
    (.start .create :: hostTurns 0 14 ++ .run 0 .expires :: hostTurns 0 9) (by decide +kernel)
  obtain ⟨hended, hslot, hdone, hm⟩ := of_decide_eq_true hp
  rw [h c hc 0 hended (by simp [hslot]) hdone .container] at hm
  cases hm

end Mach402
