import Mach402.Agent.Freeze

/-!
# The tunnel

There is one tunnel on a node, and `Clear` does not say for which lease it withdraws it.  A handler
that ends a lease gives the slot back before it clears the tunnel, so by then the tunnel may be
another lease's.  `tunnel_stays`: it keeps pointing where it points until a handler that ends that
very lease clears it, in every run in which a lease claims the slot while the tunnel is down, and
is published while no other handler may still point or clear the tunnel for another lease
(`SoleTunnel`).
-/

namespace Mach402

/-! ### Who may touch the tunnel -/

/-- The lease whose tunnel `k` clears. -/
def After.tunnels (id : LeaseId) : After → Option LeaseId
  | .refuse _ => none
  | _ => some id

/-- The lease for which the burn is followed by `tunnel.Clear`. -/
def Meter.tunnels (s : Node) (id : LeaseId) : Meter → Option LeaseId
  | .tick => if (s.lease id).status.isTerminal then none else some id
  | .last _ => some id

/-- The lease for which the thread may still call `PointAt` or `Clear`.  The sweep and `EndLease`
let a lease alone that they find over. -/
def Pc.tunnels (s : Node) : Pc → Option LeaseId
  | .provision o | .awaitJupyter o | .activate o | .sign o | .pointAt o | .reachable o
  | .settleOpening o => some o.id
  | .checkToken id _ _ .stop | .stopStatus id | .endMeter id | .sweepFullyPaid id
  | .sweepRemaining id | .sweepPaused id | .stopLease id _ _ | .clear id _ => some id
  | .endStatus id | .sweepStatus id | .sweepMeter id | .tickElapsed id _ | .tickPublish id _ _
  | .sweepSwitch id => if (s.lease id).status.isTerminal then none else some id
  | .readClock id m | .burn id _ m => m.tunnels s id
  | .reap id k | .release id k => k.tunnels id
  | _ => none

/-- The lease that the thread has yet to publish. -/
def Pc.publishes : Pc → Option LeaseId
  | .startLease o | .claimSlot o _ | .provision o | .awaitJupyter o | .activate o | .sign o
  | .pointAt o => some o.id
  | _ => none

/-- A lease claims the slot while the tunnel is down.  It is published while the slot is not
another lease's, and no other handler may still touch the tunnel for another lease. -/
def Pc.soleTunnel (c : Machine.Config Node Pc) : Pc → Outcome → Bool
  | .claimSlot .., _ => c.shared.busy || c.shared.tunnel.isNone
  | .pointAt o, .ok .. =>
    c.shared.activeLease.all (· = o.id) &&
      c.threads.all fun q => (q.tunnels c.shared).all (· = o.id)
  | _, _ => true

/-- The leases of the run have the tunnel one after the other. -/
abbrev SoleTunnel : NodeGuard := Machine.Guard fun c _ p out => p.soleTunnel c out

/-- No handler that ends the lease clears the tunnel. -/
abbrev Spares (id : LeaseId) : NodeGuard := Machine.Guard fun _ _ p _ =>
  match p with
  | .clear j _ => decide (j ≠ id)
  | _ => true

/-! ### One step -/

/-- **The tunnel after an operation.** -/
theorem Node.tunnel_apply (s : Node) (op : Op) :
    (s.apply op).tunnel = match op with
      | .point id => some id
      | .unpoint => none
      | _ => s.tunnel := by
  cases op with
  | release j => simp only [apply]; split_ifs <;> rfl
  | _ => rfl

section Step

variable {cfg : NodeConfig} {s : Node} {p p' : Pc} {out : Outcome} {op : Op} {id : LeaseId}

/-- A lease that is over stays over. -/
theorem Node.isTerminal_lease_apply (hop : op.Allowed s)
    (h : (s.lease id).status.isTerminal) : ((s.apply op).lease id).status.isTerminal := by
  cases hl : s.leases id with
  | none => simp [Node.lease, hl, Lease.provisioning, LeaseStatus.isTerminal] at h
  | some l => exact ((Node.later_apply hop).ended ⟨l, hl, by rwa [← Node.lease_eq hl]⟩).lease

/-- The steps of others do not make a thread touch the tunnel. -/
theorem Pc.tunnels_apply {q : Pc} (hop : op.Allowed s) (h : q.tunnels (s.apply op) = some id) :
    q.tunnels s = some id := by
  have hcheck : ∀ j, (if ((s.apply op).lease j).status.isTerminal then none else some j) = some id →
      (if (s.lease j).status.isTerminal then none else some j) = some id := by
    intro j hj
    split_ifs at hj with hover
    rw [if_neg fun h => hover (Node.isTerminal_lease_apply hop h), hj]
  cases q with
  | endStatus j | sweepStatus j | sweepMeter j | tickElapsed j | tickPublish j | sweepSwitch j =>
    exact hcheck j h
  | readClock j m | burn j now m =>
    cases m with
    | tick => exact hcheck j h
    | last e => exact h
  | checkToken j path token route =>
    cases route with
    | topUp => cases h
    | stop => exact h
  | _ => exact h

@[simp] theorem Ender.tunnels_return (e : Ender) : (e.return id).tunnels s = none := by
  cases e <;> rfl

/-- A sweep comes to touch the tunnel for the lease it finds in the slot. -/
theorem act_tunnels_sweep (hop : op.Allowed s) (hp : p.part = .sweep)
    (h : s.act cfg p out = some (op, p')) (hid : p'.tunnels (s.apply op) = some id) :
    p.tunnels s = some id ∨ s.activeLease = some id := by
  have hid' := Pc.tunnels_apply hop hid
  cases p with
  | sweep =>
    simp only [Node.act] at h
    split at h <;> cases h
    · cases hid
    · rename_i j ha
      simp only [Pc.tunnels] at hid'
      split_ifs at hid'
      cases hid'
      exact Or.inr ha
  | sweepStatus j =>
    simp only [Node.act] at h
    split at h <;> cases h
    · cases hid
    · rename_i hn
      refine Or.inl ?_
      simp only [Pc.tunnels, hn] at hid' ⊢
      exact hid'
  | sweepMeter j =>
    simp only [Node.act] at h
    split at h <;> cases h <;> exact Or.inl hid'
  | tickElapsed j remaining | tickPublish j remaining elapsed =>
    cases h
    exact Or.inl hid'
  | sweepSwitch j =>
    simp only [Node.act] at h
    split at h <;> cases h
    · rename_i hst
      exact Or.inl (by simpa [Pc.tunnels, hst, LeaseStatus.isTerminal] using hid)
    · rename_i hst
      exact Or.inl (by simpa [Pc.tunnels, hst, LeaseStatus.isTerminal] using hid)
    · cases hid
  | sweepFullyPaid | sweepRemaining | sweepOverdue | pause | pauseContainer | sweepPaused =>
    simp only [Node.act] at h
    (repeat' split at h) <;> cases h <;> first | exact Or.inl hid | cases hid
  | _ => cases hp

/-- What ends a session touches the tunnel for the lease it was called for. -/
theorem act_tunnels_settleSession (hp : p.part = .settleSession)
    (h : s.act cfg p out = some (op, p')) (hid : p'.tunnels (s.apply op) = some id) :
    p.tunnels s = some id := by
  cases p with
  | stopLease j status k =>
    simp only [Node.act] at h
    split at h <;> cases h <;> cases k <;> first | exact hid | cases hid
  | reap j k =>
    cases h
    exact hid
  | release j k =>
    cases h
    cases k <;> exact hid
  | clear j k =>
    cases h
    cases k <;> cases hid
  | settleSession | readCredit | refund | markSettled | recordSettlement | respondState | done =>
    simp only [Node.act] at h
    (repeat' split at h) <;> cases h <;> first | exact hid | cases hid | simp at hid
  | _ => cases hp

/-- A thread comes to touch the tunnel for the lease it finds in the slot, or puts there. -/
theorem act_tunnels (hop : op.Allowed s) (h : s.act cfg p out = some (op, p'))
    (hid : p'.tunnels (s.apply op) = some id) :
    p.tunnels s = some id ∨ s.activeLease = some id ∨
      ∃ o expiresAt, p = .claimSlot o expiresAt ∧ s.busy = false := by
  by_cases hsweep : p.part = .sweep
  · exact (act_tunnels_sweep hop hsweep h hid).imp_right Or.inl
  by_cases hsettle : p.part = .settleSession
  · exact Or.inl (act_tunnels_settleSession hsettle h hid)
  have hid' := Pc.tunnels_apply hop hid
  cases p with
  | claimSlot o expiresAt =>
    simp only [Node.act] at h
    split at h
    · cases h
      cases hid
    · rename_i hbusy
      exact Or.inr (Or.inr ⟨o, expiresAt, rfl, by simpa using hbusy⟩)
  | authorize path token route =>
    simp only [Node.act] at h
    repeat' split at h
    all_goals cases h
    · cases hid
    · cases hid
    · rename_i j ha
      cases route <;> cases hid
      exact Or.inr (Or.inl ha)
  | checkToken j path token route =>
    simp only [Node.act] at h
    split at h
    · cases h
      cases hid
    · cases route <;> cases h <;> cases hid
      exact Or.inl rfl
  | endLease =>
    simp only [Node.act] at h
    split at h <;> cases h
    · cases hid
    · rename_i j ha
      simp only [Pc.tunnels] at hid'
      split_ifs at hid'
      cases hid'
      exact Or.inr (Or.inl ha)
  | endStatus j =>
    simp only [Node.act] at h
    split at h <;> cases h
    · cases hid
    · rename_i hn
      refine Or.inl ?_
      simp only [Pc.tunnels, hn] at hid' ⊢
      exact hid'
  | readClock j m =>
    cases h
    exact Or.inl hid'
  | burn j now m =>
    cases h
    cases m <;> exact Or.inl hid'
  | sweep | sweepStatus | sweepMeter | tickElapsed | tickPublish | sweepSwitch | sweepFullyPaid
  | sweepRemaining | sweepOverdue | pause | pauseContainer | sweepPaused => exact absurd rfl hsweep
  | stopLease | reap | release | clear | settleSession | readCredit | refund | markSettled
  | recordSettlement | respondState | done => exact absurd rfl hsettle
  | _ =>
    simp only [Node.act] at h
    (repeat' split at h) <;> cases h <;> first | exact Or.inl hid | cases hid

/-- A lease is published once, by the handler that minted its id. -/
theorem act_publishes (h : s.act cfg p out = some (op, p')) (hid : p'.publishes = some id) :
    p.publishes = some id ∨ op = .mint ∧ id = s.nextLease := by
  cases p with
  | mint seconds chunk price =>
    cases out <;> cases h <;> cases hid
    exact Or.inr ⟨rfl, rfl⟩
  | stopLease j status k | release j k | clear j k =>
    simp only [Node.act] at h
    (repeat' split at h) <;> cases h <;> cases k <;> cases hid
  | burn j now m =>
    cases h
    cases m <;> cases hid
  | settleSession j e | refund j payer owed e | recordSettlement j refund transaction e =>
    simp only [Node.act] at h
    (repeat' split at h) <;> cases h <;> cases e <;> cases hid
  | _ =>
    simp only [Node.act] at h
    (repeat' split at h) <;> cases h <;>
      first | exact Or.inl hid | cases hid

/-- The tunnel is pointed by the handler that publishes its lease, and withdrawn by that one or by
a handler that ends a lease. -/
theorem act_point (h : s.act cfg p out = some (op, p')) (hop : (s.apply op).tunnel ≠ s.tunnel) :
    (∃ o value transaction, p = .pointAt o ∧ out = .ok value transaction ∧ op = .point o.id ∧
        p' = .reachable o) ∨
      op = .unpoint ∧ ((∃ o, p = .pointAt o) ∨ ∃ j k, p = .clear j k) := by
  cases p with
  | pointAt o =>
    cases out <;> cases h
    · exact Or.inl ⟨o, _, _, rfl, rfl, rfl, rfl⟩
    · exact Or.inr ⟨rfl, Or.inl ⟨o, rfl⟩⟩
    · exact Or.inr ⟨rfl, Or.inl ⟨o, rfl⟩⟩
  | clear j k => cases h; exact Or.inr ⟨rfl, Or.inr ⟨j, k, rfl⟩⟩
  | recordLease | recordPayment | tickPublish | recordSettlement =>
    simp only [Node.act, publishAudit] at h
    split_ifs at h <;> cases h <;> exact absurd rfl hop
  | _ =>
    simp only [Node.act] at h
    (repeat' split at h) <;> cases h <;>
      first | exact absurd rfl hop | exact absurd (Node.tunnel_apply _ _) hop

/-- The slot is claimed by the handler that opens the lease. -/
theorem act_activeLease (h : s.act cfg p out = some (op, p'))
    (ha : (s.apply op).activeLease = some id) :
    s.activeLease = some id ∨ ∃ o expiresAt, p = .claimSlot o expiresAt ∧ s.busy = false := by
  rw [Node.activeLease_apply] at ha
  cases p with
  | claimSlot o expiresAt =>
    simp only [Node.act] at h
    split at h
    · cases h
      exact Or.inl ha
    · rename_i hbusy
      exact Or.inr ⟨o, expiresAt, rfl, by simpa using hbusy⟩
  | release j k =>
    cases h
    dsimp only at ha
    split_ifs at ha
    exact Or.inl ha
  | recordLease | recordPayment | tickPublish | recordSettlement =>
    simp only [Node.act, publishAudit] at h
    split_ifs at h <;> cases h <;> exact Or.inl ha
  | _ =>
    simp only [Node.act] at h
    (repeat' split at h) <;> cases h <;> exact Or.inl ha

end Step

/-! ### In every run -/

section Reach

variable {cfg : NodeConfig} {c c' : Machine.Config Node Pc} {B : LeaseId}

/-- The tunnel is that of the lease in the slot, if any. -/
def Node.TunnelSlot (s : Node) : Prop := ∀ B A, s.tunnel = some B → s.activeLease = some A → A = B

/-- The thread touches the tunnel for the lease it points at, and points it there once. -/
structure Pc.OwnTunnel (s : Node) (p : Pc) : Prop where
  own : ∀ B A, s.tunnel = some B → p.tunnels s = some A → A = B
  yet : ∀ A, p.publishes = some A → s.tunnel ≠ some A

/-- An id that is being published is taken. -/
theorem Pc.opener_of_publishes {p : Pc} {id : LeaseId} (h : p.publishes = some id) :
    p.opener = some id := by
  cases p with
  | startLease | claimSlot | provision | awaitJupyter | activate | sign | pointAt => exact h
  | _ => cases h

/-- The tunnel points at a lease whose id is taken. -/
def Node.TunnelFresh (s : Node) : Prop := ∀ B, s.tunnel = some B → B < s.nextLease

/-- A lease claims the slot while the tunnel is down. -/
theorem Pc.soleTunnel_claimSlot {c : Machine.Config Node Pc} {o : Opening} {expiresAt : ℤ}
    {out : Outcome} (h : (Pc.claimSlot o expiresAt).soleTunnel c out)
    (hbusy : c.shared.busy = false) : c.shared.tunnel = none := by
  simpa [Pc.soleTunnel, hbusy] using h

/-- A lease is published while no other one holds the slot, or has the tunnel touched for it. -/
theorem Pc.soleTunnel_pointAt {c : Machine.Config Node Pc} {o : Opening}
    {value transaction : String} (h : (Pc.pointAt o).soleTunnel c (.ok value transaction)) :
    (∀ A, c.shared.activeLease = some A → A = o.id) ∧
      ∀ q ∈ c.threads, ∀ A, q.tunnels c.shared = some A → A = o.id := by
  simpa [Pc.soleTunnel, Option.all_eq_true] using h

/-- A step keeps the slot and the tunnel with one lease. -/
theorem tunnelSlot_step {i : ℕ} {p p' : Pc} {out : Outcome} {op : Op}
    (hc : (nodeSystem cfg).Reach SoleTunnel c) (hp : c.threads[i]? = some p)
    (hg : p.soleTunnel c out) (ha : c.shared.act cfg p out = some (op, p'))
    (hslot : c.shared.TunnelSlot) (hfresh : c.shared.TunnelFresh) :
    (c.shared.apply op).TunnelSlot ∧ (c.shared.apply op).TunnelFresh := by
  have hnext := (Node.later_apply (allowed_of_reach hc hp ha)).next
  by_cases hsame : (c.shared.apply op).tunnel = c.shared.tunnel
  · refine ⟨fun B A hB hA => ?_, fun B hB => ?_⟩
    · rw [hsame] at hB
      rcases act_activeLease ha hA with hA | ⟨o, e, rfl, hbusy⟩
      · exact hslot B A hB hA
      · rw [Pc.soleTunnel_claimSlot hg hbusy] at hB
        cases hB
    · exact (hfresh B (hsame ▸ hB)).trans_le hnext
  · rcases act_point ha hsame with ⟨o, v, t, rfl, rfl, rfl, rfl⟩ | ⟨rfl, -⟩
    · have hlt := (knows_of_reach hc hp).lt_nextLease (sound_of_reach hc) rfl
      exact ⟨fun B A hB hA => (by cases hB; exact (Pc.soleTunnel_pointAt hg).1 A hA),
        fun B hB => (by cases hB; exact hlt)⟩
    · exact ⟨fun B A hB => (by cases hB), fun B hB => (by cases hB)⟩

/-- The acting thread goes on to touch its own tunnel only. -/
theorem ownTunnel_step {i : ℕ} {p p' : Pc} {out : Outcome} {op : Op}
    (hc : (nodeSystem cfg).Reach SoleTunnel c) (hp : c.threads[i]? = some p)
    (hg : p.soleTunnel c out) (ha : c.shared.act cfg p out = some (op, p'))
    (hslot : c.shared.TunnelSlot) (hfresh : c.shared.TunnelFresh) (hown : p.OwnTunnel c.shared) :
    p'.OwnTunnel (c.shared.apply op) := by
  by_cases hsame : (c.shared.apply op).tunnel = c.shared.tunnel
  · refine ⟨fun B A hB hA => ?_, fun A hA hB => ?_⟩
    · rw [hsame] at hB
      rcases act_tunnels (allowed_of_reach hc hp ha) ha hA with hA | hA | ⟨o, e, rfl, hbusy⟩
      · exact hown.own B A hB hA
      · exact hslot B A hB hA
      · rw [Pc.soleTunnel_claimSlot hg hbusy] at hB
        cases hB
    · rw [hsame] at hB
      rcases act_publishes ha hA with hA | ⟨rfl, rfl⟩
      · exact hown.yet A hA hB
      · exact absurd (hfresh _ hB) (lt_irrefl _)
  · rcases act_point ha hsame with ⟨o, v, t, rfl, rfl, rfl, rfl⟩ | ⟨rfl, -⟩
    · exact ⟨fun B A hB hA => (by cases hB; cases hA; rfl), fun A hA => (by cases hA)⟩
    · exact ⟨fun B A hB => (by cases hB), fun A _ hB => (by cases hB)⟩

/-- The other threads go on to touch their own tunnel only. -/
theorem Pc.OwnTunnel.later {i j : ℕ} {p p' q : Pc} {out : Outcome} {op : Op} (hij : i ≠ j)
    (hc : (nodeSystem cfg).Reach SoleTunnel c) (hp : c.threads[i]? = some p)
    (hq : c.threads[j]? = some q) (hg : p.soleTunnel c out)
    (ha : c.shared.act cfg p out = some (op, p')) (hown : q.OwnTunnel c.shared) :
    q.OwnTunnel (c.shared.apply op) := by
  have htunnels : ∀ A, q.tunnels (c.shared.apply op) = some A → q.tunnels c.shared = some A :=
    fun _ => Pc.tunnels_apply (allowed_of_reach hc hp ha)
  by_cases hsame : (c.shared.apply op).tunnel = c.shared.tunnel
  · exact ⟨fun B A hB hA => hown.own B A (hsame ▸ hB) (htunnels A hA),
      fun A hA hB => hown.yet A hA (hsame ▸ hB)⟩
  · rcases act_point ha hsame with ⟨o, v, t, rfl, rfl, rfl, rfl⟩ | ⟨rfl, -⟩
    · refine ⟨fun B A hB hA => ?_, fun A hA hB => ?_⟩
      · cases hB
        exact (Pc.soleTunnel_pointAt hg).2 q (List.mem_of_getElem? hq) A (htunnels A hA)
      · -- two handlers would open the lease
        cases hB
        exact hij (opener_unique hc hp hq rfl (Pc.opener_of_publishes hA))
    · exact ⟨fun B A hB => (by cases hB), fun A _ hB => (by cases hB)⟩

/-- **One tunnel, one lease**: what holds of the threads while the leases have the tunnel one after
the other. -/
def tunnelOutline (cfg : NodeConfig) : Machine.Outline (node cfg) Node.initial SoleTunnel where
  I s := s.TunnelSlot ∧ s.TunnelFresh
  A s p := p.OwnTunnel s
  X _ _ := True
  init := ⟨fun _ _ h => (by cases h), fun _ h => (by cases h)⟩
  symm _ _ _ := trivial
  start s r := by cases r <;> exact ⟨fun _ _ _ h => (by cases h), fun _ h => (by cases h)⟩
  apart _ _ := trivial
  envI s e h := by cases e <;> exact h
  envA s e p h := by cases e <;> exact ⟨by cases p <;> exact h.own, h.yet⟩
  act c i out p op p' hc hp hg hI hA ha :=
    ⟨tunnelSlot_step hc hp (hg.run hp) ha hI.1 hI.2,
      ownTunnel_step hc hp (hg.run hp) ha hI.1 hI.2 hA⟩
  free c i j out p q op p' hij hc hp hq hg _ _ hA _ ha :=
    ⟨hA.later hij hc hp hq (hg.run hp) ha, trivial⟩

/-- A step that withdraws or moves the tunnel of a lease clears it for that lease. -/
theorem tunnel_step (hc : (nodeSystem cfg).Reach SoleTunnel c) (ht : c.shared.tunnel = some B)
    {l : Machine.Label Outcome Request Event} (hg : SoleTunnel c l) (hspares : Spares B c l)
    (hs : (nodeSystem cfg).step c l = some c') : c'.shared.tunnel = some B := by
  have hown := fun i p hp => ((tunnelOutline cfg).holds hc).annot i p hp
  cases l with
  | env e => cases hs; cases e <;> exact ht
  | start r => cases hs; exact ht
  | run i out =>
    obtain ⟨p, op, p', hp, ha, rfl⟩ := Machine.step_run hs
    have hsp := hspares.run hp
    change (c.shared.apply op).tunnel = some B
    by_contra hne
    have hsame : (c.shared.apply op).tunnel ≠ c.shared.tunnel := fun h => hne (h.trans ht)
    rcases act_point ha hsame with ⟨o, v, t, rfl, -⟩ | ⟨-, ⟨o, rfl⟩ | ⟨j, k, rfl⟩⟩
    · exact (hown i _ hp).yet o.id rfl (by rw [ht, (hown i _ hp).own B o.id ht rfl])
    · exact (hown i _ hp).yet o.id rfl (by rw [ht, (hown i _ hp).own B o.id ht rfl])
    · exact absurd ((hown i _ hp).own B j ht rfl) (of_decide_eq_true hsp)

/-- **The tunnel keeps pointing at a lease** until a handler that ends that very lease clears it. -/
theorem tunnel_stays (h : (nodeSystem cfg).Reach SoleTunnel c) (ht : c.shared.tunnel = some B)
    (hr : (nodeSystem cfg).Run (fun d l => SoleTunnel d l ∧ Spares B d l) c c') :
    c'.shared.tunnel = some B :=
  (hr.invariant (I := fun d => (nodeSystem cfg).Reach SoleTunnel d ∧ d.shared.tunnel = some B)
    ⟨h, ht⟩ fun _ _ _ ⟨hd, ht⟩ ⟨hg, hspares⟩ hs =>
      ⟨hd.step hg hs, tunnel_step hd ht hg hspares hs⟩).2

end Reach

/-- A first session is stopped, up to the call that clears its tunnel. -/
def stopUncleared : List (Machine.Label Outcome Request Event) :=
  openSession ++ .start (.stop sessionPath "t") :: turns 1 8

/-- The tunnel is cleared, and a second session is opened; then the provider ends it. -/
theorem tunnel_stays_second :
    ∃ c c' : Machine.Config Node Pc, c.shared.tunnel = some 1 ∧ c'.shared.activeLease = none ∧
      c'.shared.tunnel = some 1 := by
  obtain ⟨c, hc, hp⟩ := System.exists_reach (S := nodeSystem .small) (C := SoleTunnel)
    (p := fun c => decide (c.shared.tunnel = some 1) &&
      ((nodeSystem .small).exec (fun d l => SoleTunnel d l ∧ Spares 1 d l) c
        (.start .endLease :: turns 3 8)).any
          fun c' => decide (c'.shared.activeLease = none))
    (stopUncleared ++ turns 1 1 ++ .start (.create 120) :: turns 2 20) (by decide +kernel)
  simp only [Bool.and_eq_true, decide_eq_true_eq, Option.any_eq_true] at hp
  obtain ⟨ht, c', hc', ha⟩ := hp
  exact ⟨c, c', ht, ha, tunnel_stays hc ht (System.run_of_exec hc')⟩

/-- **Ending a session can withdraw another's tunnel.**  A second session is opened before the
handler that stopped the first clears the tunnel. -/
theorem not_tunnel_stays :
    ¬ ∀ (cfg : NodeConfig) (c c' : Machine.Config Node Pc) (B : LeaseId),
      (nodeSystem cfg).Reachable c → c.shared.tunnel = some B →
      (nodeSystem cfg).Run (Spares B) c c' → c'.shared.tunnel = some B := by
  intro h
  obtain ⟨c, hc, hp⟩ := System.exists_reach (S := nodeSystem .small) (C := System.Any)
    (p := fun c => decide (c.shared.tunnel = some 1) &&
      ((nodeSystem .small).exec (Spares 1) c (turns 1 1)).any
        fun c' => decide (c'.shared.tunnel = none))
    (stopUncleared ++ .start (.create 120) :: turns 2 20) (by decide +kernel)
  simp only [Bool.and_eq_true, decide_eq_true_eq, Option.any_eq_true] at hp
  obtain ⟨ht, c', hc', hnone⟩ := hp
  rw [h .small c c' 1 hc ht (System.run_of_exec hc')] at hnone
  cases hnone

end Mach402
