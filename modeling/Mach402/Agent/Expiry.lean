import Mach402.Agent.Freeze

/-!
# Expiry

The sweep freezes a session by how far it is past its expiry, so the expiry has to follow the
credit: ahead of the last tick by what the credit buys, and pinned where it stopped buying a second.

* `Lease.Synced`: the expiry agrees with the credit;
* `Lease.RanOut`: the tick at which the credit stopped buying a second;
* `Lease.sweep`: one pass of `sweepLeases` over the lease, with its readings of the clock, and
  `alone_sweep`: it is what a sweep of the node does;
* `expiry_tracks_credit`: the lease is synced after any payments, burns, freezes and thaws, and
  when the sweep freezes it.
-/

namespace Mach402

/-! ### Operations on a metered lease -/

/-- The clock reading of an operation. -/
def LeaseOp.reading : LeaseOp → Option ℤ
  | .markMetered now .. | .burn now | .pause now | .resume now => some now
  | _ => none

/-- A payment, a burn, a freeze or a thaw. -/
def LeaseOp.Metering : LeaseOp → Prop
  | .addCredit amount => 0 ≤ amount
  | .burn _ | .pause _ | .resume _ => True
  | _ => False

theorem LeaseOp.Metering.allowed {l : Lease} {op : LeaseOp} (h : op.Metering) : op.Allowed l := by
  cases op with
  | addCredit => exact h
  | burn | pause | resume => trivial
  | _ => exact h.elim

/-- The readings of the clock, from that of `MarkMetered` on. -/
def readings (t : ℤ) (ops : List LeaseOp) : List ℤ := t :: ops.filterMap LeaseOp.reading

/-- **The expiry agrees with the credit.** -/
structure Lease.Synced (l : Lease) : Prop where
  paid : 0 < l.secondsRemaining →
    l.exhausted = false ∧ l.expiresAt = l.lastTickAt + Duration.ofSeconds l.secondsRemaining
  spent : l.secondsRemaining ≤ 0 → l.exhausted = true ∧ l.expiresAt ≤ l.lastTickAt

/-- From the lease `l` that was metered at `t`, the credit stopped buying a second at the burn of
time `e`, or never did and `e` is `t`; and it has not bought one since. -/
def Lease.RanOut (l : Lease) (t : ℤ) (ops : List LeaseOp) (e : ℤ) : Prop :=
  ∃ before since, ops = before ++ since ∧
    (before = [] ∧ e = t ∨
      ∃ paid, before = paid ++ [.burn e] ∧ 0 < (l.run paid).secondsRemaining) ∧
    ∀ later, later <+: since → (l.run (before ++ later)).secondsRemaining ≤ 0

namespace Lease

variable {l : Lease}

@[simp] theorem secondsRemaining_syncExpiry :
    l.syncExpiry.secondsRemaining = l.secondsRemaining := by
  simp only [secondsRemaining, ledger_syncExpiry]

/-- **Synchronizing** sets the expiry ahead by what the credit buys, or pins it. -/
theorem expiry_syncExpiry (h : l.ledger ≠ none) :
    l.syncExpiry.exhausted = decide (l.secondsRemaining ≤ 0) ∧
      l.syncExpiry.expiresAt =
        if 0 < l.secondsRemaining then l.lastTickAt + Duration.ofSeconds l.secondsRemaining
        else if l.exhausted then l.expiresAt else l.lastTickAt := by
  obtain ⟨g, hg⟩ := Option.ne_none_iff_exists'.1 h
  have hsec : l.secondsRemaining = g.secondsRemaining := by simp [secondsRemaining, hg]
  simp only [syncExpiry, hg, hsec]
  split_ifs with hs hp hx <;> simp_all

/-- What a step does to the expiry. -/
structure Follows (l l' : Lease) : Prop where
  synced : l'.Synced
  pinned : l.secondsRemaining ≤ 0 → l'.secondsRemaining ≤ 0 → l'.expiresAt = l.expiresAt
  stopped : 0 < l.secondsRemaining → l'.secondsRemaining ≤ 0 → l'.expiresAt = l'.lastTickAt

/-- Synchronizing follows, if nothing else has moved the expiry, and the clock has not gone back. -/
theorem Synced.follows_syncExpiry {l₁ : Lease} (h : l.Synced) (hg : l₁.ledger ≠ none)
    (hx : l₁.exhausted = l.exhausted) (he : l₁.expiresAt = l.expiresAt)
    (ht : l.lastTickAt ≤ l₁.lastTickAt) : l.Follows l₁.syncExpiry := by
  obtain ⟨hex, hexp⟩ := expiry_syncExpiry hg
  rw [hx, he] at hexp
  refine ⟨⟨fun hs => ?_, fun hs => ?_⟩, fun hs hs' => ?_, fun hs hs' => ?_⟩
  · rw [secondsRemaining_syncExpiry] at hs
    rw [hex, hexp, if_pos hs, secondsRemaining_syncExpiry, lastTickAt_syncExpiry]
    exact ⟨decide_eq_false (not_le.2 hs), rfl⟩
  · rw [secondsRemaining_syncExpiry] at hs
    rw [hex, hexp, if_neg (not_lt.2 hs), lastTickAt_syncExpiry]
    refine ⟨decide_eq_true hs, ?_⟩
    split_ifs with hx'
    · refine (h.spent (not_lt.1 fun hpos => ?_)).2.trans ht
      rw [(h.paid hpos).1] at hx'
      cases hx'
    · exact le_rfl
  · rw [secondsRemaining_syncExpiry] at hs'
    rw [hexp, if_neg (not_lt.2 hs'), if_pos (h.spent hs).1]
  · rw [secondsRemaining_syncExpiry] at hs'
    rw [hexp, if_neg (not_lt.2 hs'), (h.paid hs).1, lastTickAt_syncExpiry]
    rfl

/-- What leaves the expiry, the credit and the meter's clock alone follows. -/
theorem Synced.follows_same {l' : Lease} (h : l.Synced) (hg : l'.ledger = l.ledger)
    (hx : l'.exhausted = l.exhausted) (he : l'.expiresAt = l.expiresAt)
    (ht : l'.lastTickAt = l.lastTickAt) : l.Follows l' := by
  have hsec : l'.secondsRemaining = l.secondsRemaining := by simp only [secondsRemaining, hg]
  refine ⟨⟨fun hs => ?_, fun hs => ?_⟩, fun _ _ => he, fun hs hs' => ?_⟩
  · rw [hsec] at hs
    rw [hx, he, ht, hsec]
    exact h.paid hs
  · rw [hsec] at hs
    rw [hx, he, ht]
    exact h.spent hs
  · rw [hsec] at hs'
    exact absurd hs (not_lt.2 hs')

/-- **Every operation follows the credit.** -/
theorem Synced.apply (h : l.Synced) (hg : l.ledger ≠ none) (op : LeaseOp) (hop : op.Metering)
    (ht : ∀ t, op.reading = some t → l.lastTickAt ≤ t) : l.Follows (l.apply op) := by
  obtain ⟨g, hl⟩ := Option.ne_none_iff_exists'.1 hg
  cases op with
  | addCredit amount =>
    simp only [Lease.apply, addCredit, hl]
    exact h.follows_syncExpiry (by simp) rfl rfl le_rfl
  | burn now =>
    have hle := ht now rfl
    simp only [Lease.apply, burn, hl]
    split_ifs with hn
    · -- the clock reads what it read at the last tick
      have hnow : now = l.lastTickAt := le_antisymm (not_lt.1 fun hlt =>
        not_lt.2 hn (Duration.sub_pos.2 hlt)) hle
      exact h.follows_same hl.symm rfl rfl hnow
    · show l.Follows (syncExpiry { l with
        lastTickAt := now, ledger := some (g.spend (g.charge (Duration.sub now l.lastTickAt))) })
      exact h.follows_syncExpiry (by simp) rfl rfl hle
  | pause now =>
    simp only [Lease.apply, pause]
    split_ifs <;> exact h.follows_same rfl rfl rfl rfl
  | resume now =>
    simp only [Lease.apply, resume]
    split_ifs
    · exact h.follows_same rfl rfl rfl rfl
    · exact h.follows_syncExpiry (by simp [hl]) rfl rfl (ht now rfl)
  | _ => exact hop.elim

/-- A credit that is not spent is spent by a burn only. -/
theorem burn_of_stopped {op : LeaseOp} (hop : op.Metering)
    (hpos : 0 < l.secondsRemaining) (hs : (l.apply op).secondsRemaining ≤ 0) :
    op = .burn (l.apply op).lastTickAt := by
  have hsame : (l.apply op).ledger = l.ledger → op = .burn (l.apply op).lastTickAt := fun hg => by
    rw [secondsRemaining, hg] at hs
    exact absurd hpos (not_lt.2 hs)
  cases op with
  | addCredit amount =>
    -- a payment buys time
    cases hg : l.ledger with
    | none => exact hsame (by simp [ledger_apply, hg])
    | some g =>
      have ha : 0 ≤ amount := hop
      simp only [secondsRemaining, ledger_apply, hg, Option.map_some, Option.getD_some,
        Ledger.secondsRemaining, Ledger.pay] at hpos hs
      split_ifs at hpos hs with hp
      · exact absurd hpos (lt_irrefl 0)
      · have := Int.ediv_le_ediv (not_le.1 hp) (show g.credit ≤ g.credit + amount by omega)
        omega
  | burn now =>
    cases hg : l.ledger with
    | none => exact hsame (by simp [ledger_apply, hg])
    | some g => simp [lastTickAt_apply, hg]
  | pause | resume => exact hsame (ledger_apply _ _)
  | _ => exact hop.elim

/-- The session as its opening payment leaves it. -/
structure Opened (l : Lease) (t : ℤ) : Prop where
  sound : l.Sound
  ledger : l.ledger ≠ none
  synced : l.Synced
  tick : l.lastTickAt = t
  pinned : l.secondsRemaining ≤ 0 → l.expiresAt = t

/-- What holds of the session after the operations. -/
structure Tracked (l : Lease) (t : ℤ) (ops : List LeaseOp) : Prop where
  sound : (l.run ops).Sound
  ledger : (l.run ops).ledger ≠ none
  synced : (l.run ops).Synced
  tick : (l.run ops).lastTickAt ∈ readings t ops
  ranOut : (l.run ops).secondsRemaining ≤ 0 → l.RanOut t ops (l.run ops).expiresAt

/-- **The expiry follows the credit**, whatever the order of the operations. -/
theorem Opened.tracked {t : ℤ} (h : l.Opened t) {ops : List LeaseOp}
    (hops : ∀ op ∈ ops, op.Metering) (ht : (readings t ops).Pairwise (· ≤ ·)) :
    l.Tracked t ops := by
  induction ops using List.reverseRecOn with
  | nil =>
    refine ⟨h.sound, h.ledger, h.synced, by simp [readings, h.tick], fun hs => ?_⟩
    refine ⟨[], [], rfl, Or.inl ⟨rfl, h.pinned hs⟩, fun later hl => ?_⟩
    rw [List.prefix_nil.1 hl]
    exact hs
  | append_singleton ops op ih =>
    have hread : readings t (ops ++ [op]) = readings t ops ++ op.reading.toList := by
      cases hr : op.reading <;> simp [readings, hr]
    rw [hread, List.pairwise_append] at ht
    have ih := ih (fun o ho => hops o (List.mem_append_left _ ho)) ht.1
    have hop := hops op (by simp)
    have hlast : ∀ u, op.reading = some u → (l.run ops).lastTickAt ≤ u := fun u hu =>
      ht.2.2 _ ih.tick u (by simp [hu])
    have hf := ih.synced.apply ih.ledger _ hop hlast
    have hrun : l.run (ops ++ [op]) = (l.run ops).apply op := by simp [run_append]
    rw [← hrun] at hf
    refine ⟨?_, ?_, hf.synced, ?_, fun hs => ?_⟩
    · rw [hrun]
      exact ih.sound.apply hop.allowed
    · rw [hrun]
      exact ledger_apply_ne_none ih.ledger op
    · rw [hrun, hread, lastTickAt_apply]
      cases op with
      | addCredit | pause => exact List.mem_append_left _ ih.tick
      | burn now => simp [ih.ledger, LeaseOp.reading]
      | resume now =>
        dsimp only
        split_ifs
        · simp [LeaseOp.reading]
        · exact List.mem_append_left _ ih.tick
      | _ => exact hop.elim
    · rcases lt_or_ge 0 (l.run ops).secondsRemaining with hpos | hspent
      · -- this operation is the burn that spent the credit
        have hburn := burn_of_stopped hop hpos (hrun ▸ hs)
        have he := hf.stopped hpos hs
        rw [hrun] at he
        refine ⟨ops ++ [op], [], by simp, Or.inr ⟨ops, ?_, hpos⟩, fun later hl => ?_⟩
        · rw [hrun, he, ← hburn]
        · rw [List.prefix_nil.1 hl, List.append_nil]
          exact hs
      · obtain ⟨before, since, rfl, hbefore, hsince⟩ := ih.ranOut hspent
        refine ⟨before, since ++ [op], by simp, ?_, fun later hl => ?_⟩
        · rw [hf.pinned hspent hs]
          exact hbefore
        · rcases List.prefix_concat_iff.1 hl with rfl | hl
          · rw [← List.append_assoc]
            exact hs
          · exact hsince later hl

/-- Before it is metered, nothing exhausts a lease. -/
theorem unmetered_run (hg : l.ledger = none) (hx : l.exhausted = false) {ops : List LeaseOp}
    (hops : ∀ op ∈ ops, ∀ now s y p c, op ≠ .markMetered now s y p c) :
    (l.run ops).ledger = none ∧ (l.run ops).exhausted = false := by
  induction ops generalizing l with
  | nil => exact ⟨hg, hx⟩
  | cons op ops ih =>
    have hop := hops op (by simp)
    refine ih (ledger_apply_eq_none hg hop) ?_ fun o ho => hops o (by simp [ho])
    cases op with
    | markMetered => exact absurd rfl (hop _ _ _ _ _)
    | addCredit => simpa [Lease.apply, addCredit, hg] using hx
    | burn => simpa [Lease.apply, burn, hg] using hx
    | resume =>
      simp only [Lease.apply, resume]
      split_ifs
      · exact hx
      · simpa [syncExpiry, hg] using hx
    | markSettled => simp only [Lease.apply, markSettled]; split_ifs <;> exact hx
    | setStatus => simp only [Lease.apply, setStatus]; split_ifs <;> exact hx
    | fail => simp only [Lease.apply, Lease.fail]; split_ifs <;> exact hx
    | pause => simp only [Lease.apply, pause]; split_ifs <;> exact hx
    | stop => simp only [Lease.apply, stop]; split_ifs <;> exact hx
    | setSessionLength | setContainer => exact hx

/-- **The opening payment** sets the expiry. -/
theorem opened_markMetered (hx : l.exhausted = false) (t : ℤ) {sessionID : String}
    (hid : sessionID ≠ "") (payer : String) {price credit : ℤ} (hp : 0 ≤ price) (hc : 0 ≤ credit) :
    (l.markMetered t sessionID payer price credit).Opened t := by
  have hledger := ledger_apply l (.markMetered t sessionID payer price credit)
  have hg : (l.markMetered t sessionID payer price credit).ledger ≠ none := by
    rw [show (l.markMetered t sessionID payer price credit).ledger = _ from hledger]
    simp
  have hsync := expiry_syncExpiry (l := { l with
    sessionID, payer, ledger := some { pricePerSecond := price, credit, burned := 0 }
    lastTickAt := t, settleState := .pending }) (by simp)
  obtain ⟨hex, hexp⟩ := hsync
  refine ⟨⟨fun hn => absurd hn hg, fun g hg' => ?_⟩, hg, ⟨fun hs => ?_, fun hs => ?_⟩, ?_,
    fun hs => ?_⟩
  · rw [show (l.markMetered t sessionID payer price credit).ledger = _ from hledger] at hg'
    cases hg'
    refine ⟨?_, ?_, ⟨hp, hc, le_rfl⟩⟩
    · simp [markMetered]
    · simpa [markMetered] using hid
  all_goals
    simp only [markMetered, secondsRemaining_syncExpiry, lastTickAt_syncExpiry] at *
  · rw [hex, hexp, if_pos hs]
    exact ⟨decide_eq_false (not_le.2 hs), rfl⟩
  · rw [hex, hexp, if_neg (not_lt.2 hs), hx]
    exact ⟨decide_eq_true hs, le_rfl⟩
  · rw [hexp, if_neg (not_lt.2 hs), hx]
    rfl

/-! ### The sweep -/

/-- What `sweepLeases` does once the meter has ticked, with its next two readings of the clock. -/
def sweepSwitch (leases : Leases) (t₂ t₃ : ℤ) (l : Lease) : Lease :=
  match l.status with
  | .active =>
    if l.fullyPaid ∧ l.secondsRemaining = 0 then l.stop .expired
    else if l.overdueBy t₂ < sessionFreezeGrace then l
    else l.pause t₃
  | .paused =>
    if l.pausedFor t₂ < Duration.ofSeconds (leases.graceMinutes * 60) then l
    else l.stop .expired
  | _ => l

/-- What `sweepLeases` does to the lease, up to its settlement. -/
def sweep (leases : Leases) (t₁ t₂ t₃ : ℤ) (l : Lease) : Lease :=
  if l.status.isTerminal then l
  else if l.sessionID ≠ "" ∧ l.status = .active then (l.burn t₁).1.sweepSwitch leases t₂ t₃
  else l.sweepSwitch leases t₂ t₃

variable {leases : Leases} {t₁ t₂ t₃ : ℤ}

theorem sweep_of_active (hid : l.sessionID ≠ "") (ha : l.status = .active) :
    l.sweep leases t₁ t₂ t₃ = (l.apply (.burn t₁)).sweepSwitch leases t₂ t₃ := by
  have hlive : ¬ l.status.isTerminal := by simp [ha, LeaseStatus.isTerminal]
  rw [sweep, if_neg hlive, if_pos ⟨hid, ha⟩]
  rfl

/-- An exhausted session is frozen or ended, half a minute after its expiry. -/
theorem sweepSwitch_of_spent (ha : l.status = .active)
    (ho : l.expiresAt + sessionFreezeGrace ≤ t₂) :
    (l.sweepSwitch leases t₂ t₃).status = .paused ∨
      (l.sweepSwitch leases t₂ t₃).status = .expired := by
  have hover : ¬ l.overdueBy t₂ < sessionFreezeGrace := by
    simp only [overdueBy, Duration.sub, sessionFreezeGrace, Duration.second] at ho ⊢
    omega
  simp only [sweepSwitch, ha, hover, if_false]
  split_ifs
  · exact Or.inr (by simp [stop, ha, LeaseStatus.isTerminal])
  · exact Or.inl (by simp [pause, ha])

/-- A session that still buys time is frozen when the check comes that much later than the tick,
and half a minute. -/
theorem sweepSwitch_of_paid (h : l.Synced) (ha : l.status = .active)
    (hpos : 0 < l.secondsRemaining) (hlt : l.secondsRemaining * Duration.second < 2 ^ 63) :
    (l.sweepSwitch leases t₂ t₃).status = .paused ↔
      l.lastTickAt + l.secondsRemaining * Duration.second + sessionFreezeGrace ≤ t₂ := by
  have hexp := (h.paid hpos).2
  rw [Duration.ofSeconds_eq hpos.le hlt] at hexp
  simp only [sweepSwitch, ha, hpos.ne', and_false, if_false]
  have hover : l.overdueBy t₂ < sessionFreezeGrace ↔
      t₂ < l.lastTickAt + l.secondsRemaining * Duration.second + sessionFreezeGrace := by
    rw [overdueBy, hexp]
    simp only [Duration.sub, sessionFreezeGrace, Duration.second]
    omega
  split_ifs with hs
  · exact iff_of_false (by simp [ha]) (not_le.2 (hover.1 hs))
  · exact iff_of_true (by simp [pause, ha]) (not_lt.1 fun h => hs (hover.2 h))

theorem sessionID_run {ops : List LeaseOp} (hops : ∀ op ∈ ops, op.Metering) :
    (l.run ops).sessionID = l.sessionID := by
  induction ops generalizing l with
  | nil => rfl
  | cons op ops ih =>
    have hop := hops op (by simp)
    rw [run_cons, ih fun o ho => hops o (by simp [ho]), sessionID_apply]
    cases op with
    | markMetered => exact hop.elim
    | _ => rfl

/-- **A sweep freezes a session when its money has run out.** -/
theorem Tracked.sweep {t : ℤ} {ops : List LeaseOp} (h : l.Tracked t ops)
    (hid : (l.run ops).sessionID ≠ "") (hle : ∀ r ∈ readings t ops, r ≤ t₁)
    (ha : (l.run ops).status = .active) :
    ((l.run ops).secondsRemaining ≤ 0 → (l.run ops).expiresAt + sessionFreezeGrace ≤ t₂ →
      ((l.run ops).sweep leases t₁ t₂ t₃).status = .paused ∨
        ((l.run ops).sweep leases t₁ t₂ t₃).status = .expired) ∧
    (0 < ((l.run ops).apply (.burn t₁)).secondsRemaining →
      ((l.run ops).apply (.burn t₁)).secondsRemaining * Duration.second < 2 ^ 63 →
      (((l.run ops).sweep leases t₁ t₂ t₃).status = .paused ↔
        t₁ + ((l.run ops).apply (.burn t₁)).secondsRemaining * Duration.second +
          sessionFreezeGrace ≤ t₂)) := by
  have hf := h.synced.apply h.ledger (.burn t₁) trivial fun u hu => by
    cases hu
    exact hle _ h.tick
  have hactive : ((l.run ops).apply (.burn t₁)).status = .active := by rw [status_apply, ha]
  rw [sweep_of_active hid ha]
  refine ⟨fun hs ho => ?_, fun hpos hlt => ?_⟩
  · have hs' := (secondsRemaining_burn_le h.sound t₁).trans hs
    rw [← hf.pinned hs hs'] at ho
    exact sweepSwitch_of_spent hactive ho
  · have htick : ((l.run ops).apply (.burn t₁)).lastTickAt = t₁ := by
      rw [lastTickAt_apply]
      exact if_neg h.ledger
    rw [sweepSwitch_of_paid hf.synced hactive hpos hlt, htick]

end Lease

/-! ### The sweep of the node -/

/-- At this point of a sweep at time `t`, the sweep leaves the lease with status `L`. -/
def Pc.Sweeps (cfg : NodeConfig) (id : LeaseId) (t : ℤ) (L : LeaseStatus) (s : Node) : Pc → Prop
  | .sweep => s.activeLease = some id ∧ ((s.lease id).sweep cfg.leases t t t).status = L
  | .sweepStatus j => j = id ∧ ((s.lease id).sweep cfg.leases t t t).status = L
  | .sweepMeter j => j = id ∧ ¬ (s.lease id).status.isTerminal ∧
    ((s.lease id).sweep cfg.leases t t t).status = L
  | .readClock j m => j = id ∧ m = .tick ∧
    (((s.lease id).apply (.burn t)).sweepSwitch cfg.leases t t).status = L
  | .burn j now m => j = id ∧ m = .tick ∧ now = t ∧
    (((s.lease id).apply (.burn t)).sweepSwitch cfg.leases t t).status = L
  | .tickElapsed j _ | .tickPublish j _ _ | .sweepSwitch j =>
    j = id ∧ ((s.lease id).sweepSwitch cfg.leases t t).status = L
  | .sweepFullyPaid j => j = id ∧ (s.lease id).status = .active ∧
    ((s.lease id).sweepSwitch cfg.leases t t).status = L
  | .sweepRemaining j => j = id ∧ (s.lease id).status = .active ∧ (s.lease id).fullyPaid ∧
    ((s.lease id).sweepSwitch cfg.leases t t).status = L
  | .sweepOverdue j => j = id ∧ (s.lease id).status = .active ∧
    ¬ ((s.lease id).fullyPaid ∧ (s.lease id).secondsRemaining = 0) ∧
    ((s.lease id).sweepSwitch cfg.leases t t).status = L
  | .sweepPaused j => j = id ∧ (s.lease id).status = .paused ∧
    ((s.lease id).sweepSwitch cfg.leases t t).status = L
  | .pause j => j = id ∧ ((s.lease id).pause t).status = L
  | .stopLease j status k => j = id ∧ k = .settle .sweep ∧ ((s.lease id).stop status).status = L
  | .reap j k | .release j k | .clear j k => j = id ∧ k = .settle .sweep ∧ (s.lease id).status = L
  | .settleSession j e | .readCredit j e | .refund j _ _ e | .markSettled j _ _ e
  | .recordSettlement j _ _ e => j = id ∧ e = .sweep ∧ (s.lease id).status = L
  | .pauseContainer _ | .done _ => (s.lease id).status = L
  | _ => False

section Sweeps

variable {cfg : NodeConfig} {s s' : Node} {p p' : Pc} {out : Outcome} {op : Op} {id : LeaseId}
  {t : ℤ} {L : LeaseStatus}

/-- Only an operation on a lease, or its claim, changes one. -/
theorem Node.leases_apply_eq (s : Node) {op : Op} (hl : ∀ j lop, op ≠ .lease j lop)
    (hc : ∀ j l, op ≠ .claim j l) : (s.apply op).leases = s.leases := by
  funext id
  rw [Node.leases_apply]
  cases op with
  | lease j lop => exact absurd rfl (hl j lop)
  | claim j l => exact absurd rfl (hc j l)
  | _ => rfl

/-- What the sweep is to do does not change with what leaves the leases alone. -/
theorem Pc.Sweeps.congr (h : p.Sweeps cfg id t L s) (hp : p ≠ .sweep)
    (hs : s'.leases = s.leases) : p.Sweeps cfg id t L s' := by
  have hl : s'.lease id = s.lease id := by simp only [Node.lease, hs]
  cases p with
  | sweep => exact absurd rfl hp
  | sweepStatus | sweepMeter | readClock | burn | tickElapsed | tickPublish | sweepSwitch
  | sweepFullyPaid | sweepRemaining | sweepOverdue | sweepPaused | pause | stopLease | reap
  | release | clear | settleSession | readCredit | refund | markSettled | recordSettlement
  | pauseContainer | done =>
    simp only [Pc.Sweeps, hl] at h ⊢
    exact h
  | _ => exact h.elim

theorem publishAudit_ne_claim (m : AuditMessage) (j : LeaseId) (l : Lease) :
    publishAudit cfg m ≠ .claim j l :=
  publishAudit_elim (P := fun op => op ≠ .claim j l) (by simp) (by simp)

/-- A step that leaves the leases alone. -/
theorem sweeps_keep (hp : s.Present id) (hl : ∀ j lop, op ≠ .lease j lop)
    (hc : ∀ j l, op ≠ .claim j l) (hne : p' ≠ .sweep) (h : p'.Sweeps cfg id s.clock L s) :
    (s.apply op).Present id ∧ p'.Sweeps cfg id s.clock L (s.apply op) := by
  have hs := s.leases_apply_eq hl hc
  exact ⟨by simpa only [Node.Present, Node.Has, hs] using hp, h.congr hne hs⟩

/-- A step that operates on the lease. -/
theorem sweeps_lease_op (hp : s.Present id) (lop : LeaseOp) :
    (s.apply (.lease id lop)).Present id ∧
      (s.apply (.lease id lop)).lease id = (s.lease id).apply lop :=
  ⟨hp.apply _ fun _ _ => trivial, Node.lease_apply_lease hp lop⟩

/-- The sweep leaves alone what has ended, and meters the rest. -/
theorem sweeps_act_status {j : LeaseId} (hp : s.Present id)
    (h : (Pc.sweepStatus j).Sweeps cfg id s.clock L s)
    (ha : s.act cfg (.sweepStatus j) out = some (op, p')) :
    (s.apply op).Present id ∧ p'.Sweeps cfg id s.clock L (s.apply op) := by
  obtain ⟨rfl, hL⟩ := h
  simp only [Node.act] at ha
  split_ifs at ha with ho <;> cases ha
  · rw [Lease.sweep, if_pos ho] at hL
    exact sweeps_keep hp (by simp) (by simp) (by simp) ⟨rfl, rfl, hL⟩
  · exact sweeps_keep hp (by simp) (by simp) (by simp) ⟨rfl, ho, hL⟩

/-- A session is metered before anything else. -/
theorem sweeps_act_meter {j : LeaseId} (hp : s.Present id)
    (h : (Pc.sweepMeter j).Sweeps cfg id s.clock L s)
    (ha : s.act cfg (.sweepMeter j) out = some (op, p')) :
    (s.apply op).Present id ∧ p'.Sweeps cfg id s.clock L (s.apply op) := by
  obtain ⟨rfl, ho, hL⟩ := h
  rw [Lease.sweep, if_neg ho] at hL
  simp only [Node.act] at ha
  split_ifs at ha hL with hm <;> cases ha
  · exact sweeps_keep hp (by simp) (by simp) (by simp) ⟨rfl, rfl, hL⟩
  · exact sweeps_keep hp (by simp) (by simp) (by simp) ⟨rfl, hL⟩

/-- What is done next depends on the status. -/
theorem sweeps_act_switch {j : LeaseId} (hp : s.Present id)
    (h : (Pc.sweepSwitch j).Sweeps cfg id s.clock L s)
    (ha : s.act cfg (.sweepSwitch j) out = some (op, p')) :
    (s.apply op).Present id ∧ p'.Sweeps cfg id s.clock L (s.apply op) := by
  obtain ⟨rfl, hL⟩ := h
  simp only [Node.act] at ha
  split at ha <;> cases ha
  · rename_i hst
    exact sweeps_keep hp (by simp) (by simp) (by simp) ⟨rfl, hst, hL⟩
  · rename_i hst
    exact sweeps_keep hp (by simp) (by simp) (by simp) ⟨rfl, hst, hL⟩
  · rename_i hna hnp
    have hL' : (s.lease j).status = L := by simpa only [Lease.sweepSwitch, hna, hnp] using hL
    exact sweeps_keep hp (by simp) (by simp) (by simp) hL'

/-- An active session that has spent all it can be paid for is ended. -/
theorem sweeps_act_remaining {j : LeaseId} (hp : s.Present id)
    (h : (Pc.sweepRemaining j).Sweeps cfg id s.clock L s)
    (ha : s.act cfg (.sweepRemaining j) out = some (op, p')) :
    (s.apply op).Present id ∧ p'.Sweeps cfg id s.clock L (s.apply op) := by
  obtain ⟨rfl, hst, hf, hL⟩ := h
  simp only [Node.act] at ha
  split_ifs at ha with hs <;> cases ha
  · simp only [Lease.sweepSwitch, hst, if_pos (And.intro hf hs)] at hL
    exact sweeps_keep hp (by simp) (by simp) (by simp) ⟨rfl, rfl, hL⟩
  · exact sweeps_keep hp (by simp) (by simp) (by simp) ⟨rfl, hst, fun h => hs h.2, hL⟩

/-- An active session that is overdue is frozen. -/
theorem sweeps_act_overdue {j : LeaseId} (hp : s.Present id)
    (h : (Pc.sweepOverdue j).Sweeps cfg id s.clock L s)
    (ha : s.act cfg (.sweepOverdue j) out = some (op, p')) :
    (s.apply op).Present id ∧ p'.Sweeps cfg id s.clock L (s.apply op) := by
  obtain ⟨rfl, hst, hn, hL⟩ := h
  simp only [Lease.sweepSwitch, hst, if_neg hn] at hL
  simp only [Node.act] at ha
  split_ifs at ha hL with ho <;> cases ha
  · exact sweeps_keep hp (by simp) (by simp) (by simp) hL
  · exact sweeps_keep hp (by simp) (by simp) (by simp) ⟨rfl, hL⟩

/-- A frozen session that has been so for too long is ended. -/
theorem sweeps_act_paused {j : LeaseId} (hp : s.Present id)
    (h : (Pc.sweepPaused j).Sweeps cfg id s.clock L s)
    (ha : s.act cfg (.sweepPaused j) out = some (op, p')) :
    (s.apply op).Present id ∧ p'.Sweeps cfg id s.clock L (s.apply op) := by
  obtain ⟨rfl, hst, hL⟩ := h
  simp only [Lease.sweepSwitch, hst] at hL
  simp only [Node.act] at ha
  split_ifs at ha hL with ho <;> cases ha
  · exact sweeps_keep hp (by simp) (by simp) (by simp) hL
  · exact sweeps_keep hp (by simp) (by simp) (by simp) ⟨rfl, rfl, hL⟩

/-- `sweepLeases`. -/
theorem sweeps_act_sweep (hp : s.Present id) (hpart : p.part = .sweep)
    (h : p.Sweeps cfg id s.clock L s) (ha : s.act cfg p out = some (op, p')) :
    (s.apply op).Present id ∧ p'.Sweeps cfg id s.clock L (s.apply op) := by
  cases p with
  | sweep =>
    obtain ⟨hslot, hL⟩ := h
    simp only [Node.act, hslot] at ha
    cases ha
    exact sweeps_keep hp (by simp) (by simp) (by simp) ⟨rfl, hL⟩
  | sweepStatus j => exact sweeps_act_status hp h ha
  | sweepMeter j => exact sweeps_act_meter hp h ha
  | tickElapsed j remaining =>
    obtain ⟨rfl, hL⟩ := h
    cases ha
    exact sweeps_keep hp (by simp) (by simp) (by simp) ⟨rfl, hL⟩
  | tickPublish j remaining elapsed =>
    obtain ⟨rfl, hL⟩ := h
    cases ha
    exact sweeps_keep hp (by simp) (publishAudit_ne_claim _) (by simp) ⟨rfl, hL⟩
  | sweepSwitch j => exact sweeps_act_switch hp h ha
  | sweepFullyPaid j =>
    obtain ⟨rfl, hst, hL⟩ := h
    simp only [Node.act] at ha
    split_ifs at ha with hf <;> cases ha
    · exact sweeps_keep hp (by simp) (by simp) (by simp) ⟨rfl, hst, hf, hL⟩
    · exact sweeps_keep hp (by simp) (by simp) (by simp) ⟨rfl, hst, fun h => hf h.1, hL⟩
  | sweepRemaining j => exact sweeps_act_remaining hp h ha
  | sweepOverdue j => exact sweeps_act_overdue hp h ha
  | pause j =>
    obtain ⟨rfl, hL⟩ := h
    obtain ⟨hp', hl⟩ := sweeps_lease_op hp (.pause s.clock)
    simp only [Node.act] at ha
    split_ifs at ha <;> cases ha
    · exact ⟨hp', by rw [Pc.Sweeps, hl]; exact hL⟩
    · exact ⟨hp', by rw [Pc.Sweeps, hl]; exact hL⟩
  | pauseContainer j =>
    cases out <;> cases ha <;> exact sweeps_keep hp (by simp) (by simp) (by simp) h
  | sweepPaused j => exact sweeps_act_paused hp h ha
  | _ => cases hpart

/-- `StopLease`, and `settleSession`. -/
theorem sweeps_act_settleSession (hp : s.Present id) (hpart : p.part = .settleSession)
    (h : p.Sweeps cfg id s.clock L s) (ha : s.act cfg p out = some (op, p')) :
    (s.apply op).Present id ∧ p'.Sweeps cfg id s.clock L (s.apply op) := by
  cases p with
  | stopLease j status k =>
    obtain ⟨rfl, rfl, hL⟩ := h
    simp only [Node.act] at ha
    split_ifs at ha with ho <;> cases ha
    · rw [Lease.stop, if_pos ho] at hL
      exact sweeps_keep hp (by simp) (by simp) (by simp [After.return]) ⟨rfl, rfl, hL⟩
    · obtain ⟨hp', hl⟩ := sweeps_lease_op hp (.stop status)
      exact ⟨hp', rfl, rfl, by rw [hl]; exact hL⟩
  | reap j k =>
    obtain ⟨rfl, rfl, hL⟩ := h
    cases ha
    exact sweeps_keep hp (by simp) (by simp) (by simp) ⟨rfl, rfl, hL⟩
  | release j k =>
    obtain ⟨rfl, rfl, hL⟩ := h
    cases ha
    exact sweeps_keep hp (by simp) (by simp) (by simp [After.return]) ⟨rfl, rfl, hL⟩
  | clear j k =>
    obtain ⟨rfl, rfl, hL⟩ := h
    cases ha
    exact sweeps_keep hp (by simp) (by simp) (by simp [After.cleared]) ⟨rfl, rfl, hL⟩
  | settleSession j e =>
    obtain ⟨rfl, rfl, hL⟩ := h
    simp only [Node.act] at ha
    split_ifs at ha <;> cases ha
    · exact sweeps_keep hp (by simp) (by simp) (by simp [Ender.return]) hL
    · exact sweeps_keep hp (by simp) (by simp) (by simp) ⟨rfl, rfl, hL⟩
  | readCredit j e =>
    obtain ⟨rfl, rfl, hL⟩ := h
    simp only [Node.act] at ha
    split_ifs at ha <;> cases ha <;>
      exact sweeps_keep hp (by simp) (by simp) (by simp) ⟨rfl, rfl, hL⟩
  | refund j payer owed e =>
    obtain ⟨rfl, rfl, hL⟩ := h
    cases out <;> cases ha
    · exact sweeps_keep hp (by simp) (by simp) (by simp) ⟨rfl, rfl, hL⟩
    · exact sweeps_keep hp (by simp) (by simp) (by simp [Ender.return]) hL
    · exact sweeps_keep hp (by simp) (by simp) (by simp [Ender.return]) hL
  | markSettled j owed transaction e =>
    obtain ⟨rfl, rfl, hL⟩ := h
    cases ha
    obtain ⟨hp', hl⟩ := sweeps_lease_op hp (.markSettled owed)
    exact ⟨hp', rfl, rfl, by rw [hl, Lease.status_apply]; exact hL⟩
  | recordSettlement j owed transaction e =>
    obtain ⟨rfl, rfl, hL⟩ := h
    cases ha
    exact sweeps_keep hp (by simp) (publishAudit_ne_claim _) (by simp [Ender.return]) hL
  | respondState j => exact h.elim
  | done r => cases ha
  | _ => cases hpart

/-- **A step of a sweep** does what `Lease.sweep` does next. -/
theorem sweeps_act (hp : s.Present id) (h : p.Sweeps cfg id s.clock L s)
    (ha : s.act cfg p out = some (op, p')) :
    (s.apply op).Present id ∧ p'.Sweeps cfg id s.clock L (s.apply op) := by
  cases hpart : p.part with
  | sweep => exact sweeps_act_sweep hp hpart h ha
  | settleSession => exact sweeps_act_settleSession hp hpart h ha
  | endLease =>
    cases p with
    | readClock j m =>
      obtain ⟨rfl, rfl, hL⟩ := h
      cases ha
      exact sweeps_keep hp (by simp) (by simp) (by simp) ⟨rfl, rfl, rfl, hL⟩
    | burn j now m =>
      obtain ⟨rfl, rfl, rfl, hL⟩ := h
      cases ha
      obtain ⟨hp', hl⟩ := sweeps_lease_op hp (.burn s.clock)
      exact ⟨hp', rfl, by rw [hl, hL]⟩
    | stopStatus | endLease | endStatus | endMeter => exact h.elim
    | _ => cases hpart
  | create | startLease | publishLease | record | topUp =>
    cases p <;> first | exact h.elim | cases hpart

/-- **A sweep that runs by itself** leaves the lease in the slot with the status that `Lease.sweep`
gives it. -/
theorem alone_sweep {outs : List Outcome} {r : Response} (hslot : s.activeLease = some id)
    (hp : s.Present id) (h : (node cfg).alone s .sweep outs = some (s', .done r)) :
    (s'.lease id).status = ((s.lease id).sweep cfg.leases s.clock s.clock s.clock).status := by
  have h0 : Pc.Sweeps cfg id s.clock
      ((s.lease id).sweep cfg.leases s.clock s.clock s.clock).status s .sweep := ⟨hslot, rfl⟩
  have hI := Machine.alone_invariant (M := node cfg)
    (I := fun s' p => s'.clock = s.clock ∧ s'.Present id ∧ p.Sweeps cfg id s.clock
      ((s.lease id).sweep cfg.leases s.clock s.clock s.clock).status s')
    (fun s₁ p out op p' ⟨hc, hp, hI⟩ ha => ?_) ⟨rfl, hp, h0⟩ h
  · exact hI.2.2
  · rw [← hc] at hI
    obtain ⟨hp', hI'⟩ := sweeps_act hp hI ha
    exact ⟨(Node.clock_apply s₁ op).trans hc, hp', hc ▸ hI'⟩

end Sweeps

/-- **Expiry tracks credit.**  After its opening payment, and any payments, burns, freezes and thaws
in the order of the clock, a session whose credit buys `n` seconds expires `n` seconds after its
last tick; one whose credit buys none is exhausted, and expired when its credit stopped buying one,
which no later tick moves.  A sweep freezes or ends an exhausted session half a minute after that;
it freezes one that still buys time only if it compares the clock that much after its tick. -/
theorem expiry_tracks_credit (token : String) (e minutes : ℤ) {pre : List LeaseOp}
    (hpre : ∀ op ∈ pre, ∀ now s y p c, op ≠ .markMetered now s y p c) (t : ℤ)
    {sessionID : String} (hid : sessionID ≠ "") (payer : String) {price credit : ℤ}
    (hp : 0 < price) (hc : 0 ≤ credit) {ops : List LeaseOp} (hops : ∀ op ∈ ops, op.Metering)
    (ht : (readings t ops).Pairwise (· ≤ ·)) :
    let l₀ := ((Lease.provisioning token e minutes).run pre).markMetered t sessionID payer price
      credit
    let l := l₀.run ops
    (0 < l.secondsRemaining → l.exhausted = false ∧
      (l.secondsRemaining * Duration.second < 2 ^ 63 →
        l.expiresAt = l.lastTickAt + l.secondsRemaining * Duration.second)) ∧
    (l.secondsRemaining ≤ 0 → l.exhausted = true ∧ l₀.RanOut t ops l.expiresAt ∧
      l.expiresAt ≤ l.lastTickAt ∧
      ∀ now, l.lastTickAt ≤ now → (l.apply (.burn now)).expiresAt = l.expiresAt) ∧
    ∀ leases t₁ t₂ t₃, (∀ r ∈ readings t ops, r ≤ t₁) → l.status = .active →
      (l.secondsRemaining ≤ 0 → l.expiresAt + sessionFreezeGrace ≤ t₂ →
        (l.sweep leases t₁ t₂ t₃).status = .paused ∨
          (l.sweep leases t₁ t₂ t₃).status = .expired) ∧
      (0 < (l.apply (.burn t₁)).secondsRemaining →
        (l.apply (.burn t₁)).secondsRemaining * Duration.second < 2 ^ 63 →
        ((l.sweep leases t₁ t₂ t₃).status = .paused ↔
          t₁ + (l.apply (.burn t₁)).secondsRemaining * Duration.second + sessionFreezeGrace ≤
            t₂)) := by
  intro l₀ l
  obtain ⟨-, hx⟩ := Lease.unmetered_run (l := .provisioning token e minutes) rfl rfl hpre
  have hopened := Lease.opened_markMetered hx t hid payer hp.le hc
  have h : l₀.Tracked t ops := hopened.tracked hops ht
  have hsid : l.sessionID ≠ "" := by
    rw [show l.sessionID = _ from Lease.sessionID_run hops]
    simpa [l₀, Lease.markMetered] using hid
  refine ⟨fun hpos => ?_, fun hs => ?_, fun leases t₁ t₂ t₃ hle ha => h.sweep hsid hle ha⟩
  · obtain ⟨hex, hexp⟩ := h.synced.paid hpos
    exact ⟨hex, fun hlt => by rw [hexp, Duration.ofSeconds_eq hpos.le hlt]⟩
  · obtain ⟨hex, hle⟩ := h.synced.spent hs
    refine ⟨hex, h.ranOut hs, hle, fun now hnow => ?_⟩
    have hf := h.synced.apply h.ledger (.burn now) trivial fun u hu => by
      cases hu
      exact hnow
    exact hf.pinned hs ((Lease.secondsRemaining_burn_le h.sound now).trans hs)

/-- An active lease is metered, at this price and with this credit. -/
def metered (price credit : ℤ) : Lease :=
  ((Lease.provisioning "t" 0 1).run [.setStatus .active]).markMetered 0 "0xab" "0.0.1" price credit

/-- A minute is paid and used up; half a minute later, the sweep ends or freezes the session. -/
theorem expiry_tracks_credit_minute :
    let ops := [.burn 20000000000, .burn 60000000000, .burn 75000000000]
    let l := (metered 1 60).run ops
    (metered 1 60).RanOut 0 ops 60000000000 ∧
      ((l.sweep NodeConfig.small.leases 90000000000 90000000000 90000000000).status = .paused ∨
        (l.sweep NodeConfig.small.leases 90000000000 90000000000 90000000000).status =
          .expired) := by
  intro ops l
  obtain ⟨hs, ha, he⟩ : l.secondsRemaining ≤ 0 ∧ l.status = .active ∧
    l.expiresAt = 60000000000 := by decide +kernel
  obtain ⟨-, hspent, hsweep⟩ := @expiry_tracks_credit "t" 0 1 [.setStatus .active] (by simp) 0
    "0xab" (by decide) "0.0.1" 1 60 (by decide) (by decide) ops (by simp [ops, LeaseOp.Metering])
    (by decide)
  have hover : l.expiresAt + sessionFreezeGrace ≤ 90000000000 := by rw [he]; decide
  exact ⟨he ▸ (hspent hs).2.1, (hsweep _ _ _ _ (by decide) ha).1 hs hover⟩

/-- **Expiry does not track every credit.**  An expiry three hundred years ahead overflows; a
payment that does not buy a second leaves the expiry where it was pinned before it; and a sweep that
is slow to compare the clock freezes a session that its tick left nine seconds. -/
theorem not_expiry_tracks_credit :
    (¬ ∀ price credit : ℤ, 0 < price → 0 < (metered price credit).secondsRemaining →
      (metered price credit).expiresAt = (metered price credit).lastTickAt +
        (metered price credit).secondsRemaining * Duration.second) ∧
    (¬ ∀ (price credit amount : ℤ) (before since : List LeaseOp), 0 < price →
      (∀ op ∈ before ++ .addCredit amount :: since, op.Metering) →
      (readings 0 (before ++ .addCredit amount :: since)).Pairwise (· ≤ ·) →
      ((metered price credit).run (before ++ .addCredit amount :: since)).secondsRemaining ≤ 0 →
      .burn ((metered price credit).run (before ++ .addCredit amount :: since)).expiresAt ∈ since) ∧
    ¬ ∀ (price credit t₁ t₂ t₃ : ℤ) (leases : Leases), 0 < price → t₁ ≤ t₂ → t₂ ≤ t₃ →
      0 < ((metered price credit).apply (.burn t₁)).secondsRemaining →
      ((metered price credit).sweep leases t₁ t₂ t₃).status ≠ .paused := by
  refine ⟨fun h => ?_, fun h => ?_, fun h => ?_⟩
  · have := h 1 9223372037 (by decide) (by decide)
    revert this
    decide
  · have := h 100 1000 50 [.burn 60000000000] [.burn 75000000000] (by decide)
      (by simp [LeaseOp.Metering]) (by decide) (by decide +kernel)
    revert this
    decide +kernel
  · have := h 1 10 1000000000 40000000000 40000000000 NodeConfig.small.leases (by decide)
      (by decide) (by decide) (by decide +kernel)
    revert this
    decide +kernel

end Mach402
