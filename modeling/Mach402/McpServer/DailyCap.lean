import Mach402.McpServer.Payments

/-!
# The daily cap

The cap is checked when a payment is proposed, against the ledger, and the payment is made later;
`confirm_payment` does not check it again.

* `World.shown`, `account`: what the ledger shows and what is charged but not recorded yet is what
  nodes have charged;
* `Honest`: nodes charge what they quote, and what they say;
* `Fresh`, `charged_le_cap`: the cap holds as long as no check is stale, that is, it finds every
  charge in the ledger and no other payment is charged before its own.
-/

namespace Mach402
namespace McpServer

variable {config : McpConfig} {now : ℕ} {ledger : List SpendRecord} {w : World} {p p' : Pc}
  {o : Outcome} {op : Op} {c : Config} {day : ℕ}

/-! ### The condition -/

/-- **Honest nodes**, and a ledger that can be written: a node charges what it has quoted, settles
what it answers for, and says what it has charged. -/
def Honest (config : McpConfig) : Pc → Outcome → Bool
  | .requote _ gate, .quoted amount => amount = gate.quoted
  | .challenge _ gate _, .challenged option =>
    !acceptable config option || decide (option.amount = some gate.quoted)
  | .challenge _ _ _, .answered _ _ => false
  | .sent _ _ _ _, .answered _ _ => false
  | .charged _ _ _ a, .answered amount written => decide (amount = some a) && written
  | _, _ => true

/-- **No check is stale.**  Every charge is in the ledger when the cap is checked, since no call is
about to record one, and no call has failed to; and when a payment is charged, no other one has been
since the cap was checked for it. -/
def Fresh (c : Config) : Pc → Outcome → Bool
  | .quote _, .quoted _ => c.threads.all fun p => !p.unrecorded
  | .sent _ gate _ _, .settles => gate.chargedAtCheck = c.shared.charged.length
  | .charged _ _ _ _, .failed => false
  | _, _ => true

/-- The day does not end. -/
def OneDay (c : Config) : Label → Prop
  | .env ms => utcDay (c.shared.now + ms) = utcDay c.shared.now
  | _ => True

instance (c : Config) : (l : Label) → Decidable (OneDay c l)
  | .env _ => inferInstanceAs (Decidable (_ = _))
  | .start _ | .run _ _ => inferInstanceAs (Decidable True)

/-- One day of honest nodes. -/
def HonestDay (config : McpConfig) (c : Config) (l : Label) : Prop :=
  OneDay c l ∧ Machine.Guard (fun _ _ p o => Honest config p o) c l

/-- One day of honest nodes and of checks that are not stale. -/
def Checked (config : McpConfig) (c : Config) (l : Label) : Prop :=
  HonestDay config c l ∧ Machine.Guard (fun c _ p o => Fresh c p o) c l

instance (c : Config) (l : Label) : Decidable (HonestDay config c l) :=
  inferInstanceAs (Decidable (_ ∧ _))

instance (c : Config) (l : Label) : Decidable (Checked config c l) :=
  inferInstanceAs (Decidable (_ ∧ _))

theorem Checked.run {i : ℕ} (h : Checked config c (.run i o)) (hp : c.threads[i]? = some p) :
    Honest config p o = true ∧ Fresh c p o = true :=
  ⟨h.1.2.run hp, h.2.run hp⟩

/-! ### The ledger -/

/-- What the ledger shows for a day, as far as it can be read. -/
def World.shown (w : World) (day : ℕ) : ℤ :=
  ((w.ledger.filter fun r => utcDay r.paidAt = day).map fun r => r.amountTinybars.getD 0).sum

theorem foldl_none (rs : List SpendRecord) :
    rs.foldl (fun sum r => sum.bind fun n => r.amountTinybars.map fun a => n + a)
      (none : Option ℤ) = none := by
  induction rs with
  | nil => rfl
  | cons r rs ih => exact ih

theorem foldl_some {rs : List SpendRecord} {n m : ℤ}
    (h : rs.foldl (fun sum r => sum.bind fun n => r.amountTinybars.map fun a => n + a)
      (some n) = some m) :
    m = n + (rs.map fun r => r.amountTinybars.getD 0).sum := by
  induction rs generalizing n with
  | nil => simpa using h.symm
  | cons r rs ih =>
    rw [List.foldl_cons, Option.bind_some] at h
    cases hr : r.amountTinybars with
    | none =>
      rw [hr, Option.map_none, foldl_none] at h
      cases h
    | some a =>
      rw [hr, Option.map_some] at h
      rw [ih h, List.map_cons, List.sum_cons, hr, Option.getD_some]
      ring

theorem shown_of_spentOn {n : ℤ} (h : w.spentOn day = some n) : w.shown day = n := by
  have := foldl_some h
  rw [World.shown]
  omega

theorem recordSpend_shown (w : World) (a : ℤ) :
    (w.recordSpend (some a) true).shown (utcDay w.now) = w.shown (utcDay w.now) + a := by
  simp [World.shown, World.recordSpend]

/-- A check that passes. -/
theorem checkDailyCap_le {cap amount : ℤ} (hcap : config.maxTinybarsPerDay = some cap)
    (h : w.checkDailyCap config amount) : w.shown (utcDay w.now) + amount ≤ cap := by
  simp only [World.checkDailyCap, hcap] at h
  split at h
  · cases h
  · next n hn =>
    rw [shown_of_spentOn hn]
    exact of_decide_eq_true h

/-! ### What is charged -/

/-- The amounts of a call are those of its quote. -/
def Pc.Priced : Pc → Prop
  | .challenge _ gate requoted => ∀ q, requoted = some q → q = gate.quoted
  | .sent _ gate requoted a => a = gate.quoted ∧ ∀ q, requoted = some q → q = gate.quoted
  | .charged _ gate requoted a => a = gate.quoted ∧ ∀ q, requoted = some q → q = gate.quoted
  | .quote _ | .confirm _ | .requote _ _ | .done => True

theorem perform_priced (action : PendingAction) (gate : Gate) : (perform action gate).Priced := by
  cases action with
  | openSession => exact fun q hq => by cases hq
  | topUpSession => trivial

theorem Pc.Priced.acts (h : p.Priced) (hh : Honest config p o = true)
    (ha : Acts config w p o op p') : p'.Priced := by
  cases ha with
  | held | swept | answered | stopped => trivial
  | direct | taken => exact perform_priced _ _
  | requoted =>
    rintro q ⟨⟩
    exact of_decide_eq_true hh
  | @paid action gate requoted option amount hamount hacc =>
    refine ⟨?_, h⟩
    simpa [Honest, hacc, hamount] using hh
  | settled => exact h

/-- **Honest prices** in every state reached. -/
def pricedOutline (config : McpConfig) (now : ℕ) (ledger : List SpendRecord) :
    Machine.Outline (mcpServer config) (World.initial now ledger) (Checked config) where
  I _ := True
  A _ p := p.Priced
  X _ _ := True
  init := trivial
  symm _ _ _ := trivial
  start _ r := by cases r <;> trivial
  apart _ _ := trivial
  envI _ _ _ := trivial
  envA _ _ _ h := h
  act _ _ _ _ _ _ _ hp hC _ hA ha := ⟨trivial, hA.acts (hC.run hp).1 (acts_of_act ha)⟩
  free _ _ _ _ _ _ _ _ _ _ _ _ _ _ _ hq _ _ := ⟨hq, trivial⟩

/-- The day stays the same. -/
theorem utcDay_eq (h : (serverSystem config now ledger).Reach (Checked config) c) :
    utcDay c.shared.now = utcDay now := by
  refine h.invariant (I := fun c => utcDay c.shared.now = utcDay now) rfl
    fun c l c' _ hc hC hs => ?_
  cases l with
  | env ms => cases hs; exact hC.1.1.trans hc
  | start => cases hs; exact hc
  | run i o =>
    obtain ⟨p, op, p', -, -, rfl⟩ := Machine.step_run hs
    have hnow : (c.shared.apply op).now = c.shared.now := by
      cases op with
      | record a written => cases written <;> rfl
      | skip | hold | sweep | take | send | charge => rfl
    exact (congrArg utcDay hnow).trans hc

/-- What a call has been charged and has not recorded. -/
def Pc.pending : Pc → ℤ
  | .charged _ _ _ a => a
  | _ => 0

theorem perform_pending (action : PendingAction) (gate : Gate) :
    (perform action gate).pending = 0 := by
  cases action <;> rfl

/-- A charge goes to the call, and from there to the ledger. -/
theorem acts_account (ha : Acts config w p o op p') (hpriced : p.Priced)
    (hh : Honest config p o = true) (hf : Fresh c p o = true) :
    (w.apply op).charged.sum - (w.apply op).shown (utcDay w.now) - p'.pending =
      w.charged.sum - w.shown (utcDay w.now) - p.pending := by
  cases ha with
  | held | swept | requoted | paid => rfl
  | direct => rw [perform_pending]; rfl
  | taken => rw [perform_pending]; rfl
  | @settled action gate requoted amount =>
    show (w.charged ++ [amount]).sum - w.shown (utcDay w.now) - amount = _ - _ - 0
    rw [List.sum_append, List.sum_singleton]
    ring
  | @answered p requoted amount written hp =>
    rcases hp with ⟨action, gate, rfl⟩ | ⟨action, gate, a, rfl⟩ | ⟨action, gate, a, rfl⟩
    · cases hh
    · cases hh
    · simp only [Honest, Bool.and_eq_true, decide_eq_true_eq] at hh
      obtain ⟨rfl, rfl⟩ := hh
      have hrec : recorded requoted (some a) = some a := by
        cases hr : requoted with
        | none => rfl
        | some q => rw [recorded, hpriced.2 q hr, hpriced.1]
      rw [hrec]
      show w.charged.sum - (w.recordSpend (some a) true).shown (utcDay w.now) - 0 = _ - _ - a
      rw [recordSpend_shown]
      ring
  | @stopped p o hstop =>
    have hzero : p.pending = 0 := by
      cases p with
      | charged action gate requoted a =>
        rcases hstop with rfl | hstop
        · cases hf
        · cases hstop
      | quote | confirm | requote | challenge | sent | done => rfl
    rw [hzero]
    rfl

/-- **The account**: charges less what the ledger shows are what calls have still to record. -/
theorem account (h : (serverSystem config now ledger).Reach (Checked config) c) :
    c.shared.charged.sum - c.shared.shown (utcDay now) +
      Machine.weigh (fun p => -p.pending) c.threads =
      -(World.initial now ledger).shown (utcDay now) := by
  have heq := Machine.account_eq (M := mcpServer config) (C := Checked config)
    (m := fun w => w.charged.sum - w.shown (utcDay now))
    (f := fun p => -p.pending) (fun r => by cases r <;> rfl) (fun _ _ => rfl)
    (fun c i o p op p' hr hp hC ha => by
      obtain ⟨hh, hf⟩ := hC.run hp
      have hpriced := ((pricedOutline config now ledger).holds hr).annot i p hp
      have hacts := acts_account (acts_of_act ha) hpriced hh hf
      rw [utcDay_eq hr] at hacts
      show (c.shared.apply op).charged.sum - (c.shared.apply op).shown (utcDay now) + -p'.pending =
        c.shared.charged.sum - c.shared.shown (utcDay now) + -p.pending
      omega) h
  have hzero : (World.initial now ledger).charged.sum = 0 := rfl
  omega

/-- When every charge is recorded, the ledger shows it. -/
theorem shown_eq (h : (serverSystem config now ledger).Reach (Checked config) c)
    (hall : (c.threads.all fun p => !p.unrecorded) = true) :
    c.shared.shown (utcDay now) =
      (World.initial now ledger).shown (utcDay now) + c.shared.charged.sum := by
  have hzero : Machine.weigh (fun p : Pc => -p.pending) c.threads = 0 := by
    refine Machine.weigh_eq_zero fun p hp => ?_
    have := List.all_eq_true.1 hall p hp
    cases p with
    | charged => cases this
    | quote | confirm | requote | challenge | sent | done => rfl
  have := account h
  omega

/-! ### The cap -/

section Cap

variable {cap spent : ℤ}

/-- A quote fits under the cap, together with what was charged when it was checked. -/
def World.Fits (w : World) (cap spent quoted : ℤ) (n : ℕ) : Prop :=
  n ≤ w.charged.length ∧ spent + (w.charged.take n).sum + quoted ≤ cap

/-- The charges are under the cap, and every hold fits. -/
structure World.Capped (w : World) (cap spent : ℤ) : Prop where
  sum_le : spent + w.charged.sum ≤ cap
  fits : ∀ h ∈ w.holds, w.Fits cap spent h.amountTinybars h.chargedAtCheck

/-- The calls that are past the check fit. -/
def World.Fitting (w : World) (cap spent : ℤ) (p : Pc) : Prop :=
  ∀ g, p.gate = some g → w.Fits cap spent g.2.quoted g.2.chargedAtCheck

theorem charged_grows (w : World) (op : Op) : w.charged <+: (w.apply op).charged := by
  cases op with
  | charge => exact List.prefix_append _ _
  | record a written => cases written <;> exact List.prefix_rfl
  | skip | hold | sweep | take | send => exact List.prefix_rfl

theorem World.Fits.mono {quoted : ℤ} {n : ℕ} (h : w.Fits cap spent quoted n) (op : Op) :
    (w.apply op).Fits cap spent quoted n := by
  obtain ⟨l, hl⟩ := charged_grows w op
  refine ⟨h.1.trans (charged_grows w op).length_le, ?_⟩
  rw [← hl, List.take_append_of_le_length h.1]
  exact h.2

/-- A quote that has just been checked fits. -/
theorem fits_of_checked {amount : ℤ} (hcap : config.maxTinybarsPerDay = some cap)
    (hshown : w.shown (utcDay w.now) = spent + w.charged.sum)
    (hcheck : w.checkDailyCap config amount) : w.Fits cap spent amount w.charged.length := by
  refine ⟨le_rfl, ?_⟩
  rw [List.take_length, ← hshown]
  exact checkDailyCap_le hcap hcheck

/-- A call that is past the check stays so, and a call that passes it fits. -/
theorem World.Fitting.acts (h : w.Fitting cap spent p) (hI : w.Capped cap spent)
    (hcap : config.maxTinybarsPerDay = some cap)
    (hshown : ∀ action amount, p = .quote action → o = .quoted amount →
      w.shown (utcDay w.now) = spent + w.charged.sum)
    (ha : Acts config w p o op p') : (w.apply op).Fitting cap spent p' := by
  intro g hg
  cases ha with
  | held | swept | answered | stopped => cases hg
  | @direct action amount hcheck =>
    rw [perform_gate, Option.some.injEq] at hg
    subst hg
    exact fits_of_checked hcap (hshown action amount rfl rfl) hcheck
  | taken hfind =>
    rw [perform_gate, Option.some.injEq] at hg
    subst hg
    exact hI.fits _ (List.mem_of_mem_filter (List.mem_of_find?_eq_some hfind))
  | requoted | paid | settled => exact (h g hg).mono _

/-- What no other operation than a charge changes. -/
theorem World.Capped.apply (hI : w.Capped cap spent) (hcharged : (w.apply op).charged = w.charged)
    (hholds : ∀ h ∈ (w.apply op).holds,
      h ∈ w.holds ∨ w.Fits cap spent h.amountTinybars h.chargedAtCheck) :
    (w.apply op).Capped cap spent where
  sum_le := hcharged ▸ hI.sum_le
  fits h hmem := ((hholds h hmem).elim (hI.fits h) id).mono op

theorem World.Capped.acts (hI : w.Capped cap spent) (h : w.Fitting cap spent p)
    (hcap : config.maxTinybarsPerDay = some cap) (hpriced : p.Priced)
    (hshown : ∀ action amount, p = .quote action → o = .quoted amount →
      w.shown (utcDay w.now) = spent + w.charged.sum)
    (hfresh : ∀ action gate requoted a, p = .sent action gate requoted a → o = .settles →
      gate.chargedAtCheck = w.charged.length)
    (ha : Acts config w p o op p') : (w.apply op).Capped cap spent := by
  cases ha with
  | @held action amount hcheck =>
    refine hI.apply rfl fun hd hmem => ?_
    rcases List.mem_append.1 hmem with hmem | hmem
    · exact Or.inl (List.mem_of_mem_filter hmem)
    · rw [List.mem_singleton.1 hmem]
      exact Or.inr (fits_of_checked hcap (hshown action amount rfl rfl) hcheck)
  | swept => exact hI.apply rfl fun hd hmem => Or.inl (List.mem_of_mem_filter hmem)
  | taken =>
    exact hI.apply rfl fun hd hmem =>
      Or.inl (List.mem_of_mem_filter (List.mem_of_mem_filter hmem))
  | direct | requoted | paid | stopped => exact hI.apply rfl fun hd hmem => Or.inl hmem
  | @answered p requoted amount written =>
    cases written <;> exact hI.apply rfl fun hd hmem => Or.inl hmem
  | @settled action gate requoted amount =>
    -- the call was checked against exactly the charges that there are
    obtain ⟨-, hle⟩ := h (action, gate) rfl
    rw [hfresh action gate requoted amount rfl rfl, List.take_length] at hle
    refine ⟨?_, fun hd hmem => (hI.fits hd hmem).mono (.charge amount)⟩
    show spent + (w.charged ++ [amount]).sum ≤ cap
    rw [List.sum_append, List.sum_singleton, hpriced.1]
    simp only at hle
    omega

/-- **Under the cap**: what has been charged, and every quote that has passed the check. -/
def capOutline (hcap : config.maxTinybarsPerDay = some cap)
    (hspent : (World.initial now ledger).shown (utcDay now) = spent) (hle : spent ≤ cap) :
    Machine.Outline (mcpServer config) (World.initial now ledger) (Checked config) where
  I w := w.Capped cap spent
  A w p := w.Fitting cap spent p
  X _ _ := True
  init := ⟨by simpa [World.initial] using hle, by simp [World.initial]⟩
  symm _ _ _ := trivial
  start w r := by cases r <;> simp [mcpServer, Tool.start, World.Fitting, Pc.gate]
  apart _ _ := trivial
  envI w ms h := ⟨h.sum_le, h.fits⟩
  envA w ms p h := h
  act c i o p op p' hr hp hC hI hA ha := by
    have hfresh := (hC.run hp).2
    have hpriced := ((pricedOutline config now ledger).holds hr).annot i p hp
    have hshown : ∀ action amount, p = .quote action → o = .quoted amount →
        c.shared.shown (utcDay c.shared.now) = spent + c.shared.charged.sum := by
      rintro action amount rfl rfl
      rw [utcDay_eq hr, shown_eq hr hfresh, hspent]
    have hacts := acts_of_act ha
    refine ⟨hI.acts hA hcap hpriced hshown ?_ hacts, hA.acts hI hcap hshown hacts⟩
    rintro action gate requoted a rfl rfl
    exact of_decide_eq_true hfresh
  free c i j o p q op p' _ _ _ _ _ _ _ hq _ ha := ⟨fun g hg => (hq g hg).mono op, trivial⟩

/-- **The daily cap** holds, if no check is stale: what is charged on a day, with what the ledger
showed of it at the start, is no more than the cap. -/
theorem charged_le_cap (hcap : config.maxTinybarsPerDay = some cap)
    (hspent : (World.initial now ledger).shown (utcDay now) = spent) (hle : spent ≤ cap)
    (h : (serverSystem config now ledger).Reach (Checked config) c) :
    spent + c.shared.charged.sum ≤ cap :=
  ((capOutline hcap hspent hle).holds h).shared.sum_le

end Cap

/-- Two payments of 60 tinybars are held, and then confirmed one after the other. -/
def heldTwice : List Label :=
  [.start (.openSession "node" 60 none none), .run 0 (.quoted 60),
    .start (.openSession "node" 60 none none), .run 1 (.quoted 60),
    .start (.confirmPayment 0), .run 2 .go, .run 2 (.challenged (hbar 60)), .run 2 .settles,
    .run 2 (.answered (some 60) true),
    .start (.confirmPayment 1), .run 3 .go, .run 3 (.challenged (hbar 60)), .run 3 .settles,
    .run 3 (.answered (some 60) true)]

theorem cap_exceeded :
    ∃ c, (serverSystem (.sample (some 100)) 0 []).Reach (HonestDay (.sample (some 100))) c ∧
      (c.shared.charged = [60, 60] ∧ c.shared.ledger.length = 2) ∧
      (McpConfig.sample (some 100)).maxTinybarsPerDay = some 100 ∧
      ¬ c.shared.charged.sum ≤ 100 := by
  obtain ⟨c, hc, hp⟩ := System.exists_reach (S := serverSystem (.sample (some 100)) 0 [])
    (C := HonestDay (.sample (some 100)))
    (p := fun c => decide (c.shared.charged = [60, 60] ∧ c.shared.ledger.length = 2)) heldTwice
    (by decide)
  have hcharged := of_decide_eq_true hp
  exact ⟨c, hc, hcharged, rfl, by rw [hcharged.1]; decide⟩

/-- One payment of 60 tinybars is held and confirmed, and the next one is refused. -/
theorem charged_le_cap_held :
    ∃ c, (serverSystem (.sample (some 100)) 0 []).Reach (Checked (.sample (some 100))) c ∧
      (c.shared.charged = [60] ∧ c.threads[2]? = some Pc.done) ∧
      0 + c.shared.charged.sum ≤ 100 := by
  obtain ⟨c, hc, hp⟩ := System.exists_reach (S := serverSystem (.sample (some 100)) 0 [])
    (C := Checked (.sample (some 100)))
    (p := fun c => decide (c.shared.charged = [60] ∧ c.threads[2]? = some Pc.done))
    [.start (.openSession "node" 60 none none), .run 0 (.quoted 60), .start (.confirmPayment 0),
      .run 1 .go, .run 1 (.challenged (hbar 60)), .run 1 .settles,
      .run 1 (.answered (some 60) true), .start (.openSession "node" 60 none none),
      .run 2 (.quoted 60)] (by decide)
  exact ⟨c, hc, of_decide_eq_true hp, charged_le_cap rfl rfl (by decide) hc⟩

end McpServer
end Mach402
