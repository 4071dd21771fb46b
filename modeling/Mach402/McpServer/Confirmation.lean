import Mach402.McpServer.Payments

/-!
# The confirmation gate

A payment above `confirmAboveTinybars` needs a `confirm_payment`.  The gate looks at a quote, and
what is paid is a challenge that the node answers another request with.

* `GateOk`: what a call that is past the gate was let through with;
* `hold_pays_once`: a hold is good for one payment;
* `WithinQuote`, `confirmed`: the gate holds as long as no challenge that is paid asks for more than
  the gate has seen.
-/

namespace Mach402
namespace McpServer

variable {config : McpConfig} {now : ℕ} {ledger : List SpendRecord} {w : World} {p p' : Pc}
  {o : Outcome} {op : Op}

/-! ### Past the gate -/

/-- A hold has been left, and taken before it expired. -/
def World.TookInTime (w : World) (h : ConfirmationHold) : Prop :=
  h ∈ w.issued ∧ ∃ t, (h, t) ∈ w.taken ∧ t ≤ h.expiresAt

/-- What a call was let through with: a quote below the threshold, or a hold for its action. -/
def GateOk (config : McpConfig) (w : World) (action : PendingAction) (gate : Gate) : Prop :=
  match gate.hold with
  | none => ∀ t, config.confirmAboveTinybars = some t → gate.quoted ≤ t
  | some h => h.action = action ∧ gate.quoted = h.amountTinybars ∧ w.TookInTime h

/-- A confirmed payment of no more than the amount of the hold. -/
def World.Authorised (w : World) (p : Payment) : Prop :=
  ∃ h, p.hold = some h ∧ h.action = p.action ∧ p.amountTinybars ≤ h.amountTinybars ∧
    w.TookInTime h

theorem apply_grows (w : World) (op : Op) :
    w.issued <+: (w.apply op).issued ∧ w.taken <+: (w.apply op).taken := by
  cases op with
  | hold | take => exact ⟨by simp [World.apply, World.holdForConfirmation, World.takeConfirmed,
      World.sweepExpired], by simp [World.apply, World.holdForConfirmation, World.takeConfirmed,
      World.sweepExpired]⟩
  | record a b => cases b <;> exact ⟨List.prefix_rfl, List.prefix_rfl⟩
  | skip | sweep | send | charge => exact ⟨List.prefix_rfl, List.prefix_rfl⟩

theorem World.TookInTime.mono {h : ConfirmationHold} (hh : w.TookInTime h) (op : Op) :
    (w.apply op).TookInTime h := by
  obtain ⟨hissued, t, ht, hle⟩ := hh
  exact ⟨(apply_grows w op).1.subset hissued, t, (apply_grows w op).2.subset ht, hle⟩

theorem GateOk.mono {action : PendingAction} {gate : Gate} (h : GateOk config w action gate)
    (op : Op) : GateOk config (w.apply op) action gate := by
  unfold GateOk at h ⊢
  split
  · next hnone => simpa [hnone] using h
  · next hd hsome =>
    simp only [hsome] at h
    exact ⟨h.1, h.2.1, h.2.2.mono op⟩

theorem World.Authorised.mono {pay : Payment} (h : w.Authorised pay) (op : Op) :
    (w.apply op).Authorised pay := by
  obtain ⟨hd, hhold, haction, hle, hd'⟩ := h
  exact ⟨hd, hhold, haction, hle, hd'.mono op⟩

/-- A hold that is found has not expired. -/
theorem findHold_some {id : ℕ} {h : ConfirmationHold} (hf : w.findHold id = some h) :
    h ∈ w.holds ∧ w.now ≤ h.expiresAt ∧ h.id = id := by
  have hmem := List.mem_of_find?_eq_some hf
  have hid := List.find?_some hf
  rw [World.sweepExpired, List.mem_filter, decide_eq_true_eq] at hmem
  exact ⟨hmem.1, hmem.2, of_decide_eq_true hid⟩

/-! ### One payment for a hold -/

/-- The call has a hold, and has not paid yet. -/
def Pc.owns (id : ℕ) : Pc → Bool
  | .requote _ gate => gate.hold.any fun h => h.id = id
  | .challenge _ gate _ => gate.hold.any fun h => h.id = id
  | _ => false

theorem perform_owns (id : ℕ) (action : PendingAction) (gate : Gate) :
    (perform action gate).owns id = gate.hold.any fun h => h.id = id := by
  cases action <;> rfl

/-- The payments that a hold has authorised. -/
def World.paymentsOf (w : World) (id : ℕ) : List Payment :=
  w.sent.filter fun p => p.hold.any fun h => h.id = id

/-- The holds of an id. -/
def World.holdsOf (w : World) (id : ℕ) : List ConfirmationHold := w.holds.filter fun h => h.id = id

/-- The id may still be given out. -/
def World.unissued (w : World) (id : ℕ) : ℤ := if w.nextId ≤ id then 1 else 0

/-- What may still be paid, or has been paid, by a hold of the id. -/
def World.claims (w : World) (id : ℕ) : ℤ :=
  (w.paymentsOf id).length + (w.holdsOf id).length + w.unissued id

theorem sweepExpired_holdsOf (w : World) (id : ℕ) :
    (w.sweepExpired.holdsOf id).length ≤ (w.holdsOf id).length :=
  (List.filter_sublist.filter _).length_le

theorem sweepExpired_claims (w : World) (id : ℕ) : w.sweepExpired.claims id ≤ w.claims id := by
  have hsweep := sweepExpired_holdsOf w id
  have hpayments : w.sweepExpired.paymentsOf id = w.paymentsOf id := rfl
  have hunissued : w.sweepExpired.unissued id = w.unissued id := rfl
  simp only [World.claims, hpayments, hunissued]
  omega

/-- A hold that is left gets an id that has not been given out. -/
theorem holdForConfirmation_claims (w : World) (amount : ℤ) (action : PendingAction) (id : ℕ) :
    (w.holdForConfirmation amount action).claims id ≤ w.claims id := by
  have hsweep := sweepExpired_holdsOf w id
  have hpayments : (w.holdForConfirmation amount action).paymentsOf id = w.paymentsOf id := rfl
  have hholds : ((w.holdForConfirmation amount action).holdsOf id).length =
      (w.sweepExpired.holdsOf id).length + if w.nextId = id then 1 else 0 := by
    simp only [World.holdsOf, World.holdForConfirmation, List.filter_append, List.length_append,
      List.filter_cons, List.filter_nil, decide_eq_true_eq]
    split_ifs <;> rfl
  have hunissued : (w.holdForConfirmation amount action).unissued id =
      w.unissued id - if w.nextId = id then 1 else 0 := by
    simp only [World.unissued, World.holdForConfirmation]
    split_ifs <;> omega
  simp only [World.claims, hpayments, hholds, hunissued]
  split_ifs <;> push_cast <;> omega

/-- A hold that is taken moves from the store to the call. -/
theorem takeConfirmed_claims {n : ℕ} {h : ConfirmationHold} (hf : w.findHold n = some h) (id : ℕ) :
    (w.takeConfirmed h).claims id + (if h.id = id then 1 else 0) ≤ w.claims id := by
  have hsweep := sweepExpired_holdsOf w id
  have hpayments : (w.takeConfirmed h).paymentsOf id = w.paymentsOf id := rfl
  have hunissued : (w.takeConfirmed h).unissued id = w.unissued id := rfl
  have hmem := List.mem_of_find?_eq_some hf
  simp only [World.claims, hpayments, hunissued]
  by_cases hid : h.id = id
  · have hnil : (w.takeConfirmed h).holdsOf id = [] :=
      List.filter_eq_nil_iff.2 fun h' hh' => by
        simpa [hid] using (List.mem_filter.1 hh').2
    have hpos : 0 < (w.sweepExpired.holdsOf id).length :=
      List.length_pos_of_mem (List.mem_filter.2 ⟨hmem, by simpa using hid⟩)
    rw [hnil, if_pos hid, List.length_nil]
    omega
  · have hle : ((w.takeConfirmed h).holdsOf id).length ≤ (w.sweepExpired.holdsOf id).length :=
      (List.filter_sublist.filter _).length_le
    rw [if_neg hid]
    omega

theorem send_claims (w : World) (pay : Payment) (id : ℕ) :
    (w.apply (.send pay)).claims id =
      w.claims id + if (pay.hold.any fun h => h.id = id) then 1 else 0 := by
  have hpayments : ((w.apply (.send pay)).paymentsOf id).length =
      (w.paymentsOf id).length + if (pay.hold.any fun h => h.id = id) then 1 else 0 := by
    simp only [World.paymentsOf, World.apply, List.filter_append, List.filter_cons,
      List.filter_nil, List.length_append]
    split_ifs <;> rfl
  have hholds : (w.apply (.send pay)).holdsOf id = w.holdsOf id := rfl
  have hunissued : (w.apply (.send pay)).unissued id = w.unissued id := rfl
  simp only [World.claims, hpayments, hholds, hunissued]
  split_ifs <;> push_cast <;> omega

theorem acts_claims (h : Acts config w p o op p') (id : ℕ) :
    (w.apply op).claims id + (if p'.owns id then 1 else 0) ≤
      w.claims id + if p.owns id then 1 else 0 := by
  have hpos : ∀ q : Pc, (0 : ℤ) ≤ if q.owns id then 1 else 0 := fun q => by split_ifs <;> decide
  cases h with
  | @held action amount =>
    have := holdForConfirmation_claims w amount action id
    simpa [World.apply, Pc.owns] using this
  | direct =>
    rw [perform_owns]
    simp [World.apply, Pc.owns]
  | swept => simpa [World.apply, Pc.owns] using sweepExpired_claims w id
  | @taken n hd hfind =>
    have := takeConfirmed_claims hfind id
    rw [perform_owns]
    simpa [World.apply, Pc.owns] using this
  | requoted => exact le_rfl
  | @paid action gate requoted option amount =>
    rw [send_claims]
    by_cases hown : gate.hold.any fun h => h.id = id <;> simp [Pc.owns, hown]
  | settled => exact le_rfl
  | @answered p requoted amount written =>
    have hsame : (w.apply (.record (recorded requoted amount) written)).claims id =
        w.claims id := by
      cases written <;> rfl
    rw [hsame]
    simpa [Pc.owns] using hpos p
  | @stopped p =>
    show w.claims id + _ ≤ _
    simpa [Pc.owns] using hpos p

variable {C : Config → Label → Prop} {s : Config}

/-- **A hold is good for one payment.** -/
theorem hold_pays_once (h : (serverSystem config now ledger).Reach C s) (id : ℕ) :
    (s.shared.paymentsOf id).length ≤ 1 := by
  have hsum := Machine.account_le (M := mcpServer config) (m := fun w => - w.claims id)
    (f := fun p => if p.owns id then -1 else 0) (k := -1)
    (by simp [World.claims, World.paymentsOf, World.holdsOf, World.unissued, World.initial])
    (fun r => by cases r <;> exact le_refl (0 : ℤ)) (fun w ms => le_rfl)
    (fun c i o p op p' _ _ _ ha => by
      have hclaims := acts_claims (acts_of_act ha) id
      show -c.shared.claims id + _ ≤ -(c.shared.apply op).claims id + _
      split_ifs at hclaims ⊢ <;> omega) h
  have hneg : Machine.weigh (fun p : Pc => if p.owns id then (-1 : ℤ) else 0) s.threads ≤ 0 :=
    Machine.weigh_nonpos fun _ p _ => by split_ifs <;> decide
  have hclaims : ((s.shared.paymentsOf id).length : ℤ) ≤ s.shared.claims id := by
    simp only [World.claims, World.unissued]
    split_ifs <;> omega
  omega

/-! ### The gate -/

/-- **The challenge is within the quote**: what is paid is no more than the gate has seen, or no
more than the threshold. -/
def WithinQuote (config : McpConfig) : Config → Label → Prop :=
  Machine.Guard fun _ _ p o =>
    match p, o with
    | .challenge _ gate _, .challenged option =>
      !acceptable config option || option.amount.all fun amount =>
        decide (amount ≤ gate.quoted) ||
          config.confirmAboveTinybars.all fun t => decide (amount ≤ t)
    | _, _ => true

instance (c : Config) (l : Label) : Decidable (WithinQuote config c l) :=
  inferInstanceAs (Decidable (Machine.Guard _ c l))

/-- What the gate is to guarantee for a payment. -/
def PaymentOk (config : McpConfig) (w : World) (p : Payment) : Prop :=
  p.amountTinybars ≤ config.maxTinybarsPerPayment ∧
    ∀ t, config.confirmAboveTinybars = some t → t < p.amountTinybars → w.Authorised p

/-- The holds that are left or taken, and the payments. -/
structure World.GateInv (config : McpConfig) (w : World) : Prop where
  issued : ∀ h ∈ w.holds, h ∈ w.issued
  sent : ∀ p ∈ w.sent, PaymentOk config w p

theorem PaymentOk.mono {pay : Payment} (h : PaymentOk config w pay) (op : Op) :
    PaymentOk config (w.apply op) pay :=
  ⟨h.1, fun t ht hlt => (h.2 t ht hlt).mono op⟩

/-- What an operation other than a payment keeps. -/
theorem World.GateInv.apply (h : w.GateInv config) (hsent : (w.apply op).sent = w.sent)
    (hholds : ∀ hd ∈ (w.apply op).holds, hd ∈ w.holds ∨ hd ∈ (w.apply op).issued) :
    (w.apply op).GateInv config where
  issued hd hmem := (hholds hd hmem).elim
    (fun hmem => (apply_grows w op).1.subset (h.issued hd hmem)) id
  sent pay hpay := (h.sent pay (hsent ▸ hpay)).mono op

theorem acceptable_amount {option : PaymentRequirements} {amount : ℤ}
    (h : acceptable config option) (hamount : option.amount = some amount) :
    amount ≤ config.maxTinybarsPerPayment := by
  unfold acceptable at h
  split_ifs at h
  rw [hamount] at h
  exact of_decide_eq_true h

/-- What a hold or a quote below the threshold lets through. -/
theorem GateOk.payment {action : PendingAction} {gate : Gate} {amount : ℤ}
    (h : GateOk config w action gate) (hmax : amount ≤ config.maxTinybarsPerPayment)
    (hle : amount ≤ gate.quoted ∨
      ∀ t, config.confirmAboveTinybars = some t → amount ≤ t) :
    PaymentOk config w ⟨amount, action, gate.hold⟩ := by
  refine ⟨hmax, fun t ht hlt => ?_⟩
  have hquoted : amount ≤ gate.quoted := hle.resolve_right fun hle => by
    have := hle t ht
    simp only at hlt
    omega
  unfold GateOk at h
  split at h
  · have := h t ht
    simp only at hlt
    omega
  · next hd hsome => exact ⟨hd, hsome, h.1, h.2.1 ▸ hquoted, h.2.2⟩

theorem direct_gateOk {amount : ℤ} (h : ¬ needsConfirmation config amount)
    (action : PendingAction) (n : ℕ) : GateOk config w action ⟨amount, n, none⟩ := by
  intro t ht
  simpa [needsConfirmation, ht] using h

theorem taken_gateOk {id : ℕ} {h : ConfirmationHold} (hI : w.GateInv config)
    (hf : w.findHold id = some h) :
    GateOk config (w.takeConfirmed h) h.action ⟨h.amountTinybars, h.chargedAtCheck, some h⟩ := by
  obtain ⟨hmem, hle, -⟩ := findHold_some hf
  exact ⟨rfl, rfl, hI.issued h hmem, w.now, List.mem_append_right _ (List.mem_singleton.2 rfl), hle⟩

/-- A call that is past the gate stays past it. -/
theorem GateOk.acts (h : ∀ g, p.gate = some g → GateOk config w g.1 g.2) (hI : w.GateInv config)
    (ha : Acts config w p o op p') :
    ∀ g, p'.gate = some g → GateOk config (w.apply op) g.1 g.2 := by
  intro g hg
  cases ha with
  | held | swept | answered | stopped => cases hg
  | direct _ hneeds =>
    rw [perform_gate, Option.some.injEq] at hg
    exact hg ▸ direct_gateOk hneeds _ _
  | taken hfind =>
    rw [perform_gate, Option.some.injEq] at hg
    exact hg ▸ taken_gateOk hI hfind
  | requoted | paid | settled => exact (h g hg).mono _

/-- Whatever a tool does, the payments are as the gate is to guarantee. -/
theorem World.GateInv.acts (hI : w.GateInv config)
    (hA : ∀ g, p.gate = some g → GateOk config w g.1 g.2)
    (hwithin : ∀ action gate requoted option amount, p = .challenge action gate requoted →
      o = .challenged option → acceptable config option → option.amount = some amount →
      amount ≤ gate.quoted ∨ ∀ t, config.confirmAboveTinybars = some t → amount ≤ t)
    (ha : Acts config w p o op p') : (w.apply op).GateInv config := by
  cases ha with
  | held =>
    refine hI.apply rfl fun hd hmem => ?_
    rcases List.mem_append.1 hmem with hmem | hmem
    · exact Or.inl (List.mem_of_mem_filter hmem)
    · exact Or.inr (List.mem_append_right _ hmem)
  | swept => exact hI.apply rfl fun hd hmem => Or.inl (List.mem_of_mem_filter hmem)
  | taken =>
    exact hI.apply rfl fun hd hmem =>
      Or.inl (List.mem_of_mem_filter (List.mem_of_mem_filter hmem))
  | direct | requoted | settled | stopped => exact hI.apply rfl fun hd hmem => Or.inl hmem
  | @answered p requoted amount written =>
    cases written <;> exact hI.apply rfl fun hd hmem => Or.inl hmem
  | @paid action gate requoted option amount hamount hacc =>
    have hok : PaymentOk config w ⟨amount, action, gate.hold⟩ :=
      (hA (action, gate) rfl).payment (acceptable_amount hacc hamount)
        (hwithin action gate requoted option amount rfl rfl hacc hamount)
    refine ⟨hI.issued, fun pay hpay => ?_⟩
    rcases List.mem_append.1 hpay with hpay | hpay
    · exact (hI.sent pay hpay).mono (.send ⟨amount, action, gate.hold⟩)
    · rw [List.mem_singleton.1 hpay]
      exact hok.mono (.send ⟨amount, action, gate.hold⟩)

/-- **Past the gate**: every call that is, and every payment. -/
def gateOutline (config : McpConfig) (now : ℕ) (ledger : List SpendRecord) :
    Machine.Outline (mcpServer config) (World.initial now ledger) (WithinQuote config) where
  I := World.GateInv config
  A w p := ∀ g, p.gate = some g → GateOk config w g.1 g.2
  X _ _ := True
  init := ⟨by simp [World.initial], by simp [World.initial]⟩
  symm _ _ _ := trivial
  start w r := by cases r <;> simp [mcpServer, Tool.start, Pc.gate]
  apart _ _ := trivial
  envI w ms h := ⟨h.issued, h.sent⟩
  envA w ms p h := h
  act c i o p op p' _ hp hC hI hA ha := by
    have hacts := acts_of_act ha
    refine ⟨hI.acts hA (fun action gate requoted option amount hpc ho hacc hamount => ?_) hacts,
      GateOk.acts hA hI (acts_of_act ha)⟩
    subst hpc ho
    have hwithin := hC.run hp
    simp only [hacc, hamount, Bool.not_true, Bool.false_or, Option.all_some, Bool.or_eq_true,
      decide_eq_true_eq] at hwithin
    exact hwithin.imp_right fun h t ht => by simpa [ht] using h
  free c i j o p q op p' _ _ _ _ _ _ _ hq _ ha := ⟨fun g hg => (hq g hg).mono op, trivial⟩

/-- **The confirmation gate** holds, if no challenge that is paid asks for more than the gate has
seen: a payment above the threshold is confirmed, by a hold of its own for the same action that was
taken in time and is for at least as much. -/
theorem confirmed (h : (serverSystem config now ledger).Reach (WithinQuote config) s) :
    (∀ p ∈ s.shared.sent, p.amountTinybars ≤ config.maxTinybarsPerPayment) ∧
    (∀ p ∈ s.shared.sent, ∀ t, config.confirmAboveTinybars = some t → t < p.amountTinybars →
      s.shared.Authorised p) ∧
    ∀ id, (s.shared.paymentsOf id).length ≤ 1 := by
  have hI := ((gateOutline config now ledger).holds h).shared
  exact ⟨fun p hp => (hI.sent p hp).1, fun p hp => (hI.sent p hp).2, hold_pays_once h⟩

/-- The node quotes 10 tinybars, and then asks for 900. -/
theorem paid_unconfirmed :
    ∃ s, (serverSystem (.sample none) 0 []).Reachable s ∧
      ∃ p ∈ s.shared.sent, p.amountTinybars = 900 ∧
        (McpConfig.sample none).confirmAboveTinybars = some 50 ∧ ¬ s.shared.Authorised p := by
  obtain ⟨s, hs, hp⟩ := System.exists_reach (S := serverSystem (.sample none) 0 [])
    (C := System.Any)
    (p := fun s => decide (s.shared.sent = [⟨900, .openSession "node" 60 none none, none⟩]))
    [.start (.openSession "node" 60 none none), .run 0 (.quoted 10),
      .run 0 (.challenged (hbar 900))] (by decide)
  refine ⟨s, hs, ⟨900, .openSession "node" 60 none none, none⟩, ?_, rfl, rfl, ?_⟩
  · rw [of_decide_eq_true hp]
    exact List.mem_singleton.2 rfl
  · rintro ⟨h, hh, -⟩
    cases hh

/-- A payment of 100 tinybars is held, and confirmed. -/
theorem confirmed_held :
    ∃ s, (serverSystem (.sample none) 0 []).Reach (WithinQuote (.sample none)) s ∧
      (s.shared.sent.map Payment.amountTinybars = [100] ∧ s.shared.charged = [100]) ∧
      ∀ p ∈ s.shared.sent, ∀ t, (McpConfig.sample none).confirmAboveTinybars = some t →
        t < p.amountTinybars → s.shared.Authorised p := by
  obtain ⟨s, hs, hp⟩ := System.exists_reach (S := serverSystem (.sample none) 0 [])
    (C := WithinQuote (.sample none))
    (p := fun s => decide (s.shared.sent.map Payment.amountTinybars = [100] ∧
      s.shared.charged = [100]))
    [.start (.openSession "node" 60 none none), .run 0 (.quoted 100), .start (.confirmPayment 0),
      .run 1 .go, .run 1 (.challenged (hbar 100)), .run 1 .settles] (by decide)
  exact ⟨s, hs, of_decide_eq_true hp, (confirmed hs).2.1⟩

end McpServer
end Mach402
