import Mach402.Contracts.SessionEscrow
import Mach402.Library.Totals

/-!
# The escrow is solvent

Every tinybar of the contract's balance belongs to somebody: to a session that is not settled, to an
address whose payout is held, to a settlement or a withdrawal in progress, or to nobody because it
was sent by force (`Books`).  This holds in the middle of any nesting of calls, and of every
snapshot a failed transfer goes back to, so that no payout can draw on somebody else's deposit.
-/

namespace Mach402
namespace SessionEscrow

/-! ### Liabilities -/

/-- What a session holds. -/
def Session.held (s : Session) : ℕ := if s.renter = 0 ∨ s.settled then 0 else s.deposited

/-- The deposits of all sessions that exist and are not settled. -/
def World.deposits (w : World) : ℕ := total Session.held w.sessions

/-- What is held for all addresses. -/
def World.pending (w : World) : ℕ := total (fun tinybars => tinybars) w.pendingWithdrawal

/-- What a call has still to pay out. -/
def Pc.due : Pc → ℕ
  | .payProvider _ _ q | .deferProvider _ _ q _ => q.providerAmount + q.refundAmount
  | .payRenter _ _ q | .deferRenter _ _ q _ => q.refundAmount
  | .send _ tinybars | .withdrawFailed _ tinybars => tinybars
  | .settled .. | .withdrawn .. | .finished => 0

/-- What the calls in progress have still to pay out. -/
def due (ps : List Pc) : ℕ := (ps.map Pc.due).sum

@[simp] theorem due_nil : due [] = 0 := rfl

@[simp] theorem due_cons (p : Pc) (ps : List Pc) : due (p :: ps) = p.due + due ps := by simp [due]

theorem held_le_deposits (w : World) (id : SessionId) : (w.sessions id).held ≤ w.deposits :=
  le_total ..

theorem pendingWithdrawal_le_pending (w : World) (a : Address) :
    w.pendingWithdrawal a ≤ w.pending :=
  le_total (fun tinybars => tinybars) w.pendingWithdrawal a

/-- The deposits once a session has changed. -/
theorem deposits_update {w w' : World} {id : SessionId} {s : Session}
    (h : w'.sessions = Function.update w.sessions id s) :
    w'.deposits + (w.sessions id).held = w.deposits + s.held := by
  rw [World.deposits, h]
  exact total_update ..

/-- What is held once it has changed for one address. -/
theorem pending_update {w w' : World} {a : Address} {tinybars : ℕ}
    (h : w'.pendingWithdrawal = Function.update w.pendingWithdrawal a tinybars) :
    w'.pending + w.pendingWithdrawal a = w.pending + tinybars := by
  rw [World.pending, h]
  exact total_update ..

/-! ### What the functions do to them -/

/-- The liabilities have changed, and no HBAR has moved. -/
structure Booked (w w' : World) (deposits pending : ℕ) : Prop where
  deposits : w'.deposits = deposits
  pending : w'.pending = pending
  balance : w'.balance = w.balance
  elsewhere : w'.elsewhere = w.elsewhere
  forced : w'.forced = w.forced

section Booked

variable {w w' : World} {id : SessionId}

theorem booked_openSession {sender provider : Address} {value pricePerSecond duration : ℕ}
    (hsender : sender ≠ 0)
    (h : w.openSession sender value id provider pricePerSecond duration = .ok w') :
    Booked w w' (w.deposits + value) w.pending := by
  obtain ⟨hr, -, hw⟩ := World.openSession_ok h
  have hd := deposits_update (congrArg World.sessions hw)
  simp only [Session.held, hr, hsender, true_or, if_true, Bool.false_eq_true, or_self,
    if_false, add_zero] at hd
  subst hw
  exact ⟨hd, rfl, rfl, rfl, rfl⟩

theorem booked_topUp {value addedDuration : ℕ} (h : w.topUp value id addedDuration = .ok w') :
    Booked w w' (w.deposits + value) w.pending := by
  obtain ⟨hr, hs, -, hw⟩ := World.topUp_ok h
  have hd := deposits_update (congrArg World.sessions hw)
  simp only [Session.held, hr, hs, Bool.false_eq_true, or_self, if_false] at hd
  have hd : w'.deposits = w.deposits + value := by omega
  subst hw
  exact ⟨hd, rfl, rfl, rfl, rfl⟩

theorem booked_settle {q : Split} (h : w.settle id = .ok (w', q)) :
    Booked w w' (w.deposits - (q.providerAmount + q.refundAmount)) w.pending ∧
      q.providerAmount + q.refundAmount ≤ w.deposits := by
  obtain ⟨hr, hs, hq, hw⟩ := World.settle_ok h
  have hdep := (Session.split_ok hq).refund
  have hle := held_le_deposits w id
  have hd := deposits_update (congrArg World.sessions hw)
  simp only [Session.held, hr, hs, Bool.false_eq_true, or_self, or_true, if_true,
    if_false] at hd hle
  have hd : w'.deposits = w.deposits - (q.providerAmount + q.refundAmount) := by omega
  subst hw
  exact ⟨⟨hd, rfl, rfl, rfl, rfl⟩, by omega⟩

theorem booked_withdraw {sender : Address} {amount : ℕ}
    (h : w.withdraw sender = .ok (w', amount)) :
    Booked w w' w.deposits (w.pending - amount) ∧ amount ≤ w.pending := by
  obtain ⟨rfl, hw⟩ := World.withdraw_ok h
  have hle := pendingWithdrawal_le_pending w sender
  have hp := pending_update (congrArg World.pendingWithdrawal hw)
  have hp : w'.pending = w.pending - w.pendingWithdrawal sender := by omega
  subst hw
  exact ⟨⟨rfl, hp, rfl, rfl, rfl⟩, hle⟩

end Booked

/-! ### The books -/

/-- **The books balance** while the calls in progress are to go on at `ps`; and no HBAR is made. -/
structure Books (chain : Chain) (ps : List Pc) (w : World) : Prop where
  balance : w.balance = w.deposits + w.pending + due ps + w.forced
  supply : w.balance + w.elsewhere = chain.supply

namespace Books

variable {chain : Chain} {ps : List Pc} {w w' : World} {p p' : Pc}

theorem balance_lt (h : Books chain ps w) : w.balance < wordSize := by
  have := h.supply
  have := chain.supply_lt
  omega

/-- A call brings its value in, and books it. -/
theorem call {c : Call} (h : Books chain ps w) (hw : w.call chain c = some (w', p)) :
    Books chain (p :: ps) w' := by
  obtain ⟨hvalue, hcalled⟩ := called_of_call hw
  obtain ⟨hbal, hsup⟩ := h
  have hrb : (w.receive c.value).balance = w.balance + c.value := rfl
  have hre : (w.receive c.value).elsewhere = w.elsewhere - c.value := rfl
  have hrd : (w.receive c.value).deposits = w.deposits := rfl
  have hrp : (w.receive c.value).pending = w.pending := rfl
  have hrf : (w.receive c.value).forced = w.forced := rfl
  cases hcalled with
  | openSession id provider pricePerSecond duration _ hsender hok =>
    obtain ⟨hd, hp, hb, he, hf⟩ := booked_openSession hsender hok
    exact ⟨by simp only [due_cons, Pc.due]; omega, by omega⟩
  | topUp id addedDuration _ hok =>
    obtain ⟨hd, hp, hb, he, hf⟩ := booked_topUp hok
    exact ⟨by simp only [due_cons, Pc.due]; omega, by omega⟩
  | settle id _ hok =>
    obtain ⟨⟨hd, hp, hb, he, hf⟩, hle⟩ := booked_settle hok
    exact ⟨by simp only [due_cons, Pc.due]; omega, by omega⟩
  | withdraw _ hok =>
    obtain ⟨⟨hd, hp, hb, he, hf⟩, hle⟩ := booked_withdraw hok
    exact ⟨by simp only [due_cons, Pc.due]; omega, by omega⟩

/-- A transfer takes what is due from the balance. -/
theorem transfer {payee : Address} {tinybars : ℕ} {ok : Pc} (h : Books chain (p :: ps) w)
    (hdue : p.due = tinybars + ok.due) (hw : w.transfer chain payee tinybars = some w') :
    Books chain (ok :: ps) w' := by
  obtain ⟨hbal, hsup⟩ := h
  obtain ⟨hle, rfl⟩ := World.transfer_some hw
  rw [due_cons] at hbal
  constructor
  · change w.balance - tinybars = w.deposits + w.pending + due (ok :: ps) + w.forced
    rw [due_cons]
    omega
  · change w.balance - tinybars + (w.elsewhere + tinybars) = chain.supply
    omega

theorem record {id : SessionId} {payout : Payout} (h : Books chain ps w) :
    Books chain ps (w.record id payout) := ⟨h.balance, h.supply⟩

/-- A point at which as much is due. -/
theorem goto (h : Books chain (p :: ps) w) (hdue : p'.due = p.due) : Books chain (p' :: ps) w := by
  obtain ⟨hbal, hsup⟩ := h
  rw [due_cons] at hbal
  exact ⟨by rw [due_cons]; omega, hsup⟩

/-- What is held is not due any more. -/
theorem defer {id : SessionId} {payee : Address} {tinybars : ℕ} {paid : Pc}
    (h : Books chain (p :: ps) w) (hdue : p.due = tinybars + paid.due) :
    (w.defer id payee tinybars paid).Keeps (Books chain) ps w := by
  obtain ⟨hbal, hsup⟩ := h
  rw [due_cons] at hbal
  refine World.keeps_defer ⟨?_, hsup⟩
  have hp : (World.record { w with
      pendingWithdrawal := Function.update w.pendingWithdrawal payee
        (w.pendingWithdrawal payee + tinybars)
      log := w.log ++ [.payoutDeferred payee tinybars] } id ⟨payee, tinybars, false⟩).pending +
      w.pendingWithdrawal payee = w.pending + (w.pendingWithdrawal payee + tinybars) :=
    pending_update rfl
  show w.balance = w.deposits + _ + due (paid :: ps) + w.forced
  rw [due_cons]
  omega

/-- A call that has nothing left to pay returns. -/
theorem stop (h : Books chain (p :: ps) w) (hdue : p.due = 0)
    (hw : Booked w w' w.deposits w.pending) : Books chain ps w' := by
  obtain ⟨hbal, hsup⟩ := h
  obtain ⟨hd, hp, hb, he, hf⟩ := hw
  rw [due_cons] at hbal
  exact ⟨by omega, by omega⟩

/-- **Every step of the code keeps the books.** -/
theorem act (h : Books chain (p :: ps) w) : (w.act chain p).Keeps (Books chain) ps w := by
  cases p with
  | payProvider sender id q =>
    simp only [World.act]
    split_ifs with hpos
    · exact World.keeps_pay (fun w' hw => (h.transfer rfl hw).record) (h.goto rfl)
    · exact h.goto (by simp only [Pc.due]; omega)
  | deferProvider sender id q payee => exact h.defer rfl
  | payRenter sender id q =>
    simp only [World.act]
    split_ifs with hpos
    · exact World.keeps_pay (fun w' hw => (h.transfer rfl hw).record) (h.goto rfl)
    · exact h.goto (by simp only [Pc.due]; omega)
  | deferRenter sender id q payee => exact h.defer rfl
  | send payee tinybars =>
    simp only [World.act]
    split
    · rename_i w' hw
      obtain ⟨hbal, hsup⟩ : Books chain (.withdrawn payee tinybars :: ps) w' := h.transfer rfl hw
      exact ⟨⟨hbal, hsup⟩, h.goto rfl⟩
    · exact h.goto rfl
  | withdrawFailed payee tinybars => trivial
  | settled | withdrawn | finished => exact h.stop rfl ⟨rfl, rfl, rfl, rfl, rfl⟩

/-- What is sent by force is nobody's. -/
theorem happen {idle : Bool} {e : Happening} (h : Books chain ps w)
    (hw : w.happen idle e = some w') : Books chain ps w' := by
  obtain ⟨hbal, hsup⟩ := h
  obtain ⟨tinybars, -, hle, rfl⟩ | ⟨seconds, rfl⟩ := World.happen_some hw
  · constructor
    · show w.balance + tinybars = w.deposits + w.pending + due ps + (w.forced + tinybars)
      omega
    · show w.balance + tinybars + (w.elsewhere - tinybars) = chain.supply
      omega
  · exact ⟨hbal, hsup⟩

end Books

/-- The books, as an invariant of the contract. -/
def booksOutline (chain : Chain) :
    Program.Outline (sessionEscrow chain) (World.initial chain) fun _ => true where
  I := Books chain
  init := by
    refine ⟨?_, Nat.zero_add _⟩
    have hd : (World.initial chain).deposits = 0 := total_eq_zero fun _ => rfl
    have hp : (World.initial chain).pending = 0 := total_eq_zero fun _ => rfl
    rw [hd, hp]
    rfl
  start _ _ _ _ _ h hw := h.call hw
  act _ _ _ h := h.act
  env _ _ _ _ _ _ h hw := h.happen hw

/-! ### Force -/

/-- Nobody sends HBAR by force. -/
def Happening.unforced : Happening → Bool
  | .force _ => false
  | .advance _ => true

section Forced

variable {chain : Chain} {w w' : World} {p : Pc}

theorem forced_call {c : Call} (hw : w.call chain c = some (w', p)) : w'.forced = w.forced := by
  obtain ⟨-, hcalled⟩ := called_of_call hw
  cases hcalled with
  | openSession id provider pricePerSecond duration _ hsender hok =>
    exact (booked_openSession hsender hok).forced
  | topUp id addedDuration _ hok => exact (booked_topUp hok).forced
  | settle id _ hok => exact (booked_settle hok).1.forced
  | withdraw _ hok => exact (booked_withdraw hok).1.forced

theorem forced_act {ps : List Pc} (h : w.forced = 0) :
    (w.act chain p).Keeps (fun _ w => w.forced = 0) ps w := by
  have htransfer : ∀ payee tinybars w', w.transfer chain payee tinybars = some w' →
      w'.forced = 0 := by
    intro payee tinybars w' hw
    obtain ⟨-, rfl⟩ := World.transfer_some hw
    exact h
  cases p with
  | payProvider sender id q | payRenter sender id q =>
    simp only [World.act]
    split_ifs with hpos
    · exact World.keeps_pay (fun w' hw => htransfer _ _ w' hw) h
    · exact h
  | deferProvider sender id q payee | deferRenter sender id q payee => exact World.keeps_defer h
  | send payee tinybars =>
    simp only [World.act]
    split
    · rename_i w' hw
      exact ⟨htransfer _ _ w' hw, h⟩
    · exact h
  | withdrawFailed payee tinybars => trivial
  | settled | withdrawn | finished => exact h

/-- Nothing comes in by force. -/
def unforcedOutline (chain : Chain) :
    Program.Outline (sessionEscrow chain) (World.initial chain) Happening.unforced where
  I _ w := w.forced = 0
  init := rfl
  start _ _ _ _ _ h hw := (forced_call hw).trans h
  act _ _ _ h := forced_act h
  env _ w _ _ _ he h hw := by
    obtain ⟨_, rfl, -⟩ | ⟨_, rfl⟩ := World.happen_some hw
    · cases he
    · exact h

end Forced

/-! ### Isolation -/

/-- The session a function is about. -/
def Entry.session : Entry → Option SessionId
  | .openSession id .. | .topUp id _ | .settle id => some id
  | .withdraw => none

/-- Every session and every held payout is left alone; a payout may be added. -/
structure Untouched (w w' : World) : Prop where
  sessions : w'.sessions = w.sessions
  timestamp : w'.timestamp = w.timestamp
  openings : ∀ id, w'.openings id = w.openings id
  pendingWithdrawal : ∀ a, w.pendingWithdrawal a ≤ w'.pendingWithdrawal a

section Isolation

variable {chain : Chain} {w w' : World} {p : Pc}

/-- A call touches its own session, or its sender's payout. -/
theorem isolated_call {c : Call} (hw : w.call chain c = some (w', p)) :
    (∀ id, c.entry.session ≠ some id → w'.sessions id = w.sessions id) ∧
      ∀ a, (c.entry = .withdraw → a ≠ c.sender) →
        w'.pendingWithdrawal a = w.pendingWithdrawal a := by
  obtain ⟨-, hcalled⟩ := called_of_call hw
  cases hcalled with
  | openSession id provider pricePerSecond duration he hsender hok =>
    obtain ⟨-, -, rfl⟩ := World.openSession_ok hok
    refine ⟨fun j hj => Function.update_of_ne ?_ _ _, fun _ _ => rfl⟩
    rintro rfl
    exact hj (he ▸ rfl)
  | topUp id addedDuration he hok =>
    obtain ⟨-, -, -, rfl⟩ := World.topUp_ok hok
    refine ⟨fun j hj => Function.update_of_ne ?_ _ _, fun _ _ => rfl⟩
    rintro rfl
    exact hj (he ▸ rfl)
  | settle id he hok =>
    obtain ⟨-, -, -, rfl⟩ := World.settle_ok hok
    refine ⟨fun j hj => Function.update_of_ne ?_ _ _, fun _ _ => rfl⟩
    rintro rfl
    exact hj (he ▸ rfl)
  | withdraw he hok =>
    obtain ⟨-, rfl⟩ := World.withdraw_ok hok
    exact ⟨fun _ _ => rfl, fun a ha => Function.update_of_ne (ha he) _ _⟩

/-- Only `openSession` opens a session. -/
theorem openings_append {e : Event} (he : e.opens = none) (hw : w'.log = w.log ++ [e])
    (id : SessionId) : w'.openings id = w.openings id := by
  simp [World.openings, hw, he]

theorem Untouched.of_eq (hs : w'.sessions = w.sessions) (ht : w'.timestamp = w.timestamp)
    (ho : ∀ id, w'.openings id = w.openings id)
    (hp : w'.pendingWithdrawal = w.pendingWithdrawal) : Untouched w w' :=
  ⟨hs, ht, ho, fun a => by rw [hp]⟩

/-- A step of the code touches nothing. -/
theorem isolated_act {ps : List Pc} : (w.act chain p).Keeps (fun _ => Untouched w) ps w := by
  have hself : Untouched w w := .of_eq rfl rfl (fun _ => rfl) rfl
  have hdefer : ∀ id payee tinybars paid,
      (w.defer id payee tinybars paid).Keeps (fun _ => Untouched w) ps w :=
    fun id payee tinybars paid => World.keeps_defer ⟨rfl, rfl, openings_append rfl rfl, fun a => by
      simp only [World.record, Function.update_apply]
      split_ifs with ha
      · exact ha ▸ Nat.le_add_right _ _
      · exact le_rfl⟩
  cases p with
  | payProvider sender id q | payRenter sender id q =>
    simp only [World.act]
    split_ifs with hpos
    · refine World.keeps_pay (fun w' hw => ?_) hself
      obtain ⟨-, rfl⟩ := World.transfer_some hw
      exact .of_eq rfl rfl (fun _ => rfl) rfl
    · exact hself
  | deferProvider | deferRenter => exact hdefer _ _ _ _
  | send payee tinybars =>
    simp only [World.act]
    split
    · rename_i w' hw
      obtain ⟨-, rfl⟩ := World.transfer_some hw
      exact ⟨.of_eq rfl rfl (fun _ => rfl) rfl, hself⟩
    · exact hself
  | withdrawFailed payee tinybars => trivial
  | settled | withdrawn => exact Untouched.of_eq rfl rfl (openings_append rfl rfl) rfl
  | finished => exact hself

end Isolation

/-! ### Solvency -/

/-- What the contract owes: to the sessions that are not settled, to the payees of held payouts, and
to those of the calls in progress. -/
def owed (c : Program.Config World Pc) : ℕ := c.state.deposits + c.state.pending + due c.points

section Solvency

variable {chain : Chain} {c : Program.Config World Pc}

theorem books_of_reachable (h : (escrowSystem chain).Reachable c) :
    Books chain c.points c.state :=
  ((booksOutline chain).holds_of_reachable h).state

/-- **The escrow is solvent.**  In every reachable state, whoever re-enters it, the balance covers
what is owed, and is no more than that unless something was sent by force; and a call or a step of
the contract's code touches no session but the call's, and takes from no held payout but the one
that its sender withdraws. -/
theorem escrow_solvent (h : (escrowSystem chain).Reachable c) :
    owed c ≤ c.state.balance ∧
    ((escrowSystem chain).Reach (Program.Only Happening.unforced) c → c.state.balance = owed c) ∧
    (∀ x w p, c.state.call chain x = some (w, p) →
      (∀ id, x.entry.session ≠ some id → w.sessions id = c.state.sessions id) ∧
      ∀ a, (x.entry = .withdraw → a ≠ x.sender) →
        w.pendingWithdrawal a = c.state.pendingWithdrawal a) ∧
    ∀ p, (c.state.act chain p).Keeps (fun _ => Untouched c.state) c.points c.state := by
  have hb := (books_of_reachable h).balance
  rw [owed]
  refine ⟨by omega, fun hu => ?_, fun x w p => isolated_call, fun p => isolated_act⟩
  have hf : c.state.forced = 0 := ((unforcedOutline chain).holds hu).state
  omega

end Solvency

/-- The deposit of the other session and the refused payout. -/
theorem solvent_settleReentered :
    ∃ c, (escrowSystem .small).Reachable c ∧ c.state.balance = 40 ∧ owed c = 40 := by
  obtain ⟨c, hc, hp⟩ := System.exists_reach (S := escrowSystem .small)
    (C := Program.Only Happening.unforced) (p := fun c => decide (c.state.balance = 40))
    settleReentered (by decide +kernel)
  have hb : c.state.balance = 40 := of_decide_eq_true hp
  exact ⟨c, hc.reachable, hb, (hb.symm.trans ((escrow_solvent hc.reachable).2.1 hc)).symm⟩

end SessionEscrow
end Mach402
