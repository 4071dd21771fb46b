import Mach402.Library.Reentry
import Mathlib.Data.Fintype.Basic
import Mathlib.Tactic.NormNum

/-!
# The escrow contract

`SessionEscrow.sol`: the renter's deposit for a session sits in the contract, and `settle` splits it
by elapsed time.  A payout that cannot be pushed is held for its payee to `withdraw`.

* `World`: the storage of the contract, its balance, and a record of what it has paid;
* `openSession`, `topUp`, `settle`, `withdraw`: the functions, up to their first transfer;
* `Pc`, `World.act`: the transfers they make, each of which hands control to the payee;
* `sessionEscrow`: all of it as a `Program`, which anyone may re-enter.

A `uint256` is a natural number here, and arithmetic is checked as Solidity checks it.
-/

namespace Mach402

/-- `address`. -/
def Address : Type := Fin (2 ^ 160)

/-- `bytes32`. -/
def SessionId : Type := Fin (2 ^ 256)

instance : DecidableEq Address := inferInstanceAs (DecidableEq (Fin _))
instance : Fintype Address := inferInstanceAs (Fintype (Fin _))
instance (n : ℕ) : OfNat Address n := inferInstanceAs (OfNat (Fin (2 ^ 160)) n)
instance : DecidableEq SessionId := inferInstanceAs (DecidableEq (Fin _))
instance : Fintype SessionId := inferInstanceAs (Fintype (Fin _))
instance (n : ℕ) : OfNat SessionId n := inferInstanceAs (OfNat (Fin (2 ^ 256)) n)

namespace SessionEscrow

/-- Why a call reverts. -/
inductive Revert
  | sessionExists
  | noSuchSession
  | alreadySettled
  | zeroAddress
  | zeroPrice
  | zeroDuration
  | wrongDeposit (expectedTinybars sentTinybars : ℕ)
  | nothingToWithdraw
  /-- Checked arithmetic over- or underflows. -/
  | panic
  deriving DecidableEq

/-! ### Checked arithmetic -/

/-- One more than the largest `uint256`. -/
def wordSize : ℕ := 2 ^ 256

/-- Checked addition. -/
def add (a b : ℕ) : Except Revert ℕ := if a + b < wordSize then .ok (a + b) else .error .panic

/-- Checked multiplication. -/
def mul (a b : ℕ) : Except Revert ℕ := if a * b < wordSize then .ok (a * b) else .error .panic

/-- Checked subtraction. -/
def sub (a b : ℕ) : Except Revert ℕ := if b ≤ a then .ok (a - b) else .error .panic

/-! ### Storage -/

/-- `Session`: what is stored for an id. -/
structure Session where
  renter : Address
  provider : Address
  pricePerSecond : ℕ
  startTime : ℕ
  duration : ℕ
  deposited : ℕ
  settled : Bool
  deriving DecidableEq

/-- What an unknown id reads as. -/
def Session.zero : Session where
  renter := 0
  provider := 0
  pricePerSecond := 0
  startTime := 0
  duration := 0
  deposited := 0
  settled := false

/-- What the contract emits. -/
inductive Event
  | sessionOpened (sessionId : SessionId) (renter provider : Address)
      (pricePerSecond duration deposited startTime : ℕ)
  | sessionToppedUp (sessionId : SessionId) (addedDuration newDuration newDeposited : ℕ)
  | sessionSettled (sessionId : SessionId) (elapsed providerAmount refundAmount : ℕ)
      (settledBy : Address)
  | payoutDeferred (payee : Address) (tinybars : ℕ)
  | withdrawn (payee : Address) (tinybars : ℕ)
  deriving DecidableEq

/-- The session that an event opens. -/
def Event.opens : Event → Option SessionId
  | .sessionOpened id .. => some id
  | _ => none

/-- A payout of a settlement: pushed to its payee, or held for them. -/
structure Payout where
  payee : Address
  tinybars : ℕ
  pushed : Bool
  deriving DecidableEq

/-- The state of the contract, and of the chain as far as it matters to it. -/
structure World where
  sessions : SessionId → Session
  pendingWithdrawal : Address → ℕ
  log : List Event
  balance : ℕ
  /-- What all other accounts hold. -/
  elsewhere : ℕ
  /-- `block.timestamp`. -/
  timestamp : ℕ
  /-- What has come in other than by a call. -/
  forced : ℕ
  /-- When each session was settled. -/
  settledAt : SessionId → ℕ
  /-- The payouts each settlement has made. -/
  payouts : SessionId → List Payout
  /-- What each address has withdrawn. -/
  withdrawals : Address → ℕ

/-- The openings of a session. -/
def World.openings (w : World) (id : SessionId) : List Event :=
  w.log.filter fun e => e.opens = some id

/-- Where the contract is deployed, and what all accounts hold together. -/
structure Chain where
  self : Address
  supply : ℕ
  supply_lt : supply < wordSize

/-- The contract, deployed. -/
def World.initial (chain : Chain) : World where
  sessions := fun _ => .zero
  pendingWithdrawal := fun _ => 0
  log := []
  balance := 0
  elsewhere := chain.supply
  timestamp := 0
  forced := 0
  settledAt := fun _ => 0
  payouts := fun _ => []
  withdrawals := fun _ => 0

/-! ### The functions -/

/-- How a deposit is split. -/
structure Split where
  elapsed : ℕ
  providerAmount : ℕ
  refundAmount : ℕ
  deriving DecidableEq

/-- The split at a time. -/
def Session.split (s : Session) (now : ℕ) : Except Revert Split :=
  match sub now s.startTime with
  | .error e => .error e
  | .ok sinceStart =>
    let elapsed := if s.duration < sinceStart then s.duration else sinceStart
    match mul s.pricePerSecond elapsed with
    | .error e => .error e
    | .ok providerAmount =>
      match sub s.deposited providerAmount with
      | .error e => .error e
      | .ok refundAmount => .ok { elapsed, providerAmount, refundAmount }

namespace World

/-- `openSession`: the value sent is the deposit. -/
def openSession (w : World) (sender : Address) (value : ℕ) (id : SessionId) (provider : Address)
    (pricePerSecond duration : ℕ) : Except Revert World :=
  if (w.sessions id).renter ≠ 0 then .error .sessionExists
  else if provider = 0 then .error .zeroAddress
  else if pricePerSecond = 0 then .error .zeroPrice
  else if duration = 0 then .error .zeroDuration
  else match mul pricePerSecond duration with
    | .error e => .error e
    | .ok owed =>
      if value ≠ owed then .error (.wrongDeposit owed value)
      else .ok { w with
        sessions := Function.update w.sessions id
          { renter := sender, provider, pricePerSecond, startTime := w.timestamp, duration
            deposited := value, settled := false }
        log := w.log ++
          [.sessionOpened id sender provider pricePerSecond duration value w.timestamp] }

/-- `topUp`: anyone may pay for more time. -/
def topUp (w : World) (value : ℕ) (id : SessionId) (addedDuration : ℕ) : Except Revert World :=
  let s := w.sessions id
  if s.renter = 0 then .error .noSuchSession
  else if s.settled then .error .alreadySettled
  else if addedDuration = 0 then .error .zeroDuration
  else match mul s.pricePerSecond addedDuration with
    | .error e => .error e
    | .ok owed =>
      if value ≠ owed then .error (.wrongDeposit owed value)
      else match add s.duration addedDuration with
        | .error e => .error e
        | .ok duration =>
          match add s.deposited value with
          | .error e => .error e
          | .ok deposited => .ok { w with
            sessions := Function.update w.sessions id { s with duration, deposited }
            log := w.log ++ [.sessionToppedUp id addedDuration duration deposited] }

/-- Up to the payouts. -/
def settle (w : World) (id : SessionId) : Except Revert (World × Split) :=
  let s := w.sessions id
  if s.renter = 0 then .error .noSuchSession
  else if s.settled then .error .alreadySettled
  else match s.split w.timestamp with
    | .error e => .error e
    | .ok q => .ok
      ({ w with
          sessions := Function.update w.sessions id { s with settled := true }
          settledAt := Function.update w.settledAt id w.timestamp }, q)

/-- `quoteSettlement`: what `settle` would pay now. -/
def quoteSettlement (w : World) (id : SessionId) : Except Revert Split :=
  if (w.sessions id).renter = 0 then .error .noSuchSession
  else (w.sessions id).split w.timestamp

/-- Up to the transfer. -/
def withdraw (w : World) (sender : Address) : Except Revert (World × ℕ) :=
  let amount := w.pendingWithdrawal sender
  if amount = 0 then .error .nothingToWithdraw
  else .ok ({ w with pendingWithdrawal := Function.update w.pendingWithdrawal sender 0 }, amount)

end World

/-! ### The transfers -/

/-- What a call does next. -/
inductive Pc
  | payProvider (sender : Address) (id : SessionId) (q : Split)
  | deferProvider (sender : Address) (id : SessionId) (q : Split) (payee : Address)
  | payRenter (sender : Address) (id : SessionId) (q : Split)
  | deferRenter (sender : Address) (id : SessionId) (q : Split) (payee : Address)
  | settled (sender : Address) (id : SessionId) (q : Split)
  | send (payee : Address) (tinybars : ℕ)
  | withdrawn (payee : Address) (tinybars : ℕ)
  | withdrawFailed (payee : Address) (tinybars : ℕ)
  | finished
  deriving DecidableEq

namespace World

/-- The value of a call to `payee` leaves the contract.  A call to the contract itself fails, since
it has no `receive`. -/
def transfer (chain : Chain) (w : World) (payee : Address) (tinybars : ℕ) : Option World :=
  if payee = chain.self ∨ w.balance < tinybars then none
  else some { w with balance := w.balance - tinybars, elsewhere := w.elsewhere + tinybars }

/-- Record a payout. -/
def record (w : World) (id : SessionId) (p : Payout) : World :=
  { w with payouts := Function.update w.payouts id (w.payouts id ++ [p]) }

/-- `_pay`, the push: the payee's code takes over.  If it fails, or the transfer does, the amount is
held for them at `deferred`. -/
def pay (chain : Chain) (w : World) (id : SessionId) (payee : Address) (tinybars : ℕ)
    (paid deferred : Pc) : Act World Pc :=
  match w.transfer chain payee tinybars with
  | some w' => .yield (w'.record id ⟨payee, tinybars, true⟩) paid deferred
  | none => .next w deferred

/-- `_pay`, once the push has failed. -/
def defer (w : World) (id : SessionId) (payee : Address) (tinybars : ℕ) (paid : Pc) :
    Act World Pc :=
  match add (w.pendingWithdrawal payee) tinybars with
  | .ok held =>
    let w' : World := { w with
      pendingWithdrawal := Function.update w.pendingWithdrawal payee held
      log := w.log ++ [.payoutDeferred payee tinybars] }
    .next (w'.record id ⟨payee, tinybars, false⟩) paid
  | .error _ => .revert

/-- The rest of `settle` and `withdraw`. -/
def act (chain : Chain) (w : World) : Pc → Act World Pc
  | .payProvider sender id q =>
    if 0 < q.providerAmount then
      -- the payee is read here, before the transfer
      let payee := (w.sessions id).provider
      w.pay chain id payee q.providerAmount (.payRenter sender id q)
        (.deferProvider sender id q payee)
    else .next w (.payRenter sender id q)
  | .deferProvider sender id q payee => w.defer id payee q.providerAmount (.payRenter sender id q)
  | .payRenter sender id q =>
    if 0 < q.refundAmount then
      let payee := (w.sessions id).renter
      w.pay chain id payee q.refundAmount (.settled sender id q) (.deferRenter sender id q payee)
    else .next w (.settled sender id q)
  | .deferRenter sender id q payee => w.defer id payee q.refundAmount (.settled sender id q)
  | .settled sender id q => .stop
    { w with
      log := w.log ++ [.sessionSettled id q.elapsed q.providerAmount q.refundAmount sender] }
  | .send payee tinybars =>
    match w.transfer chain payee tinybars with
    | some w' => .yield
      { w' with
        withdrawals := Function.update w'.withdrawals payee (w'.withdrawals payee + tinybars) }
      (.withdrawn payee tinybars) (.withdrawFailed payee tinybars)
    | none => .next w (.withdrawFailed payee tinybars)
  | .withdrawn payee tinybars => .stop { w with log := w.log ++ [.withdrawn payee tinybars] }
  -- `pendingWithdrawal` is restored, and then everything is
  | .withdrawFailed _ _ => .revert
  | .finished => .stop w

end World

/-! ### The program -/

/-- The external functions. -/
inductive Entry
  | openSession (id : SessionId) (provider : Address) (pricePerSecond duration : ℕ)
  | topUp (id : SessionId) (addedDuration : ℕ)
  | settle (id : SessionId)
  | withdraw
  deriving DecidableEq

/-- A call of the contract. -/
structure Call where
  sender : Address
  value : ℕ
  entry : Entry
  deriving DecidableEq

/-- The value of a call comes in. -/
def World.receive (w : World) (value : ℕ) : World :=
  { w with balance := w.balance + value, elsewhere := w.elsewhere - value }

/-- **A call.**  Nobody calls from address zero, and the contract does not call itself; the value is
the caller's to send, and the functions that are not payable refuse any. -/
def World.call (chain : Chain) (w : World) (c : Call) : Option (World × Pc) :=
  if c.sender = 0 ∨ c.sender = chain.self ∨ w.elsewhere < c.value then none
  else match c.entry with
    | .openSession id provider pricePerSecond duration =>
      ((w.receive c.value).openSession c.sender c.value id provider pricePerSecond
        duration).toOption.map fun w => (w, .finished)
    | .topUp id addedDuration =>
      ((w.receive c.value).topUp c.value id addedDuration).toOption.map fun w => (w, .finished)
    | .settle id =>
      if c.value ≠ 0 then none
      else (w.settle id).toOption.map fun (w, q) => (w, .payProvider c.sender id q)
    | .withdraw =>
      if c.value ≠ 0 then none
      else (w.withdraw c.sender).toOption.map fun (w, amount) => (w, .send c.sender amount)

/-- What happens other than by calls: HBAR is sent to the contract by force, and between two
transactions time passes. -/
inductive Happening
  | force (tinybars : ℕ)
  | advance (seconds : ℕ)
  deriving DecidableEq

/-- One thing that happens, if it can. -/
def World.happen (idle : Bool) (w : World) : Happening → Option World
  | .force tinybars =>
    if w.elsewhere < tinybars then none
    else some { w with
      balance := w.balance + tinybars
      elsewhere := w.elsewhere - tinybars
      forced := w.forced + tinybars }
  | .advance seconds =>
    if idle then some { w with timestamp := w.timestamp + seconds } else none

/-- **The contract** as a program. -/
def sessionEscrow (chain : Chain) : Program World Call Pc Happening where
  start := World.call chain
  act := World.act chain
  env := World.happen

/-- Its runs from the deployment. -/
abbrev escrowSystem (chain : Chain) := (sessionEscrow chain).system (World.initial chain)

/-- A chain of 1000 tinybars. -/
def Chain.small : Chain where
  self := 1
  supply := 1000
  supply_lt := by norm_num [wordSize]

/-- Two sessions are opened.  One is settled after five seconds; its provider has the other one
settled, whose provider refuses the payout, and then refuses their own, which undoes all of that. -/
def settleReentered : List (Program.Label Call Happening) :=
  [.call ⟨2, 20, .openSession 1 3 2 10⟩, .run, .call ⟨4, 30, .openSession 2 5 1 30⟩, .run,
    .env (.advance 5), .call ⟨9, 0, .settle 1⟩, .run,
    .call ⟨3, 0, .settle 2⟩, .run, .ret false, .run, .run, .ret true, .run,
    .ret false, .run, .run, .ret true, .run]

/-! ### What the functions do -/

section Spec

variable {w w' : World} {id : SessionId}

theorem toOption_some {α : Type} {x : Except Revert α} {a : α} (h : x.toOption = some a) :
    x = .ok a := by
  cases x <;> cases h
  rfl

theorem mul_ok {a b n : ℕ} (h : mul a b = .ok n) : n = a * b := by
  unfold mul at h
  split_ifs at h
  cases h
  rfl

theorem add_ok {a b n : ℕ} (h : add a b = .ok n) : n = a + b := by
  unfold add at h
  split_ifs at h
  cases h
  rfl

theorem sub_ok {a b n : ℕ} (h : sub a b = .ok n) : n + b = a := by
  unfold sub at h
  split_ifs at h
  cases h
  omega

/-- The split is the one of a deposit for a session that ends at `now`. -/
structure Split.Exact (q : Split) (s : Session) (now : ℕ) : Prop where
  started : s.startTime ≤ now
  elapsed : q.elapsed = min (now - s.startTime) s.duration
  provider : q.providerAmount = s.pricePerSecond * q.elapsed
  refund : q.providerAmount + q.refundAmount = s.deposited

theorem Session.split_ok {s : Session} {now : ℕ} {q : Split} (h : s.split now = .ok q) :
    q.Exact s now := by
  unfold split at h
  split at h
  · cases h
  · rename_i sinceStart hsince
    have hsince := sub_ok hsince
    dsimp only at h
    split at h
    · cases h
    · rename_i providerAmount hpa
      split at h
      · cases h
      · rename_i refundAmount hra
        cases h
        have hra := sub_ok hra
        refine ⟨by omega, ?_, mul_ok hpa, ?_⟩
        · dsimp only
          split_ifs <;> omega
        · dsimp only
          omega

theorem World.openSession_ok {sender provider : Address} {value pricePerSecond duration : ℕ}
    (h : w.openSession sender value id provider pricePerSecond duration = .ok w') :
    (w.sessions id).renter = 0 ∧ value = pricePerSecond * duration ∧
      w' = { w with
        sessions := Function.update w.sessions id
          { renter := sender, provider, pricePerSecond, startTime := w.timestamp, duration
            deposited := value, settled := false }
        log := w.log ++
          [.sessionOpened id sender provider pricePerSecond duration value w.timestamp] } := by
  unfold openSession at h
  split_ifs at h with hr hp hprice hd
  split at h
  · cases h
  · rename_i owed howed
    split_ifs at h with hv
    cases h
    exact ⟨not_not.1 hr, (not_not.1 hv).trans (mul_ok howed), rfl⟩

theorem World.topUp_ok {value addedDuration : ℕ} (h : w.topUp value id addedDuration = .ok w') :
    (w.sessions id).renter ≠ 0 ∧ (w.sessions id).settled = false ∧
      value = (w.sessions id).pricePerSecond * addedDuration ∧
      w' = { w with
        sessions := Function.update w.sessions id { w.sessions id with
          duration := (w.sessions id).duration + addedDuration
          deposited := (w.sessions id).deposited + value }
        log := w.log ++ [.sessionToppedUp id addedDuration
          ((w.sessions id).duration + addedDuration) ((w.sessions id).deposited + value)] } := by
  unfold topUp at h
  dsimp only at h
  split_ifs at h with hr hs hd
  split at h
  · cases h
  · rename_i owed howed
    split_ifs at h with hv
    split at h
    · cases h
    · rename_i duration hdur
      split at h
      · cases h
      · rename_i deposited hdep
        cases h
        obtain rfl := add_ok hdur
        obtain rfl := add_ok hdep
        exact ⟨hr, by simpa using hs, (not_not.1 hv).trans (mul_ok howed), rfl⟩

theorem World.settle_ok {q : Split} (h : w.settle id = .ok (w', q)) :
    (w.sessions id).renter ≠ 0 ∧ (w.sessions id).settled = false ∧
      (w.sessions id).split w.timestamp = .ok q ∧
      w' = { w with
        sessions := Function.update w.sessions id { w.sessions id with settled := true }
        settledAt := Function.update w.settledAt id w.timestamp } := by
  unfold settle at h
  dsimp only at h
  split_ifs at h with hr hs
  split at h
  · cases h
  · rename_i q' hq
    cases h
    exact ⟨hr, by simpa using hs, hq, rfl⟩

/-- The quote is what `settle` pays. -/
theorem World.quoteSettlement_of_settle {q : Split} (h : w.settle id = .ok (w', q)) :
    w.quoteSettlement id = .ok q := by
  obtain ⟨hr, -, hq, -⟩ := settle_ok h
  rw [quoteSettlement, if_neg hr, hq]

theorem World.withdraw_ok {sender : Address} {amount : ℕ}
    (h : w.withdraw sender = .ok (w', amount)) :
    amount = w.pendingWithdrawal sender ∧
      w' = { w with pendingWithdrawal := Function.update w.pendingWithdrawal sender 0 } := by
  unfold withdraw at h
  dsimp only at h
  split_ifs at h
  cases h
  exact ⟨rfl, rfl⟩

theorem World.transfer_some {chain : Chain} {payee : Address} {tinybars : ℕ}
    (h : w.transfer chain payee tinybars = some w') :
    tinybars ≤ w.balance ∧ w' = { w with
      balance := w.balance - tinybars
      elsewhere := w.elsewhere + tinybars } := by
  unfold transfer at h
  split_ifs at h with hc
  cases h
  exact ⟨by omega, rfl⟩

theorem World.happen_some {idle : Bool} {e : Happening} (h : w.happen idle e = some w') :
    (∃ tinybars, e = .force tinybars ∧ tinybars ≤ w.elsewhere ∧ w' = { w with
      balance := w.balance + tinybars
      elsewhere := w.elsewhere - tinybars
      forced := w.forced + tinybars }) ∨
    ∃ seconds, w' = { w with timestamp := w.timestamp + seconds } := by
  cases e with
  | force tinybars =>
    simp only [happen] at h
    split_ifs at h with hlt
    cases h
    exact Or.inl ⟨tinybars, rfl, not_lt.1 hlt, rfl⟩
  | advance seconds =>
    simp only [happen] at h
    split_ifs at h
    cases h
    exact Or.inr ⟨seconds, rfl⟩

/-- **What a call does**, if it does not revert at once. -/
inductive Called (w : World) (c : Call) : World → Pc → Prop
  | openSession (id : SessionId) (provider : Address) (pricePerSecond duration : ℕ) {w₁ : World} :
      c.entry = .openSession id provider pricePerSecond duration → c.sender ≠ 0 →
      (w.receive c.value).openSession c.sender c.value id provider pricePerSecond duration =
        .ok w₁ → Called w c w₁ .finished
  | topUp (id : SessionId) (addedDuration : ℕ) {w₁ : World} : c.entry = .topUp id addedDuration →
      (w.receive c.value).topUp c.value id addedDuration = .ok w₁ → Called w c w₁ .finished
  | settle (id : SessionId) {w₁ : World} {q : Split} : c.entry = .settle id →
      w.settle id = .ok (w₁, q) → Called w c w₁ (.payProvider c.sender id q)
  | withdraw {w₁ : World} {amount : ℕ} : c.entry = .withdraw →
      w.withdraw c.sender = .ok (w₁, amount) → Called w c w₁ (.send c.sender amount)

theorem called_of_call {chain : Chain} {c : Call} {p : Pc} (h : w.call chain c = some (w', p)) :
    c.value ≤ w.elsewhere ∧ Called w c w' p := by
  by_cases hc : c.sender = 0 ∨ c.sender = chain.self ∨ w.elsewhere < c.value
  · rw [World.call, if_pos hc] at h
    cases h
  rw [World.call, if_neg hc] at h
  obtain ⟨hsender, -, hvalue⟩ : c.sender ≠ 0 ∧ c.sender ≠ chain.self ∧
      ¬ w.elsewhere < c.value := by simpa only [not_or] using hc
  refine ⟨not_lt.1 hvalue, ?_⟩
  split at h
  · rename_i id provider pricePerSecond duration he
    obtain ⟨w₁, hw, heq⟩ := Option.map_eq_some_iff.1 h
    cases heq
    exact .openSession id provider pricePerSecond duration he hsender (toOption_some hw)
  · rename_i id addedDuration he
    obtain ⟨w₁, hw, heq⟩ := Option.map_eq_some_iff.1 h
    cases heq
    exact .topUp id addedDuration he (toOption_some hw)
  · rename_i id he
    split_ifs at h
    obtain ⟨⟨w₁, q⟩, hw, heq⟩ := Option.map_eq_some_iff.1 h
    cases heq
    exact .settle id he (toOption_some hw)
  · rename_i he
    split_ifs at h
    obtain ⟨⟨w₁, amount⟩, hw, heq⟩ := Option.map_eq_some_iff.1 h
    cases heq
    exact .withdraw he (toOption_some hw)

/-- The rule of a push: it moves the tinybars, or goes on to hold them. -/
theorem World.keeps_pay {chain : Chain} {I : List Pc → World → Prop} {ps : List Pc}
    {payee : Address} {tinybars : ℕ} {paid deferred : Pc}
    (hpush : ∀ w', w.transfer chain payee tinybars = some w' →
      I (paid :: ps) (w'.record id ⟨payee, tinybars, true⟩)) (hdefer : I (deferred :: ps) w) :
    (w.pay chain id payee tinybars paid deferred).Keeps I ps w := by
  unfold pay
  split
  · rename_i w' hw
    exact ⟨hpush w' hw, hdefer⟩
  · exact hdefer

/-- The rule of a payout that is held. -/
theorem World.keeps_defer {I : List Pc → World → Prop} {ps : List Pc} {payee : Address}
    {tinybars : ℕ} {paid : Pc}
    (h : I (paid :: ps) (World.record { w with
      pendingWithdrawal := Function.update w.pendingWithdrawal payee
        (w.pendingWithdrawal payee + tinybars)
      log := w.log ++ [.payoutDeferred payee tinybars] } id ⟨payee, tinybars, false⟩)) :
    (w.defer id payee tinybars paid).Keeps I ps w := by
  unfold defer
  split
  · rename_i held hheld
    obtain rfl := add_ok hheld
    exact h
  · trivial

end Spec

end SessionEscrow
end Mach402
