import Mach402.Library.Threads

/-!
# Payments of the MCP server

The tools by which an agent spends: `open_session`, `top_up_session` and `confirm_payment`.  A call
asks the node for a quote, checks it against the daily cap and the confirmation threshold, and pays
the challenge that the node answers a later request with, or leaves a hold for `confirm_payment`.

* `World.checkDailyCap`, `needsConfirmation`, `World.holdForConfirmation`, `World.takeConfirmed`:
  `safety/limits.ts`;
* `acceptable`: the policy of the paying fetch;
* `Pc`, `act`: the tools, from one `await` to the next;
* `mcpServer`: any number of calls, that overlap in any order, against nodes that answer anything;
* `Acts`, `acts`: what a tool does next.

Amounts are integers, since `BigInt` reads them so; times are milliseconds since the epoch.
-/

namespace Mach402
namespace McpServer

/-! ### Configuration -/

/-- The limits that an operator sets. -/
structure McpConfig where
  network : String
  maxTinybarsPerPayment : ℤ
  /-- `null` is no cap. -/
  maxTinybarsPerDay : Option ℤ
  /-- `null` is never to pause. -/
  confirmAboveTinybars : Option ℤ
  /-- `loadConfig` refuses a threshold above the cap on a payment. -/
  confirm_le : ∀ t, confirmAboveTinybars = some t → t ≤ maxTinybarsPerPayment

/-! ### The limits -/

/-- What is paid for, once it has been confirmed. -/
inductive PendingAction
  | openSession (nodeUrl : String) (seconds : ℕ) (requireGpu : Option Bool) (localPort : Option ℕ)
  | topUpSession (nodeUrl sessionId token : String)
  deriving DecidableEq

/-- A payment that waits for its confirmation. -/
structure ConfirmationHold where
  id : ℕ
  amountTinybars : ℤ
  action : PendingAction
  expiresAt : ℕ
  /-- A record of how many payments had been charged when the cap was checked. -/
  chargedAtCheck : ℕ
  deriving DecidableEq

/-- A line of the spend ledger.  An amount that is not a numeral is none. -/
structure SpendRecord where
  amountTinybars : Option ℤ
  paidAt : ℕ
  deriving DecidableEq

/-- A payment that has been signed and sent, and the hold that the call has taken, if any. -/
structure Payment where
  amountTinybars : ℤ
  action : PendingAction
  hold : Option ConfirmationHold
  deriving DecidableEq

/-- The server's memory and its ledger, and a record of what it has done. -/
structure World where
  /-- `Date.now()`. -/
  now : ℕ
  ledger : List SpendRecord
  holds : List ConfirmationHold
  /-- `randomUUID` does not repeat. -/
  nextId : ℕ
  /-- The holds that have been left. -/
  issued : List ConfirmationHold
  /-- The holds that have been taken, and when. -/
  taken : List (ConfirmationHold × ℕ)
  sent : List Payment
  /-- What nodes have settled. -/
  charged : List ℤ
  deriving DecidableEq

/-- How long a payment waits. -/
def confirmationTtlMs : ℕ := 5 * 60 * 1000

/-- The UTC day of a time. -/
def utcDay (t : ℕ) : ℕ := t / 86400000

namespace World

/-- What the ledger shows for a day, if all its amounts are numerals. -/
def spentOn (w : World) (day : ℕ) : Option ℤ :=
  (w.ledger.filter fun r => utcDay r.paidAt = day).foldl
    (fun sum r => sum.bind fun n => r.amountTinybars.map fun a => n + a) (some 0)

/-- Whether the check passes: it throws when the payment would exceed the cap, or the ledger cannot
be read. -/
def checkDailyCap (config : McpConfig) (w : World) (amountTinybars : ℤ) : Bool :=
  match config.maxTinybarsPerDay with
  | none => true
  | some cap =>
    match w.spentOn (utcDay w.now) with
    | none => false
    | some spentToday => decide (spentToday + amountTinybars ≤ cap)

/-- The holds that have not expired. -/
def sweepExpired (w : World) : World :=
  { w with holds := w.holds.filter fun h => w.now ≤ h.expiresAt }

/-- `holdForConfirmation`: expired ones are swept first. -/
def holdForConfirmation (w : World) (amountTinybars : ℤ) (action : PendingAction) : World :=
  let h : ConfirmationHold :=
    { id := w.nextId, amountTinybars, action, expiresAt := w.now + confirmationTtlMs
      chargedAtCheck := w.charged.length }
  { w.sweepExpired with
    holds := w.sweepExpired.holds ++ [h]
    nextId := w.nextId + 1
    issued := w.issued ++ [h] }

/-- The hold that `takeConfirmedAction` finds. -/
def findHold (w : World) (id : ℕ) : Option ConfirmationHold :=
  w.sweepExpired.holds.find? fun h => h.id = id

/-- A hold is taken. -/
def takeConfirmed (w : World) (h : ConfirmationHold) : World :=
  { w.sweepExpired with
    holds := w.sweepExpired.holds.filter fun h' => h'.id ≠ h.id
    taken := w.taken ++ [(h, w.now)] }

/-- `recordSpend`.  It never throws. -/
def recordSpend (w : World) (amountTinybars : Option ℤ) (written : Bool) : World :=
  if written then { w with ledger := w.ledger ++ [⟨amountTinybars, w.now⟩] } else w

end World

/-- `needsConfirmation`: above the threshold, if there is one. -/
def needsConfirmation (config : McpConfig) (amountTinybars : ℤ) : Bool :=
  match config.confirmAboveTinybars with
  | none => false
  | some t => decide (t < amountTinybars)

/-! ### The paying fetch -/

/-- What the checks read of a way to pay. -/
structure PaymentRequirements where
  network : String
  asset : String
  amount : Option ℤ
  deriving DecidableEq

/-- The asset's id of HBAR. -/
def hbarAssetId : String := "0.0.0"

/-- A way to pay within the limit of one payment. -/
def acceptable (config : McpConfig) (option : PaymentRequirements) : Bool :=
  if option.network ≠ config.network then false
  else if option.asset ≠ hbarAssetId then false
  else match option.amount with
    | none => false
    | some amount => decide (amount ≤ config.maxTinybarsPerPayment)

/-! ### The tools -/

/-- A record of what a call was let through with: the quote, the number of payments charged when it
was checked, and the hold that it has taken. -/
structure Gate where
  quoted : ℤ
  chargedAtCheck : ℕ
  hold : Option ConfirmationHold
  deriving DecidableEq

/-- Where a tool waits.  `requoted` is the quote that a top-up records. -/
inductive Pc
  | quote (action : PendingAction)
  | confirm (id : ℕ)
  | requote (action : PendingAction) (gate : Gate)
  | challenge (action : PendingAction) (gate : Gate) (requoted : Option ℤ)
  | sent (action : PendingAction) (gate : Gate) (requoted : Option ℤ) (amount : ℤ)
  | charged (action : PendingAction) (gate : Gate) (requoted : Option ℤ) (amount : ℤ)
  | done
  deriving DecidableEq

/-- What a request comes back with. -/
inductive Outcome
  /-- A quote.  One without an amount is of zero. -/
  | quoted (amount : ℤ)
  /-- A challenge, with the requirement that is paid if one is acceptable. -/
  | challenged (option : PaymentRequirements)
  /-- The node settles the payment. -/
  | settles
  /-- A response with a settlement; whether the ledger can be written. -/
  | answered (amountTinybars : Option ℤ) (written : Bool)
  /-- Anything else: the tool throws. -/
  | failed
  /-- The call goes on by itself. -/
  | go
  deriving DecidableEq

/-- What a step does to the server. -/
inductive Op
  | skip
  | hold (amount : ℤ) (action : PendingAction)
  | sweep
  | take (h : ConfirmationHold)
  | send (p : Payment)
  | charge (amount : ℤ)
  | record (amount : Option ℤ) (written : Bool)
  deriving DecidableEq

/-- `performOpenSession` and `performTopUp`, up to the first request. -/
def perform (action : PendingAction) (gate : Gate) : Pc :=
  match action with
  | .openSession .. => .challenge action gate none
  | .topUpSession .. => .requote action gate

/-- A top-up records its own quote, an opening what the node says. -/
def recorded (requoted answered : Option ℤ) : Option ℤ :=
  match requoted with
  | some amount => some amount
  | none => answered

/-- A quote is checked, and held or paid. -/
def decideQuote (config : McpConfig) (w : World) (action : PendingAction) (amount : ℤ) : Op × Pc :=
  if w.checkDailyCap config amount then
    if needsConfirmation config amount then (.hold amount action, .done)
    else (.skip, perform action ⟨amount, w.charged.length, none⟩)
  else (.skip, .done)

/-- `confirm_payment`. -/
def confirmPayment (w : World) (id : ℕ) : Op × Pc :=
  match w.findHold id with
  | none => (.sweep, .done)
  | some h => (.take h, perform h.action ⟨h.amountTinybars, h.chargedAtCheck, some h⟩)

/-- A challenge is paid, if it is acceptable. -/
def pay (config : McpConfig) (action : PendingAction) (gate : Gate) (requoted : Option ℤ)
    (option : PaymentRequirements) : Op × Pc :=
  match option.amount with
  | none => (.skip, .done)
  | some amount =>
    if acceptable config option then
      (.send ⟨amount, action, gate.hold⟩, .sent action gate requoted amount)
    else (.skip, .done)

/-- One step of a call, and where it goes on. -/
def act (config : McpConfig) (w : World) : Pc → Outcome → Option (Op × Pc)
  | .quote action, .quoted amount => some (decideQuote config w action amount)
  | .quote _, .failed => some (.skip, .done)
  | .confirm id, .go => some (confirmPayment w id)
  | .requote action gate, .quoted amount => some (.skip, .challenge action gate (some amount))
  | .requote _ _, .failed => some (.skip, .done)
  | .challenge action gate requoted, .challenged option =>
    some (pay config action gate requoted option)
  -- a settlement that nobody has paid for
  | .challenge _ _ requoted, .answered amount written =>
    some (.record (recorded requoted amount) written, .done)
  | .challenge _ _ _, .failed => some (.skip, .done)
  | .sent action gate requoted amount, .settles =>
    some (.charge amount, .charged action gate requoted amount)
  | .sent _ _ requoted _, .answered amount written =>
    some (.record (recorded requoted amount) written, .done)
  | .sent _ _ _ _, .failed => some (.skip, .done)
  | .charged _ _ requoted _, .answered amount written =>
    some (.record (recorded requoted amount) written, .done)
  | .charged _ _ _ _, .failed => some (.skip, .done)
  | _, _ => none

/-- What it does. -/
def World.apply (w : World) : Op → World
  | .skip => w
  | .hold amount action => w.holdForConfirmation amount action
  | .sweep => w.sweepExpired
  | .take h => w.takeConfirmed h
  | .send p => { w with sent := w.sent ++ [p] }
  | .charge amount => { w with charged := w.charged ++ [amount] }
  | .record amount written => w.recordSpend amount written

/-- A call of a tool. -/
inductive Tool
  | openSession (nodeUrl : String) (seconds : ℕ) (requireGpu : Option Bool) (localPort : Option ℕ)
  | topUpSession (nodeUrl sessionId token : String)
  | confirmPayment (id : ℕ)
  deriving DecidableEq

/-- Where a tool's call begins. -/
def Tool.start : Tool → Pc
  | .openSession nodeUrl seconds requireGpu localPort =>
    .quote (.openSession nodeUrl seconds requireGpu localPort)
  | .topUpSession nodeUrl sessionId token => .quote (.topUpSession nodeUrl sessionId token)
  | .confirmPayment id => .confirm id

/-- **The server.**  The environment lets time pass. -/
def mcpServer (config : McpConfig) : Machine World Op Pc Outcome Tool ℕ where
  act := act config
  apply := World.apply
  start := Tool.start
  env w ms := { w with now := w.now + ms }

/-- The server and the calls under way. -/
abbrev Config : Type := Machine.Config World Pc

/-- What happens. -/
abbrev Label : Type := Machine.Label Outcome Tool ℕ

/-- A server that starts at a time, with what its ledger already shows. -/
def World.initial (now : ℕ) (ledger : List SpendRecord) : World where
  now := now
  ledger := ledger
  holds := []
  nextId := 0
  issued := []
  taken := []
  sent := []
  charged := []

/-- Its runs. -/
abbrev serverSystem (config : McpConfig) (now : ℕ) (ledger : List SpendRecord) :
    System Config Label :=
  (mcpServer config).system (World.initial now ledger)

/-- The default cap on a payment, and a threshold of 50 tinybars. -/
def McpConfig.sample (cap : Option ℤ) : McpConfig where
  network := "hedera:testnet"
  maxTinybarsPerPayment := 10000000
  maxTinybarsPerDay := cap
  confirmAboveTinybars := some 50
  confirm_le t ht := by cases ht; decide

/-- HBAR on the testnet. -/
def hbar (amount : ℤ) : PaymentRequirements := ⟨"hedera:testnet", hbarAssetId, some amount⟩

/-- The gate of a call, if it is past it. -/
def Pc.gate : Pc → Option (PendingAction × Gate)
  | .requote action gate => some (action, gate)
  | .challenge action gate _ => some (action, gate)
  | .sent action gate _ _ => some (action, gate)
  | .charged action gate _ _ => some (action, gate)
  | .quote _ | .confirm _ | .done => none

@[simp] theorem perform_gate (action : PendingAction) (gate : Gate) :
    (perform action gate).gate = some (action, gate) := by
  cases action <;> rfl

/-- A payment has been charged and is not in the ledger yet. -/
def Pc.unrecorded : Pc → Bool
  | .charged _ _ _ _ => true
  | _ => false

/-! ### What the tools do -/

/-- One action of a tool, with what it has found. -/
inductive Acts (config : McpConfig) (w : World) : Pc → Outcome → Op → Pc → Prop
  | held {action : PendingAction} {amount : ℤ} (hcap : w.checkDailyCap config amount)
      (hneeds : needsConfirmation config amount) :
      Acts config w (.quote action) (.quoted amount) (.hold amount action) .done
  | direct {action : PendingAction} {amount : ℤ} (hcap : w.checkDailyCap config amount)
      (hneeds : ¬ needsConfirmation config amount) :
      Acts config w (.quote action) (.quoted amount) .skip
        (perform action ⟨amount, w.charged.length, none⟩)
  | swept {id : ℕ} : Acts config w (.confirm id) .go .sweep .done
  | taken {id : ℕ} {h : ConfirmationHold} (hfind : w.findHold id = some h) :
      Acts config w (.confirm id) .go (.take h)
        (perform h.action ⟨h.amountTinybars, h.chargedAtCheck, some h⟩)
  | requoted {action : PendingAction} {gate : Gate} {amount : ℤ} :
      Acts config w (.requote action gate) (.quoted amount) .skip
        (.challenge action gate (some amount))
  | paid {action : PendingAction} {gate : Gate} {requoted : Option ℤ}
      {option : PaymentRequirements} {amount : ℤ} (hamount : option.amount = some amount)
      (hacc : acceptable config option) :
      Acts config w (.challenge action gate requoted) (.challenged option)
        (.send ⟨amount, action, gate.hold⟩) (.sent action gate requoted amount)
  | settled {action : PendingAction} {gate : Gate} {requoted : Option ℤ} {amount : ℤ} :
      Acts config w (.sent action gate requoted amount) .settles (.charge amount)
        (.charged action gate requoted amount)
  | answered {p : Pc} {requoted amount : Option ℤ} {written : Bool}
      (hp : (∃ action gate, p = .challenge action gate requoted) ∨
        (∃ action gate a, p = .sent action gate requoted a) ∨
        ∃ action gate a, p = .charged action gate requoted a) :
      Acts config w p (.answered amount written) (.record (recorded requoted amount) written) .done
  | stopped {p : Pc} {o : Outcome} (hstop : o = .failed ∨ p.unrecorded = false) :
      Acts config w p o .skip .done

variable {config : McpConfig} {w : World} {p p' : Pc} {o : Outcome} {op : Op}

theorem decideQuote_acts (config : McpConfig) (w : World) (action : PendingAction) (amount : ℤ) :
    Acts config w (.quote action) (.quoted amount) (decideQuote config w action amount).1
      (decideQuote config w action amount).2 := by
  unfold decideQuote
  split_ifs with hcap hneeds
  · exact .held hcap hneeds
  · exact .direct hcap hneeds
  · exact .stopped (Or.inr rfl)

theorem confirmPayment_acts (config : McpConfig) (w : World) (id : ℕ) :
    Acts config w (.confirm id) .go (confirmPayment w id).1 (confirmPayment w id).2 := by
  unfold confirmPayment
  split
  · exact .swept
  · next h hfind => exact .taken hfind

theorem pay_acts (config : McpConfig) (w : World) (action : PendingAction) (gate : Gate)
    (requoted : Option ℤ) (option : PaymentRequirements) :
    Acts config w (.challenge action gate requoted) (.challenged option)
      (pay config action gate requoted option).1 (pay config action gate requoted option).2 := by
  unfold pay
  split
  · exact .stopped (Or.inr rfl)
  · next amount hamount =>
    split_ifs with hacc
    · exact .paid hamount hacc
    · exact .stopped (Or.inr rfl)

/-- **What a tool does next.** -/
theorem acts_of_act (h : act config w p o = some (op, p')) : Acts config w p o op p' := by
  cases p with
  | quote action =>
    cases o with
    | quoted amount =>
      have hacts := decideQuote_acts config w action amount
      rwa [Option.some.inj h] at hacts
    | failed => cases h; exact .stopped (Or.inl rfl)
    | challenged | settles | answered | go => cases h
  | confirm id =>
    cases o with
    | go =>
      have hacts := confirmPayment_acts config w id
      rwa [Option.some.inj h] at hacts
    | quoted | failed | challenged | settles | answered => cases h
  | requote action gate =>
    cases o with
    | quoted amount => cases h; exact .requoted
    | failed => cases h; exact .stopped (Or.inl rfl)
    | challenged | settles | answered | go => cases h
  | challenge action gate requoted =>
    cases o with
    | challenged option =>
      have hacts := pay_acts config w action gate requoted option
      rwa [Option.some.inj h] at hacts
    | answered amount written => cases h; exact .answered (Or.inl ⟨action, gate, rfl⟩)
    | failed => cases h; exact .stopped (Or.inl rfl)
    | quoted | settles | go => cases h
  | sent action gate requoted amount =>
    cases o with
    | settles => cases h; exact .settled
    | answered =>
      cases h
      exact .answered (Or.inr (Or.inl ⟨action, gate, amount, rfl⟩))
    | failed => cases h; exact .stopped (Or.inl rfl)
    | quoted | challenged | go => cases h
  | charged action gate requoted amount =>
    cases o with
    | answered =>
      cases h
      exact .answered (Or.inr (Or.inr ⟨action, gate, amount, rfl⟩))
    | failed => cases h; exact .stopped (Or.inl rfl)
    | quoted | challenged | settles | go => cases h
  | done => cases h

end McpServer
end Mach402
