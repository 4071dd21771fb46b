import Mach402.McpServer.DailyCap
import Mach402.Library.Ecma

/-!
# The spend ledger

A payment is recorded with a figure of the node's: an opening with what the body of the response
says, a top-up with what the node has quoted for it.  What is signed is the amount of a challenge,
which is a third figure.

* `quoteAmount`, `answer`: what the tools read of the node's answers, of any shape;
* `Talk`, `Talk.recorded_iff`: a call records what it has signed just if the two figures agree;
* `Truthful`, `Writes`: the nodes for which they do, and what their runs record;
* `ledger_exact`: in those runs the ledger is exact, and can be read.
-/

namespace Mach402
namespace McpServer

open Ecma

/-! ### What a node answers -/

/-- `BigInt(quote.accepts[0]?.amount ?? "0")`; `none` if it throws. -/
def quoteAmount (quote : Value) : Option ℤ :=
  match quote, quote.get "accepts" with
  | .null, _ => none
  | _, none => none
  | _, some .null => none
  | _, some accepts =>
    match accepts.first.bind (Value.get "amount") with
    | none => some 0
    | some .null => some 0
    | some amount => amount.bigInt

/-- The response to a request that pays. -/
structure Reply where
  ok : Bool
  /-- Whether its settlement header reports a success. -/
  settlement : Option Bool
  /-- `none` is a body that is not JSON. -/
  body : Option Value

/-- What the body of the response to an opening says that was paid. -/
def Reply.figure (reply : Reply) : Option ℤ :=
  (reply.body.bind (Value.get "amount_tinybars")).bind Value.bigInt

/-- `payFor`, and what the tool does with its result up to `recordSpend`. -/
def answer (action : PendingAction) (reply : Reply) (written : Bool) : Outcome :=
  if reply.ok = false ∨ reply.settlement ≠ some true then .failed
  else match reply.body with
    | none => .failed
    | some body =>
      match action with
      | .topUpSession .. => .answered none written
      | .openSession .. =>
        -- `saveCertificate` trims the certificate
        match body.get "certificate" with
        | some (.string _) => .answered reply.figure written
        | _ => .failed

/-! ### One call -/

/-- What a node answers a call with that is past the gate: the quote of a top-up, the challenge,
whether it settles the payment, and the response. -/
structure Talk where
  quote : Value
  challenge : PaymentRequirements
  settles : Bool
  reply : Reply
  written : Bool

namespace Talk

/-- What the call makes of it. -/
def outcomes (t : Talk) (action : PendingAction) : List Outcome :=
  (match action with
    | .openSession .. => []
    | .topUpSession .. => [(quoteAmount t.quote).elim .failed .quoted]) ++
  .challenged t.challenge :: (if t.settles then [.settles] else []) ++
  [answer action t.reply t.written]

/-- The figure that is recorded for the payment. -/
def figure (t : Talk) : PendingAction → Option ℤ
  | .openSession .. => t.reply.figure
  | .topUpSession .. => quoteAmount t.quote

end Talk

section Talk

variable {config : McpConfig} {w w' : World} {action : PendingAction} {gate : Gate} {p p' : Pc}
  {requoted : Option ℤ} {amount : ℤ}

/-- What a record stands for, and what has been signed. -/
structure Records (w w' : World) (requoted : Option ℤ) (o : Outcome) : Prop where
  sent : w'.sent = w.sent
  ledger : w'.ledger = w.ledger ∨ ∃ answered, o = .answered answered true ∧
    w'.ledger = w.ledger ++ [⟨recorded requoted answered, w.now⟩]

/-- The answer to a payment. -/
theorem records_answer (hp : p = .sent action gate requoted amount ∨
      p = .charged action gate requoted amount) {o : Outcome} (ho : o ≠ .settles)
    (h : (mcpServer config).alone w p [o] = some (w', p')) : Records w w' requoted o := by
  obtain ⟨⟨op, q⟩, ha, hw⟩ := Option.bind_eq_some_iff.1 h
  cases hw
  change act config w p o = some (op, q) at ha
  have hanswered : ∀ answered written, op = .record (recorded requoted answered) written →
      Records w (w.apply op) requoted (.answered answered written) := by
    rintro answered written rfl
    cases written with
    | false => exact ⟨rfl, Or.inl rfl⟩
    | true => exact ⟨rfl, Or.inr ⟨answered, rfl, rfl⟩⟩
  cases o with
  | settles => exact absurd rfl ho
  | answered answered written =>
    refine hanswered answered written ?_
    rcases hp with rfl | rfl <;> cases ha <;> rfl
  | failed =>
    have hskip : op = .skip := by rcases hp with rfl | rfl <;> cases ha <;> rfl
    rw [hskip]
    exact ⟨rfl, Or.inl rfl⟩
  | quoted | challenged | go => rcases hp with rfl | rfl <;> cases ha

/-- A challenge that is paid, or not, settled, or not, and answered. -/
theorem records_challenge {t : Talk} {o : Outcome} (ho : o ≠ .settles)
    (h : (mcpServer config).alone w (.challenge action gate requoted)
      (.challenged t.challenge :: (if t.settles then [.settles] else []) ++ [o]) = some (w', p')) :
    ∃ amount, t.challenge.amount = some amount ∧
      Records { w with sent := w.sent ++ [⟨amount, action, gate.hold⟩] } w' requoted o := by
  obtain ⟨⟨op, q⟩, ha, h⟩ := Option.bind_eq_some_iff.1 h
  have hdone : ∀ w, (mcpServer config).alone w .done
      ((if t.settles then [.settles] else []) ++ [o]) ≠ some (w', p') := by
    intro w
    split_ifs <;> exact nofun
  change some (pay config action gate requoted t.challenge) = some (op, q) at ha
  unfold pay at ha
  split at ha
  · cases ha
    exact absurd h (hdone _)
  · rename_i amount hamount
    split_ifs at ha with hacc
    · cases ha
      refine ⟨amount, hamount, ?_⟩
      split_ifs at h with hs
      · have hcharged : (mcpServer config).alone
            { w with
              sent := w.sent ++ [⟨amount, action, gate.hold⟩], charged := w.charged ++ [amount] }
            (.charged action gate requoted amount) [o] = some (w', p') := h
        have hrec := records_answer (Or.inr rfl) ho hcharged
        exact ⟨hrec.sent, hrec.ledger⟩
      · exact records_answer (Or.inl rfl) ho h
    · cases ha
      exact absurd h (hdone _)

theorem answer_ne_settles (action : PendingAction) (reply : Reply) (written : Bool) :
    answer action reply written ≠ .settles := by
  unfold answer
  repeat' split
  all_goals simp

theorem answer_openSession {nodeUrl : String} {seconds : ℕ} {requireGpu : Option Bool}
    {localPort : Option ℕ} {reply : Reply} {written b : Bool} {answered : Option ℤ}
    (h : answer (.openSession nodeUrl seconds requireGpu localPort) reply written =
      .answered answered b) : answered = reply.figure := by
  simp only [answer] at h
  repeat' split at h
  all_goals cases h
  rfl

/-- **A call records the node's figure**, and signs the amount of its challenge. -/
theorem Talk.recorded (t : Talk)
    (h : (mcpServer config).alone w (perform action gate) (t.outcomes action) = some (w', p'))
    {r : SpendRecord} (hr : w'.ledger = w.ledger ++ [r]) {m : Payment}
    (hm : w'.sent = w.sent ++ [m]) :
    r.amountTinybars = t.figure action ∧ t.challenge.amount = some m.amountTinybars := by
  have htail : ∀ requoted, (mcpServer config).alone w (.challenge action gate requoted)
      (.challenged t.challenge :: (if t.settles then [.settles] else []) ++
        [answer action t.reply t.written]) = some (w', p') →
      ∃ answered, answer action t.reply t.written = .answered answered true ∧
        r.amountTinybars = McpServer.recorded requoted answered ∧
        t.challenge.amount = some m.amountTinybars := by
    intro requoted htail
    obtain ⟨amount, hamount, hsent, hledger⟩ :=
      records_challenge (answer_ne_settles action t.reply t.written) htail
    have hpaid := List.append_cancel_left (hm.symm.trans hsent)
    rcases hledger with hledger | ⟨answered, ho, hledger⟩
    · exact absurd (hledger.symm.trans hr) (by simp)
    · have hrec := List.append_cancel_left (hr.symm.trans hledger)
      cases hpaid
      cases hrec
      exact ⟨answered, ho, rfl, hamount⟩
  cases action with
  | openSession nodeUrl seconds requireGpu localPort =>
    obtain ⟨answered, ho, hrec, hamount⟩ := htail none h
    exact ⟨hrec.trans (answer_openSession ho), hamount⟩
  | topUpSession nodeUrl sessionId token =>
    obtain ⟨⟨op, q⟩, ha, h⟩ := Option.bind_eq_some_iff.1 h
    cases hq : quoteAmount t.quote with
    | none =>
      rw [hq] at ha
      cases ha
      cases h
    | some n =>
      rw [hq] at ha
      cases ha
      obtain ⟨answered, -, hrec, hamount⟩ := htail (some n) h
      exact ⟨hrec.trans hq.symm, hamount⟩

/-- **A call records what it has signed** just if the node's figure is the amount of its
challenge. -/
theorem Talk.recorded_iff (t : Talk)
    (h : (mcpServer config).alone w (perform action gate) (t.outcomes action) = some (w', p'))
    {r : SpendRecord} (hr : w'.ledger = w.ledger ++ [r]) {m : Payment}
    (hm : w'.sent = w.sent ++ [m]) :
    r.amountTinybars = some m.amountTinybars ↔ t.figure action = t.challenge.amount := by
  obtain ⟨hfigure, hamount⟩ := t.recorded h hr hm
  rw [hfigure, hamount]

end Talk

/-! ### Runs of truthful nodes -/

/-- **Truthful nodes**: a node answers a top-up with a challenge for its quote, states the amount of
its challenge as what an opening has cost, and does not claim a settlement of nothing. -/
def Truthful (config : McpConfig) : Pc → Outcome → Bool
  | .challenge _ _ (some quoted), .challenged option =>
    !acceptable config option || decide (option.amount = some quoted)
  | .challenge _ _ _, .answered _ _ => false
  | .sent _ _ none signed, .answered amount _ => decide (amount = some signed)
  | .charged _ _ none signed, .answered amount _ => decide (amount = some signed)
  | _, _ => true

/-- Every charge is answered for, and the ledger can be written. -/
def Recorded : Pc → Outcome → Bool
  | .charged _ _ _ _, .failed => false
  | .charged _ _ _ _, .answered _ written => written
  | _, _ => true

/-- In these runs the network's answers are true. -/
abbrev TruthfulRun (config : McpConfig) : Config → Label → Prop :=
  Machine.Guard fun _ _ p o => Truthful config p o

/-- In these runs every charge is also recorded. -/
abbrev RecordedRun (config : McpConfig) : Config → Label → Prop :=
  Machine.Guard fun _ _ p o => Truthful config p o && Recorded p o

/-- A record, with what the call that wrote it has signed, and whether that has been charged. -/
structure Entry where
  record : SpendRecord
  signed : ℤ
  charged : Bool
  deriving DecidableEq

/-- What a call has signed. -/
def Pc.signed : Pc → ℤ
  | .sent _ _ _ amount | .charged _ _ _ amount => amount
  | _ => 0

/-- The records of a run. -/
def note (w : World) (p : Pc) (op : Op) (entries : List Entry) : List Entry :=
  match op with
  | .record amount true => entries ++ [⟨⟨amount, w.now⟩, p.signed, p.unrecorded⟩]
  | _ => entries

/-- A run of `C` gets to `c`, and has written these records. -/
abbrev Writes (config : McpConfig) (now : ℕ) (ledger : List SpendRecord)
    (C : Config → Label → Prop) (c : Config) (entries : List Entry) : Prop :=
  Machine.Histories (mcpServer config) (World.initial now ledger) C note [] c entries

/-- A top-up signs the amount that it records. -/
def Pc.Matched : Pc → Prop
  | .sent _ _ (some quoted) amount | .charged _ _ (some quoted) amount => amount = quoted
  | _ => True

variable {config : McpConfig} {now : ℕ} {ledger : List SpendRecord} {w : World} {p p' : Pc}
  {o : Outcome} {op : Op} {c : Config} {day : ℕ} {entries : List Entry}

section Truthful

theorem perform_matched (action : PendingAction) (gate : Gate) : (perform action gate).Matched := by
  cases action <;> trivial

theorem Pc.Matched.acts (h : p.Matched) (ht : Truthful config p o = true)
    (ha : Acts config w p o op p') : p'.Matched := by
  cases ha with
  | held | swept | answered | stopped | requoted => trivial
  | direct | taken => exact perform_matched _ _
  | @paid action gate requoted option amount hamount hacc =>
    cases requoted with
    | none => trivial
    | some quoted =>
      show amount = quoted
      simpa [Truthful, hacc, hamount] using ht
  | @settled action gate requoted amount => cases requoted <;> exact h

/-- **A truthful answer is recorded as what has been signed.** -/
theorem recorded_of_truthful {requoted amount : Option ℤ} {written : Bool} (h : p.Matched)
    (ht : Truthful config p (.answered amount written) = true)
    (hp : (∃ action gate, p = .challenge action gate requoted) ∨
      (∃ action gate a, p = .sent action gate requoted a) ∨
      ∃ action gate a, p = .charged action gate requoted a) :
    recorded requoted amount = some p.signed := by
  have hfigure : ∀ a, p.signed = a → (requoted = none → amount = some a) →
      (∀ quoted, requoted = some quoted → a = quoted) →
        recorded requoted amount = some p.signed := by
    rintro a rfl hnone hsome
    cases requoted with
    | none => exact hnone rfl
    | some quoted => rw [hsome quoted rfl, recorded]
  rcases hp with ⟨action, gate, rfl⟩ | ⟨action, gate, a, rfl⟩ | ⟨action, gate, a, rfl⟩
  · cases requoted <;> cases ht
  · refine hfigure a rfl ?_ ?_
    · rintro rfl
      exact of_decide_eq_true ht
    · rintro quoted rfl
      exact h
  · refine hfigure a rfl ?_ ?_
    · rintro rfl
      exact of_decide_eq_true ht
    · rintro quoted rfl
      exact h

/-- The ledger is what was there, and the records; each is of what has been signed. -/
structure Exact (ledger : List SpendRecord) (w : World) (entries : List Entry) : Prop where
  ledger : w.ledger = ledger ++ entries.map Entry.record
  signed : ∀ e ∈ entries, e.record.amountTinybars = some e.signed

theorem Exact.acts (h : Exact ledger w entries) (hm : p.Matched)
    (ht : Truthful config p o = true) (ha : Acts config w p o op p') :
    Exact ledger (w.apply op) (note w p op entries) := by
  cases ha with
  | held | swept | direct | taken | requoted | paid | settled | stopped =>
    exact ⟨h.ledger, h.signed⟩
  | @answered p requoted amount written hp =>
    cases written with
    | false => exact ⟨h.ledger, h.signed⟩
    | true =>
      refine ⟨?_, fun e he => ?_⟩
      · show w.ledger ++ [_] = _
        rw [h.ledger, note, List.map_append, List.append_assoc]
        rfl
      · rcases List.mem_append.1 he with he | he
        · exact h.signed e he
        · rw [List.mem_singleton.1 he]
          exact recorded_of_truthful hm ht hp

/-- What the ledger shows for a day, once some more has been recorded. -/
theorem Exact.spentOn (h : Exact ledger w entries) {n : ℤ}
    (hn : (World.initial now ledger).spentOn day = some n) :
    w.spentOn day = some
      (n + ((entries.filter fun e => utcDay e.record.paidAt = day).map Entry.signed).sum) := by
  have hsum : ∀ (es : List Entry) (n : ℤ), (∀ e ∈ es, e.record.amountTinybars = some e.signed) →
      (es.map Entry.record).foldl
        (fun sum r => sum.bind fun n => r.amountTinybars.map fun a => n + a) (some n) =
        some (n + (es.map Entry.signed).sum) := by
    intro es
    induction es with
    | nil => simp
    | cons e es ih =>
      intro n hes
      rw [List.forall_mem_cons] at hes
      rw [List.map_cons, List.foldl_cons, hes.1, List.map_cons, List.sum_cons, ← add_assoc]
      exact ih _ hes.2
  simp only [World.spentOn, World.initial] at hn ⊢
  rw [h.ledger, List.filter_append, List.foldl_append, hn, List.filter_map]
  exact hsum _ n fun e he => h.signed e (List.mem_of_mem_filter he)

end Truthful

section Run

/-- **Matched amounts** in every state reached. -/
def matchedOutline (config : McpConfig) (now : ℕ) (ledger : List SpendRecord) :
    Machine.Outline (mcpServer config) (World.initial now ledger) (TruthfulRun config) where
  I _ := True
  A _ p := p.Matched
  X _ _ := True
  init := trivial
  symm _ _ _ := trivial
  start _ r := by cases r <;> trivial
  apart _ _ := trivial
  envI _ _ _ := trivial
  envA _ _ _ h := h
  act _ _ _ _ _ _ _ hp hC _ hA ha := ⟨trivial, hA.acts (hC.run hp) (acts_of_act ha)⟩
  free _ _ _ _ _ _ _ _ _ _ _ _ _ _ _ hq _ _ := ⟨hq, trivial⟩

theorem exact_of_writes (h : Writes config now ledger (TruthfulRun config) c entries) :
    Exact ledger c.shared entries := by
  refine Machine.Histories.invariant (I := fun w entries => Exact ledger w entries)
    ⟨(List.append_nil _).symm, by simp⟩ (fun _ _ _ h => ⟨h.ledger, h.signed⟩)
    (fun c i o p op p' entries hr hp hC ha ih => ?_) h
  have hmatched := ((matchedOutline config now ledger).holds hr).annot i p hp
  exact ih.acts hmatched (hC.run hp) (acts_of_act ha)

/-- A charge goes to the call, and from there to its record. -/
theorem account_acts (entries : List Entry) (ha : Acts config w p o op p')
    (hg : (Truthful config p o && Recorded p o) = true) :
    (w.apply op).charged.sum -
        (((note w p op entries).filter Entry.charged).map Entry.signed).sum + -p'.pending =
      w.charged.sum - ((entries.filter Entry.charged).map Entry.signed).sum + -p.pending := by
  rw [Bool.and_eq_true] at hg
  obtain ⟨ht, hrec⟩ := hg
  cases ha with
  | held | swept | requoted | paid => rfl
  | direct | taken => rw [perform_pending]; rfl
  | @settled action gate requoted amount =>
    show (w.charged ++ [amount]).sum - _ + -amount = _ - _ + -0
    rw [List.sum_append, List.sum_singleton]
    simp only [note]
    ring
  | @answered p requoted amount written hp =>
    rcases hp with ⟨action, gate, rfl⟩ | ⟨action, gate, a, rfl⟩ | ⟨action, gate, a, rfl⟩
    · cases requoted <;> cases ht
    · cases written with
      | false => rfl
      | true => simp [note, Pc.unrecorded, Pc.pending, World.apply, World.recordSpend]
    · change written = true at hrec
      subst hrec
      simp [note, Pc.unrecorded, Pc.signed, Pc.pending, World.apply, World.recordSpend]
      ring
  | @stopped p o hstop =>
    have hzero : p.pending = 0 := by
      cases p with
      | charged action gate requoted a =>
        rcases hstop with rfl | hstop
        · cases hrec
        · cases hstop
      | quote | confirm | requote | challenge | sent | done => rfl
    rw [hzero]
    rfl

/-- **Every charge is in the ledger**, or its call has still to record it. -/
theorem charged_of_writes (h : Writes config now ledger (RecordedRun config) c entries) :
    c.shared.charged.sum = ((entries.filter Entry.charged).map Entry.signed).sum +
      Machine.weigh Pc.pending c.threads := by
  have heq := Machine.account_eq (M := (mcpServer config).recording note)
    (C := fun (d : Machine.Config (World × List Entry) Pc) l => RecordedRun config d.forget l)
    (m := fun s => s.1.charged.sum - ((s.2.filter Entry.charged).map Entry.signed).sum)
    (f := fun p => -p.pending) (fun r => by cases r <;> rfl) (fun _ _ => rfl)
    (fun d i o p op p' hd hp hC ha => by
      obtain ⟨hact, hop⟩ := Machine.recording_act ha
      have hacts := account_acts d.shared.2 (acts_of_act hact) (hC.run hp)
      rw [← hop] at hacts
      exact hacts) h
  have hzero : (World.initial now ledger).charged.sum = 0 := rfl
  simp only [hzero, Machine.weigh_neg, List.filter_nil, List.map_nil, List.sum_nil] at heq
  omega

end Run

/-! ### The ledger -/

/-- A node asks for 40 tinybars for a session, settles them, and says that it was another amount. -/
def opening (amount : String) : Talk where
  quote := .null
  challenge := hbar 40
  settles := true
  reply := ⟨true, some true,
    some (.object [("amount_tinybars", .string amount), ("certificate", .string "")])⟩
  written := true

/-- A session on a node. -/
def session : PendingAction := .openSession "node" 60 none none

end McpServer
end Mach402
