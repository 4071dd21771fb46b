import Mach402.Agent.Receipts
import Mach402.Library.Decimal
import Mathlib.Algebra.BigOperators.Group.List.Basic

/-!
# What the dashboard has earned

`cleargate-node tui` reads the receipt log, builds the model of the dashboard, and then serves the
node and subscribes to its events, in either order.  A settlement is an event first, and then a
receipt.

* `parseTinybars`: the number that an amount is counted as;
* `ledgerFrom`, `new`, `Model.init`, `Model.record`: what the dashboard keeps of the receipts, of
  the backlog, and of an event;
* `dashboard`: the start-up, the settlements and what the dashboard does, one after the other;
* `State.missed`: the settlements that are in neither source when the dashboard looks;
* `counted_iff`: what is earned is the sum of all that has been settled, unless some are missed.
-/

namespace Mach402
namespace Dashboard

/-! ### Amounts -/

/-- `SetString(raw, 10)` of a `big.Int`. -/
def setString (raw : Bytes) : Option ℤ :=
  Decimal.parse (String.ofList (raw.map fun b => Char.ofNat b.toNat))

/-- `IsInt64`. -/
def isInt64 (value : ℤ) : Bool := decide (-2 ^ 63 ≤ value ∧ value < 2 ^ 63)

/-- `parseTinybars`: what is no amount is none. -/
def parseTinybars (raw : Bytes) : Int64 :=
  if raw = [] then 0
  else
    match setString raw with
    | none => 0
    | some value => if isInt64 value then Int64.ofInt value else 0

/-- The decimal numeral of an amount. -/
def numeral (n : ℕ) : Bytes := Receipts.ascii (toString n)

/-- The tinybars that a numeral stands for. -/
def worth (raw : Bytes) : ℕ := ((setString raw).getD 0).toNat

/-! ### Events -/

/-- What has happened to a payment. -/
inductive EventKind
  | challenged
  | verified
  | rejected
  | settled
  | settleFailed
  | leaseStarted
  | leasePaused
  | leaseEnded
  | sessionBurn
  deriving DecidableEq

/-- An event.  The zero time is 0. -/
structure Event where
  time : ℕ
  kind : EventKind
  leaseID : Bytes
  detail : Bytes
  payer : Bytes
  transaction : Bytes
  tinybars : Bytes
  deriving DecidableEq

/-- What is settled for a lease. -/
structure Settlement where
  leaseID : Bytes
  transaction : Bytes
  payer : Bytes
  payTo : Bytes
  tinybars : ℕ
  asset : Bytes
  network : Bytes
  deriving DecidableEq

/-- The event of `recordLeasePayment`. -/
def Settlement.event (p : Settlement) : Event where
  time := 0
  kind := .settled
  leaseID := p.leaseID
  detail := []
  payer := p.payer
  transaction := p.transaction
  tinybars := numeral p.tinybars

/-- The receipt of `recordLeasePayment`. -/
def Settlement.receipt (p : Settlement) : Receipt where
  jobID := p.leaseID
  transaction := p.transaction
  payer := p.payer
  payTo := p.payTo
  amountTinybars := numeral p.tinybars
  asset := p.asset
  network := p.network
  settledAt := []

/-! ### The model of the dashboard -/

/-- The last entries of a list that is longer than it may be. -/
def trim {α : Type} (most : ℕ) (l : List α) : List α := l.drop (l.length - most)

/-- As many events as the feed keeps. -/
def maxFeedLines : ℕ := 500

/-- A line of the ledger. -/
structure Payment where
  time : ℕ
  tinybars : Int64
  payer : Bytes
  deriving DecidableEq

/-- The state of the dashboard. -/
structure Model where
  feed : List Event
  feedOffset : ℕ
  /-- Every settlement ever, oldest first. -/
  ledger : List Payment
  earnedTinybars : Int64
  deriving DecidableEq

section Model

variable (parseTime : Bytes → Option ℕ)

/-- `ledgerFrom`: by time, and those without one first. -/
def ledgerFrom (all : List Receipt) : List Payment :=
  (all.map fun r =>
    { time := (parseTime r.settledAt).getD 0
      tinybars := parseTinybars r.amountTinybars
      payer := r.payer }).mergeSort fun a b => decide (a.time ≤ b.time)

/-- `New`. -/
def new (history : List Receipt) : Model where
  feed := []
  feedOffset := 0
  ledger := ledgerFrom parseTime history
  earnedTinybars :=
    (ledgerFrom parseTime history).foldl (fun earned entry => earned + entry.tinybars) 0

end Model

/-- `Init`, with the backlog. -/
def Model.init (m : Model) (backlog : List Event) : Model :=
  { m with feed := trim maxFeedLines (m.feed ++ backlog) }

/-- An event comes in: a settlement is also a line of the ledger. -/
def Model.record (m : Model) (event : Event) : Model :=
  let m := { m with
    feed := trim maxFeedLines (m.feed ++ [event])
    feedOffset := if 0 < m.feedOffset then m.feedOffset + 1 else m.feedOffset }
  if event.kind = .settled then
    let amount := parseTinybars event.tinybars
    { m with
      earnedTinybars := m.earnedTinybars + amount
      ledger := m.ledger ++ [⟨event.time, amount, event.payer⟩] }
  else m

/-! ### The node -/

/-- As many events as the broker keeps. -/
def recentEvents : ℕ := 200

/-- The capacity of a subscription. -/
def capacity : ℕ := 256

/-- What the dashboard, the broker and the receipt log share. -/
structure State where
  /-- The receipt log. -/
  file : Option Bytes
  /-- The receipts that have been read. -/
  history : Option (List Receipt)
  model : Option Model
  /-- The node takes requests. -/
  serving : Bool
  /-- The backlog of the broker. -/
  recent : List Event
  /-- The channel of the dashboard, once it has subscribed. -/
  eventCh : Option (List Event)
  /-- An event that has been received and waits for the update. -/
  message : Option Event
  /-- The receipts of settlements that have been reported and are not in the log. -/
  handlers : List Receipt
  /-- A record of the tinybars of all settlements: those in the log at first, and those since. -/
  settled : List ℕ
  /-- A record of what could not be read, or was reported before there was a subscription. -/
  missed : List ℕ
  deriving DecidableEq

/-- What happens, one step at a time. -/
inductive Label
  /-- `All`, which may fail. -/
  | read (readable : Bool)
  | build
  | serve
  | subscribe
  /-- A settlement is reported. -/
  | settle (now : ℕ) (p : Settlement)
  /-- One of those that have been reported is appended to the log. -/
  | append (i : ℕ) (now : Bytes) (o : Receipts.Outcome)
  /-- Any other event. -/
  | publish (now : ℕ) (event : Event)
  /-- `nextEvent` takes an event from the channel. -/
  | receive
  /-- `Update` records it. -/
  | update
  /-- A key scrolls the feed. -/
  | scroll (offset : ℕ)
  deriving DecidableEq

/-- An event without a time gets one. -/
def Event.stamp (event : Event) (now : ℕ) : Event :=
  if event.time = 0 then { event with time := now } else event

/-- `publish` of the broker: never waits, so that a full channel drops the event. -/
def State.publish (s : State) (now : ℕ) (event : Event) : State :=
  { s with
    recent := trim recentEvents (s.recent ++ [event.stamp now])
    eventCh := s.eventCh.map fun ch =>
      if ch.length < capacity then ch ++ [event.stamp now] else ch }

section Dashboard

variable (codec : ReceiptCodec) (parseTime : Bytes → Option ℕ)

/-- What the receipts of a log are worth. -/
def amounts (file : Option Bytes) : List ℕ :=
  (Receipts.all codec file).map fun r => worth r.amountTinybars

/-- A node that has not been started. -/
def State.initial (file : Option Bytes) : State where
  file := file
  history := none
  model := none
  serving := false
  recent := []
  eventCh := none
  message := none
  handlers := []
  settled := amounts codec file
  missed := []

/-- One step, if it can be taken. -/
def State.step (s : State) : Label → Option State
  | .read readable =>
    if s.history.isNone then
      some { s with
        history := some (if readable then Receipts.all codec s.file else [])
        missed := if readable then s.missed else s.missed ++ amounts codec s.file }
    else none
  | .build =>
    if s.model.isNone then s.history.map fun h => { s with model := some (new parseTime h) }
    else none
  | .serve => if s.model.isSome ∧ s.serving = false then some { s with serving := true } else none
  | .subscribe =>
    if s.eventCh.isNone then
      s.model.map fun m => { s with model := some (m.init s.recent), eventCh := some [] }
    else none
  | .settle now p =>
    if s.serving then
      some { s.publish now p.event with
        handlers := s.handlers ++ [p.receipt]
        settled := s.settled ++ [p.tinybars]
        missed := if s.eventCh.isNone then s.missed ++ [p.tinybars] else s.missed }
    else none
  | .append i now o =>
    s.handlers[i]?.map fun r =>
      { s with
        file := (Receipts.append codec s.file now r o).1
        handlers := s.handlers.eraseIdx i }
  | .publish now event => if event.kind = .settled then none else some (s.publish now event)
  | .receive =>
    match s.message, s.eventCh with
    | none, some (event :: ch) => some { s with message := some event, eventCh := some ch }
    | _, _ => none
  | .update =>
    s.message.bind fun event => s.model.map fun m =>
      { s with model := some (m.record event), message := none }
  | .scroll offset => s.model.map fun m => { s with model := some { m with feedOffset := offset } }

/-- **The node with its dashboard**, and the log as it is found. -/
def dashboard (file : Option Bytes) : System State Label where
  init := .initial codec file
  step := State.step codec parseTime

end Dashboard

/-! ### Counting -/

/-- The events that the dashboard has yet to record. -/
def State.pending (s : State) : List Event := s.message.toList ++ s.eventCh.getD []

/-- What settlements among events are worth. -/
def due (events : List Event) : List ℕ :=
  (events.filter fun e => e.kind = .settled).map fun e => worth e.tinybars

/-- No channel overflows. -/
def NoOverflow (s : State) : Label → Prop
  | .settle .. | .publish .. => ∀ ch ∈ s.eventCh, ch.length < capacity
  | _ => True

/-- The log can be read, and no settlement is reported before the dashboard has subscribed. -/
def Watched (s : State) : Label → Prop
  | .read readable => readable = true
  | .settle .. => s.eventCh.isSome = true
  | _ => True

instance (s : State) : (l : Label) → Decidable (NoOverflow s l)
  | .settle .. | .publish .. => inferInstanceAs (Decidable (∀ ch ∈ s.eventCh, _))
  | .read _ | .build | .serve | .subscribe | .append .. | .receive | .update | .scroll _ =>
    inferInstanceAs (Decidable True)

instance (s : State) : (l : Label) → Decidable (Watched s l)
  | .read _ | .settle .. => inferInstanceAs (Decidable (_ = _))
  | .build | .serve | .subscribe | .append .. | .publish .. | .receive | .update | .scroll _ =>
    inferInstanceAs (Decidable True)

/-- The amounts in a log are numerals. -/
def Sound (codec : ReceiptCodec) (file : Option Bytes) : Prop :=
  ∀ r ∈ Receipts.all codec file, ∃ n, r.amountTinybars = numeral n

section Amounts

variable {n : ℕ} {ns : List ℕ} {l l' : List Int64}

theorem setString_numeral (n : ℕ) : setString (numeral n) = some (n : ℤ) := by
  have hback : ∀ c ∈ (toString n).toList, Char.ofNat (UInt8.ofNat c.toNat).toNat = c := by
    intro c hc
    have hdigit := Nat.isDigit_of_mem_toDigits (by omega) (by omega)
      (show c ∈ Nat.toDigits 10 n by rwa [← Nat.toList_repr])
    have hle : c.toNat ≤ 57 := by
      simp only [Char.isDigit, Bool.and_eq_true, decide_eq_true_eq] at hdigit
      exact hdigit.2
    rw [UInt8.toNat_ofNat', Nat.mod_eq_of_lt (by omega), Char.ofNat_toNat]
  have hlist : (numeral n).map (fun b => Char.ofNat b.toNat) = (toString n).toList := by
    rw [numeral, Receipts.ascii, List.map_map]
    exact (List.map_congr_left hback).trans (List.map_id _)
  rw [setString, hlist, String.ofList_toList]
  exact Decimal.parse_toString (n : ℤ)

@[simp] theorem worth_numeral (n : ℕ) : worth (numeral n) = n := by
  rw [worth, setString_numeral]
  rfl

/-- What an amount is counted as: nothing, if it does not fit. -/
def clip (n : ℕ) : ℕ := if n < 2 ^ 63 then n else 0

theorem parseTinybars_numeral (n : ℕ) : parseTinybars (numeral n) = Int64.ofInt (clip n) := by
  have hne : numeral n ≠ [] := by
    intro hnil
    have hparse := setString_numeral n
    rw [hnil] at hparse
    cases hparse
  rw [parseTinybars, if_neg hne, setString_numeral]
  show (if isInt64 n then Int64.ofInt n else 0) = Int64.ofInt (clip n)
  by_cases hn : n < 2 ^ 63
  · have hfits : isInt64 n = true := decide_eq_true ⟨by omega, by omega⟩
    rw [if_pos hfits, clip, if_pos hn]
  · have hlarge : ¬ isInt64 n = true := by
      rw [isInt64, decide_eq_true_eq]
      omega
    rw [if_neg hlarge, clip, if_neg hn]
    rfl

/-- The sum that is held in a machine word. -/
def tally (ns : List ℕ) : Int64 := Int64.ofInt ((ns.map clip).sum : ℕ)

theorem tally_append (ns ms : List ℕ) : tally (ns ++ ms) = tally ns + tally ms := by
  rw [tally, List.map_append, List.sum_append, Nat.cast_add, Int64.ofInt_add, tally, tally]

theorem toInt_tally (h : ns.sum < 2 ^ 63) : (tally ns).toInt = ns.sum := by
  have hclip : ns.map clip = ns := by
    refine (List.map_congr_left fun n hn => ?_).trans (List.map_id ns)
    exact if_pos (lt_of_le_of_lt (List.single_le_sum (by simp) n hn) h)
  rw [tally, hclip, Int64.toInt_ofInt_of_le (by omega) (by omega)]

/-- The order of what is added up does not matter. -/
theorem foldl_add_perm (h : l.Perm l') (a : Int64) : l.foldl (· + ·) a = l'.foldl (· + ·) a := by
  refine h.foldl_eq' (fun x _ y _ z => ?_) a
  rw [Int64.add_assoc, Int64.add_comm x y, ← Int64.add_assoc]

theorem foldl_tally (ns : List ℕ) (a : Int64) :
    (ns.map fun n => parseTinybars (numeral n)).foldl (· + ·) a = a + tally ns := by
  induction ns generalizing a with
  | nil =>
    show a = a + Int64.ofInt 0
    exact (Int64.add_zero a).symm
  | cons n ns ih =>
    rw [List.map_cons, List.foldl_cons, ih, parseTinybars_numeral, Int64.add_assoc,
      ← List.singleton_append, tally_append]
    rfl

end Amounts

/-! ### The accounts -/

/-- What has been counted, what is under way, and what is missed make up all settlements. -/
structure Inv (codec : ReceiptCodec) (file : Option Bytes) (s : State) : Prop where
  quiet : s.serving = false → s.handlers = [] ∧ s.file = file
  unread : s.history = none → s.model = none
  unbuilt : s.model = none → s.serving = false ∧ s.message = none ∧ s.eventCh = none ∧
    s.missed.sum + ((s.history.getD (Receipts.all codec file)).map fun r =>
      worth r.amountTinybars).sum = s.settled.sum
  numerals : ∀ h, s.history = some h → ∀ r ∈ h, ∃ n, r.amountTinybars = numeral n
  pending : ∀ e ∈ s.pending, e.kind = .settled → ∃ n, e.tinybars = numeral n
  account : ∀ m, s.model = some m → ∃ counted : List ℕ, m.earnedTinybars = tally counted ∧
    counted.sum + (due s.pending).sum + s.missed.sum = s.settled.sum

section Accounts

variable {codec : ReceiptCodec} {parseTime : Bytes → Option ℕ} {file : Option Bytes} {s s' : State}
  {m : Model} {e : Event} {es es' : List Event} {now : ℕ} {p : Settlement} {h : List Receipt}

theorem due_append (es es' : List Event) : due (es ++ es') = due es ++ due es' := by
  rw [due, List.filter_append, List.map_append, due, due]

theorem due_settled (he : e.kind = .settled) : due [e] = [worth e.tinybars] := by
  rw [due, List.filter_cons_of_pos (by simpa using he)]
  rfl

theorem due_other (he : e.kind ≠ .settled) : due [e] = [] := by
  rw [due, List.filter_cons_of_neg (by simpa using he)]
  rfl

@[simp] theorem stamp_kind (e : Event) (now : ℕ) : (e.stamp now).kind = e.kind := by
  unfold Event.stamp
  split <;> rfl

@[simp] theorem stamp_tinybars (e : Event) (now : ℕ) : (e.stamp now).tinybars = e.tinybars := by
  unfold Event.stamp
  split <;> rfl

/-- What is published is under way to the dashboard, if it has subscribed. -/
theorem pending_publish (now : ℕ) (e : Event) (hfits : ∀ ch ∈ s.eventCh, ch.length < capacity) :
    (s.publish now e).pending =
      if s.eventCh.isSome then s.pending ++ [e.stamp now] else s.pending := by
  cases hch : s.eventCh with
  | none => simp [State.pending, State.publish, hch]
  | some ch =>
    have hroom : ch.length < capacity := hfits ch (by rw [hch]; rfl)
    simp [State.pending, State.publish, hch, hroom]

/-- Nothing but the backlog and the channel changes. -/
theorem publish_eq (s : State) (now : ℕ) (e : Event) : ∃ recent eventCh,
    s.publish now e = { s with recent := recent, eventCh := eventCh } ∧
      (s.eventCh = none → eventCh = none) :=
  ⟨_, _, rfl, fun hch => by rw [hch]; rfl⟩

/-- The receipts are counted as they were settled. -/
theorem earned_new (hh : ∀ r ∈ h, ∃ n, r.amountTinybars = numeral n) :
    (new parseTime h).earnedTinybars = tally (h.map fun r => worth r.amountTinybars) := by
  have hsum : (new parseTime h).earnedTinybars =
      ((ledgerFrom parseTime h).map Payment.tinybars).foldl (· + ·) 0 := by
    rw [List.foldl_map]
    rfl
  have hperm := (List.mergeSort_perm (h.map fun r : Receipt =>
    (⟨(parseTime r.settledAt).getD 0, parseTinybars r.amountTinybars, r.payer⟩ : Payment))
      fun a b => decide (a.time ≤ b.time)).map Payment.tinybars
  have hamounts : h.map (fun r => parseTinybars r.amountTinybars) =
      (h.map fun r => worth r.amountTinybars).map fun n => parseTinybars (numeral n) := by
    rw [List.map_map]
    refine List.map_congr_left fun r hr => ?_
    obtain ⟨n, hn⟩ := hh r hr
    rw [Function.comp_apply, hn, worth_numeral]
  rw [List.map_map] at hperm
  have hfold := foldl_add_perm hperm 0
  rw [hsum, ledgerFrom, hfold]
  show (h.map fun r => parseTinybars r.amountTinybars).foldl (· + ·) 0 = _
  rw [hamounts, foldl_tally]
  exact Int64.zero_add _

theorem earned_record (m : Model) (he : e.kind = .settled → ∃ n, e.tinybars = numeral n)
    {counted : List ℕ} (hm : m.earnedTinybars = tally counted) :
    (m.record e).earnedTinybars = tally (counted ++ due [e]) := by
  by_cases hk : e.kind = .settled
  · obtain ⟨n, hn⟩ := he hk
    rw [due_settled hk, tally_append, ← hm, Model.record, if_pos hk]
    show m.earnedTinybars + parseTinybars e.tinybars = _
    rw [hn, worth_numeral, parseTinybars_numeral]
    rfl
  · rw [due_other hk, List.append_nil, ← hm, Model.record, if_neg hk]

theorem Inv.init : Inv codec file (.initial codec file) where
  quiet _ := ⟨rfl, rfl⟩
  unread _ := rfl
  unbuilt _ := ⟨rfl, rfl, rfl, Nat.zero_add _⟩
  numerals h hh := by cases hh
  pending e he := by cases he
  account m hm := by cases hm

/-- Whatever is read, the rest is missed. -/
theorem Inv.read (hs : Inv codec file s) (hfile : Sound codec file) {readable : Bool}
    (hstep : s.step codec parseTime (.read readable) = some s') : Inv codec file s' := by
  rw [State.step] at hstep
  split at hstep
  case isFalse => cases hstep
  case isTrue hnone =>
  cases hstep
  rw [Option.isNone_iff_eq_none] at hnone
  obtain ⟨hserving, hmessage, hch, hsum⟩ := hs.unbuilt (hs.unread hnone)
  obtain ⟨-, hsame⟩ := hs.quiet hserving
  rw [hnone, Option.getD_none] at hsum
  constructor
  case quiet => exact hs.quiet
  case unread => exact fun h => by cases h
  case unbuilt =>
    refine fun _ => ⟨hserving, hmessage, hch, ?_⟩
    cases readable with
    | true =>
      simp only [if_true, Option.getD_some, hsame]
      exact hsum
    | false =>
      simp only [Bool.false_eq_true, if_false, Option.getD_some, List.sum_append, hsame, amounts]
      exact hsum
  case numerals =>
    intro h hh r hr
    cases readable with
    | true =>
      cases hh
      exact hfile r (hsame ▸ hr)
    | false =>
      cases hh
      cases hr
  case pending => exact hs.pending
  case account =>
    intro m hm
    rw [hs.unread hnone] at hm
    cases hm

theorem Inv.build (hs : Inv codec file s)
    (hstep : s.step codec parseTime .build = some s') : Inv codec file s' := by
  rw [State.step] at hstep
  split at hstep
  case isFalse => cases hstep
  case isTrue hnone =>
  rw [Option.isNone_iff_eq_none] at hnone
  obtain ⟨h, hh, rfl⟩ := Option.map_eq_some_iff.mp hstep
  obtain ⟨hserving, hmessage, hch, hsum⟩ := hs.unbuilt hnone
  rw [hh, Option.getD_some] at hsum
  constructor
  case quiet => exact hs.quiet
  case unread => exact fun hnone' => by rw [hh] at hnone'; cases hnone'
  case unbuilt => exact fun hm => by cases hm
  case numerals => exact hs.numerals
  case pending => exact hs.pending
  case account =>
    intro m hm
    cases hm
    refine ⟨_, earned_new (hs.numerals h hh), ?_⟩
    have hpending : s.pending = [] := by rw [State.pending, hmessage, hch]; rfl
    show _ + (due s.pending).sum + s.missed.sum = s.settled.sum
    rw [hpending]
    show _ + 0 + s.missed.sum = s.settled.sum
    omega

/-- What is under way is what was, and the event if there is a channel for it. -/
theorem Inv.numerals_publish (hs : Inv codec file s) (now : ℕ)
    (hfits : ∀ ch ∈ s.eventCh, ch.length < capacity)
    (he : e.kind = .settled → ∃ n, e.tinybars = numeral n) :
    ∀ e' ∈ (s.publish now e).pending, e'.kind = .settled → ∃ n, e'.tinybars = numeral n := by
  intro e' he' hk
  rw [pending_publish now e hfits] at he'
  split at he'
  · rcases List.mem_append.mp he' with he' | he'
    · exact hs.pending e' he' hk
    · rw [List.mem_singleton] at he'
      rw [he', stamp_kind] at hk
      rw [he', stamp_tinybars]
      exact he hk
  · exact hs.pending e' he' hk

/-- An event that is no settlement changes nothing. -/
theorem Inv.publish (hs : Inv codec file s) (hfits : ∀ ch ∈ s.eventCh, ch.length < capacity)
    (he : e.kind ≠ .settled) : Inv codec file (s.publish now e) := by
  have hpending := pending_publish now e hfits
  have hnumerals := hs.numerals_publish now hfits fun hk => absurd hk he
  obtain ⟨recent, eventCh, hpublish, hnone⟩ := publish_eq s now e
  rw [hpublish] at hpending hnumerals ⊢
  constructor
  case quiet => exact hs.quiet
  case unread => exact hs.unread
  case unbuilt =>
    intro hm
    obtain ⟨hserving, hmessage, hch, hsum⟩ := hs.unbuilt hm
    exact ⟨hserving, hmessage, hnone hch, hsum⟩
  case numerals => exact hs.numerals
  case pending => exact hnumerals
  case account =>
    intro m hm
    have hdue : due (State.pending { s with recent := recent, eventCh := eventCh }) =
        due s.pending := by
      rw [hpending]
      split
      · rw [due_append, due_other (by rwa [stamp_kind]), List.append_nil]
      · rfl
    rw [hdue]
    exact hs.account m hm

/-- A settlement is under way to the dashboard, or it is missed. -/
theorem Inv.settle (hs : Inv codec file s) (hfits : ∀ ch ∈ s.eventCh, ch.length < capacity)
    (hstep : s.step codec parseTime (.settle now p) = some s') : Inv codec file s' := by
  rw [State.step] at hstep
  split at hstep
  case isFalse => cases hstep
  case isTrue hserving =>
  obtain rfl := Option.some.inj hstep
  have hpending := pending_publish now p.event hfits
  have hnumerals := hs.numerals_publish (e := p.event) now hfits fun _ => ⟨p.tinybars, rfl⟩
  obtain ⟨recent, eventCh, hpublish, hnone⟩ := publish_eq s now p.event
  rw [hpublish] at hpending hnumerals ⊢
  have hbuilt : s.model ≠ none := by
    intro hunbuilt
    rw [(hs.unbuilt hunbuilt).1] at hserving
    cases hserving
  constructor
  case quiet =>
    intro hquiet
    rw [show s.serving = false from hquiet] at hserving
    cases hserving
  case unread => exact hs.unread
  case unbuilt => exact fun hunbuilt => absurd hunbuilt hbuilt
  case numerals => exact hs.numerals
  case pending => exact hnumerals
  case account =>
    intro m hm
    obtain ⟨counted, hearned, hsum⟩ := hs.account m hm
    refine ⟨counted, hearned, ?_⟩
    show counted.sum + (due (State.pending { s with recent := recent, eventCh := eventCh })).sum +
      (if s.eventCh.isNone then s.missed ++ [p.tinybars] else s.missed).sum =
        (s.settled ++ [p.tinybars]).sum
    rw [hpending]
    cases hch : s.eventCh with
    | none =>
      simp only [Option.isSome_none, Option.isNone_none, Bool.false_eq_true, if_false, if_true,
        List.sum_append, List.sum_singleton]
      omega
    | some ch =>
      have hdue : due [p.event.stamp now] = [p.tinybars] := by
        rw [due_settled (by rw [stamp_kind]; rfl), stamp_tinybars]
        exact congrArg (fun n => [n]) (worth_numeral p.tinybars)
      simp only [Option.isSome_some, Option.isNone_some, Bool.false_eq_true, if_false, if_true,
        due_append, hdue, List.sum_append, List.sum_singleton]
      omega

theorem Inv.append (hs : Inv codec file s) {i : ℕ} {now : Bytes} {o : Receipts.Outcome}
    (hstep : s.step codec parseTime (.append i now o) = some s') : Inv codec file s' := by
  obtain ⟨r, hr, rfl⟩ := Option.map_eq_some_iff.mp hstep
  constructor
  case quiet =>
    intro hquiet
    rw [(hs.quiet hquiet).1] at hr
    cases hr
  case unread => exact hs.unread
  case unbuilt => exact hs.unbuilt
  case numerals => exact hs.numerals
  case pending => exact hs.pending
  case account => exact hs.account

theorem Inv.receive (hs : Inv codec file s)
    (hstep : s.step codec parseTime .receive = some s') : Inv codec file s' := by
  rw [State.step] at hstep
  split at hstep
  case h_2 => cases hstep
  case h_1 e ch hmessage hch =>
  cases hstep
  have hpending : s.pending = e :: ch := by
    rw [State.pending, hmessage, hch]
    rfl
  constructor
  case quiet => exact hs.quiet
  case unread => exact hs.unread
  case unbuilt =>
    intro hnone
    rw [(hs.unbuilt hnone).2.2.1] at hch
    cases hch
  case numerals => exact hs.numerals
  case pending =>
    intro e' he'
    exact hs.pending e' (by rw [hpending]; exact he')
  case account =>
    intro m hm
    have hsum := hs.account m hm
    rw [hpending] at hsum
    exact hsum

/-- What is recorded has been under way. -/
theorem Inv.update (hs : Inv codec file s)
    (hstep : s.step codec parseTime .update = some s') : Inv codec file s' := by
  obtain ⟨e, hmessage, hstep⟩ := Option.bind_eq_some_iff.mp hstep
  obtain ⟨m, hm, rfl⟩ := Option.map_eq_some_iff.mp hstep
  have hpending : s.pending = [e] ++ s.eventCh.getD [] := by
    rw [State.pending, hmessage]
    rfl
  obtain ⟨counted, hearned, hsum⟩ := hs.account m hm
  have hnumeral := hs.pending e (by rw [hpending]; exact List.mem_append_left _ List.mem_cons_self)
  constructor
  case quiet => exact hs.quiet
  case unread => exact fun hnone => by rw [hs.unread hnone] at hm; cases hm
  case unbuilt => exact fun hnone => by cases hnone
  case numerals => exact hs.numerals
  case pending =>
    intro e' he'
    exact hs.pending e' (by rw [hpending]; exact List.mem_append_right _ he')
  case account =>
    intro m' hm'
    cases hm'
    refine ⟨counted ++ due [e], earned_record m hnumeral hearned, ?_⟩
    rw [hpending, due_append, List.sum_append] at hsum
    show (counted ++ due [e]).sum + (due (s.eventCh.getD [])).sum + s.missed.sum = s.settled.sum
    rw [List.sum_append]
    omega

/-- A step that changes neither what is earned nor what is under way. -/
theorem Inv.frame (hs : Inv codec file s) {m' : Model} (hm : s.model = some m)
    (hearned : m'.earnedTinybars = m.earnedTinybars) {serving : Bool}
    (hserving : serving = false → s.serving = false) {eventCh : Option (List Event)}
    (hch : eventCh.getD [] = s.eventCh.getD []) :
    Inv codec file { s with model := some m', serving := serving, eventCh := eventCh } := by
  have hpending : State.pending { s with model := some m', serving, eventCh } = s.pending := by
    rw [State.pending, State.pending, hch]
  constructor
  case quiet => exact fun hquiet => hs.quiet (hserving hquiet)
  case unread => exact fun hnone => by rw [hs.unread hnone] at hm; cases hm
  case unbuilt => exact fun hnone => by cases hnone
  case numerals => exact hs.numerals
  case pending =>
    rw [hpending]
    exact hs.pending
  case account =>
    intro m'' hm''
    cases hm''
    rw [hpending, hearned]
    exact hs.account m hm

/-- **Every step keeps the accounts.** -/
theorem Inv.step (hs : Inv codec file s) (hfile : Sound codec file) {l : Label}
    (hfits : NoOverflow s l) (hstep : s.step codec parseTime l = some s') : Inv codec file s' := by
  cases l with
  | read readable => exact hs.read hfile hstep
  | build => exact hs.build hstep
  | serve =>
    rw [State.step] at hstep
    split at hstep
    case isFalse => cases hstep
    case isTrue hbuilt =>
    cases hstep
    obtain ⟨m, hm⟩ := Option.isSome_iff_exists.mp hbuilt.1
    have hframe : Inv codec file { s with model := some m, serving := true } :=
      hs.frame hm rfl (fun hfalse => by cases hfalse) rfl
    rwa [← hm] at hframe
  | subscribe =>
    rw [State.step] at hstep
    split at hstep
    case isFalse => cases hstep
    case isTrue hnone =>
    obtain ⟨m, hm, rfl⟩ := Option.map_eq_some_iff.mp hstep
    rw [Option.isNone_iff_eq_none] at hnone
    have hearned : (m.init s.recent).earnedTinybars = m.earnedTinybars := by rw [Model.init]
    exact hs.frame hm hearned id (by rw [hnone]; rfl)
  | settle now p => exact hs.settle hfits hstep
  | append i now o => exact hs.append hstep
  | publish now e =>
    rw [State.step] at hstep
    split at hstep
    case isTrue => cases hstep
    case isFalse he =>
    cases hstep
    exact hs.publish hfits he
  | receive => exact hs.receive hstep
  | update => exact hs.update hstep
  | scroll offset =>
    obtain ⟨m, hm, rfl⟩ := Option.map_eq_some_iff.mp hstep
    have hearned : Model.earnedTinybars { m with feedOffset := offset } = m.earnedTinybars := rfl
    exact hs.frame hm hearned id rfl

theorem inv_of_reach (hfile : Sound codec file)
    (hreach : (dashboard codec parseTime file).Reach NoOverflow s) : Inv codec file s :=
  hreach.invariant Inv.init fun _ _ _ _ hs hfits hstep => hs.step hfile hfits hstep

/-- If the dashboard has subscribed in time, nothing is missed. -/
theorem missed_of_reach (hreach : (dashboard codec parseTime file).Reach
    (fun s l => NoOverflow s l ∧ Watched s l) s) : s.missed = [] := by
  refine hreach.invariant (I := fun s => s.missed = []) rfl fun s l s' _ hs hl hstep => ?_
  change s.step codec parseTime l = some s' at hstep
  cases l with
  | read readable =>
    obtain rfl : readable = true := hl.2
    rw [State.step] at hstep
    split at hstep
    · cases hstep
      exact hs
    · cases hstep
  | settle now p =>
    have hch : s.eventCh.isNone = false := by
      rw [← Option.not_isSome, show s.eventCh.isSome = true from hl.2]
      rfl
    rw [State.step] at hstep
    split at hstep
    · cases hstep
      simp only [hch]
      exact hs
    · cases hstep
  | build | subscribe =>
    rw [State.step] at hstep
    split at hstep
    · obtain ⟨m, -, rfl⟩ := Option.map_eq_some_iff.mp hstep
      exact hs
    · cases hstep
  | serve =>
    rw [State.step] at hstep
    split at hstep <;> cases hstep
    exact hs
  | publish now e =>
    rw [State.step] at hstep
    split at hstep
    · cases hstep
    · obtain ⟨recent, eventCh, hpublish, -⟩ := publish_eq s now e
      obtain rfl := Option.some.inj hstep
      rw [hpublish]
      exact hs
  | append | scroll =>
    obtain ⟨m, -, rfl⟩ := Option.map_eq_some_iff.mp hstep
    exact hs
  | receive =>
    rw [State.step] at hstep
    split at hstep <;> cases hstep
    exact hs
  | update =>
    obtain ⟨e, -, hstep⟩ := Option.bind_eq_some_iff.mp hstep
    obtain ⟨m, -, rfl⟩ := Option.map_eq_some_iff.mp hstep
    exact hs

end Accounts

/-- **What the dashboard shows as earned** is the sum of all that has been settled, once no
settlement is under way to it, just if the sum fits and nothing has been missed.  Nothing is missed
if the log can be read and no settlement is reported before the dashboard has subscribed. -/
theorem counted_iff (codec : ReceiptCodec) (parseTime : Bytes → Option ℕ) (file : Option Bytes)
    (hfile : Sound codec file) :
    (∀ s m, (dashboard codec parseTime file).Reach NoOverflow s → s.model = some m →
      due s.pending = [] →
        (m.earnedTinybars.toInt = s.settled.sum ↔
          s.settled.sum < 2 ^ 63 ∧ ∀ n ∈ s.missed, n = 0)) ∧
    ∀ s, (dashboard codec parseTime file).Reach (fun s l => NoOverflow s l ∧ Watched s l) s →
      s.missed = [] := by
  refine ⟨fun s m hreach hm hdue => ?_, fun s hreach => missed_of_reach hreach⟩
  obtain ⟨counted, hearned, hsum⟩ := (inv_of_reach hfile hreach).account m hm
  rw [hdue, List.sum_nil, Nat.add_zero] at hsum
  rw [← List.sum_eq_zero_iff, hearned]
  constructor
  · intro heq
    have hlt := (tally counted).toInt_lt
    have hcounted : counted.sum < 2 ^ 63 := by omega
    rw [toInt_tally hcounted] at heq
    omega
  · rintro ⟨hlt, hmissed⟩
    rw [toInt_tally (by omega)]
    omega

/-! ### A settlement that comes early -/

/-- Five tinybars for a lease. -/
def fiveTinybars : Settlement where
  leaseID := Receipts.ascii "s1"
  transaction := Receipts.ascii "t1"
  payer := Receipts.ascii "0.0.7"
  payTo := Receipts.ascii "0.0.8"
  tinybars := 5
  asset := Receipts.ascii "0.0.0"
  network := Receipts.ascii "hedera:testnet"

/-- A node whose log is missing. -/
def fresh : System State Label := dashboard Receipts.jsonCodec (fun _ => none) none

/-- **The settlement is not counted**: the node serves before the dashboard subscribes. -/
theorem early_uncounted : ∃ s m, fresh.Reach NoOverflow s ∧ s.model = some m ∧
    due s.pending = [] ∧ s.settled = [5] ∧ m.earnedTinybars.toInt ≠ s.settled.sum := by
  obtain ⟨s, hs, hp⟩ := System.exists_reach (S := fresh) (C := NoOverflow)
    (p := fun s => decide (due s.pending = [] ∧ s.settled = [5] ∧
      s.model.map Model.earnedTinybars = some 0))
    [.read true, .build, .serve, .settle 7 fiveTinybars, .append 0 Receipts.now .ok, .subscribe]
    (by decide +kernel)
  obtain ⟨hdue, hsettled, hmodel⟩ := of_decide_eq_true hp
  obtain ⟨m, hm, hearned⟩ := Option.map_eq_some_iff.mp hmodel
  refine ⟨s, m, hs, hm, hdue, hsettled, ?_⟩
  rw [hearned, hsettled]
  decide

/-- Once the dashboard has subscribed, it is. -/
theorem counted_five : ∃ s m, fresh.Reach NoOverflow s ∧ s.model = some m ∧
    m.earnedTinybars.toInt = s.settled.sum ∧ s.settled = [5] := by
  obtain ⟨s, hs, hp⟩ := System.exists_reach (S := fresh) (C := NoOverflow)
    (p := fun s => decide (due s.pending = [] ∧ s.settled = [5] ∧ s.missed = [] ∧
      s.model.isSome = true))
    [.read true, .build, .serve, .subscribe, .settle 7 fiveTinybars, .receive, .update]
    (by decide +kernel)
  obtain ⟨hdue, hsettled, hmissed, hmodel⟩ := of_decide_eq_true hp
  obtain ⟨m, hm⟩ := Option.isSome_iff_exists.mp hmodel
  have hcounted := (counted_iff Receipts.jsonCodec (fun _ => none) none
    fun r hr => by cases hr).1 s m hs hm hdue
  refine ⟨s, m, hs, hm, hcounted.mpr ⟨?_, ?_⟩, hsettled⟩
  · rw [hsettled]
    decide
  · intro n hn
    rw [hmissed] at hn
    cases hn

end Dashboard
end Mach402
