import Mach402.Library.Transition
import Mach402.Library.Lines
import Mach402.Library.Json

/-!
# The receipt log

`internal/receipts/receipts.go`: every settlement is appended to a file as one line of JSON, and
`All` reads the lines back.  An append may be cut short anywhere.

* `append`, `splitLines`, `all`: the functions of `Log`;
* `receiptLog`: the runs of the log, with the receipts whose `Append` has returned nil;
* `splitLines_eq`: what the loop of `splitLines` finds;
* `acknowledged_read`: the receipts that are read back, if no line is appended to a partial one.

The encoding of a receipt is a parameter, which is decoded to itself and has no newline.
-/

namespace Mach402

/-- A Go string is its bytes. -/
abbrev Bytes : Type := List UInt8

/-- `Receipt`, by its texts. -/
structure Receipt where
  jobID : Bytes
  transaction : Bytes
  payer : Bytes
  payTo : Bytes
  amountTinybars : Bytes
  asset : Bytes
  network : Bytes
  settledAt : Bytes
  deriving DecidableEq

/-- `\n`. -/
def newline : UInt8 := 10

/-- `encoding/json`, as far as receipts go. -/
structure ReceiptCodec where
  marshal : Receipt → Bytes
  unmarshal : Bytes → Option Receipt
  unmarshal_marshal : ∀ r, unmarshal (marshal r) = some r
  newline_not_mem : ∀ r, newline ∉ marshal r
  marshal_ne_nil : ∀ r, marshal r ≠ []

namespace Receipts

/-! ### Reading -/

/-- One step of the loop: the lines so far, and where the next one starts. -/
def splitStep (raw : Bytes) (acc : List Bytes × ℕ) (bi : UInt8 × ℕ) : List Bytes × ℕ :=
  if bi.1 = newline then (acc.1 ++ [raw.extract acc.2 bi.2], bi.2 + 1) else acc

/-- `splitLines`: a last line may be unterminated. -/
def splitLines (raw : Bytes) : List Bytes :=
  let acc := raw.zipIdx.foldl (splitStep raw) ([], 0)
  if acc.2 < raw.length then acc.1 ++ [raw.drop acc.2] else acc.1

variable (codec : ReceiptCodec)

/-- What one line is read as. -/
def readLine (line : Bytes) : Option Receipt :=
  if line.length = 0 then none else codec.unmarshal line

/-- `All`.  A file that does not exist has no receipts. -/
def all (file : Option Bytes) : List Receipt :=
  match file with
  | none => []
  | some raw => (splitLines raw).filterMap (readLine codec)

/-! ### Writing -/

/-- How a call of `Append` ends. -/
inductive Outcome
  /-- The file cannot be opened. -/
  | openFailed
  /-- A crash, or a failed write, after `n` bytes. -/
  | cut (n : ℕ)
  /-- A crash after the write, or a failed sync. -/
  | unsynced
  | ok
  deriving DecidableEq

/-- A receipt without a time gets one. -/
def stamp (now : Bytes) (receipt : Receipt) : Receipt :=
  if receipt.settledAt = [] then { receipt with settledAt := now } else receipt

/-- `Append`: the file it leaves, and whether it returns nil. -/
def append (file : Option Bytes) (now : Bytes) (receipt : Receipt) (o : Outcome) :
    Option Bytes × Bool :=
  let line := codec.marshal (stamp now receipt) ++ [newline]
  match o with
  | .openFailed => (file, false)
  | .cut n => (some (file.getD [] ++ line.take n), false)
  | .unsynced => (some (file.getD [] ++ line), false)
  | .ok => (some (file.getD [] ++ line), true)

/-- The file, and the receipts whose `Append` has returned nil. -/
structure Log where
  file : Option Bytes
  acknowledged : List Receipt
  deriving DecidableEq

/-- A call of `Append`. -/
structure Append where
  now : Bytes
  receipt : Receipt
  outcome : Outcome
  deriving DecidableEq

/-- **The log.**  It is opened anew after a crash, which leaves the file as it is. -/
def receiptLog : System Log Append where
  init := ⟨none, []⟩
  step s c :=
    let r := append codec s.file c.now c.receipt c.outcome
    some ⟨r.1, if r.2 then s.acknowledged ++ [stamp c.now c.receipt] else s.acknowledged⟩

/-! ### The loop -/

/-- The loop invariant: what has been read is the lines so far and the one that has begun. -/
theorem foldl_splitStep (p q : Bytes) :
    let acc := p.zipIdx.foldl (splitStep (p ++ q)) ([], 0)
    acc.2 ≤ p.length ∧ p.splitOn newline = acc.1 ++ [p.drop acc.2] := by
  induction p using List.reverseRecOn generalizing q with
  | nil => simp
  | append_singleton p b ih =>
    obtain ⟨hle, hsplit⟩ := ih (b :: q)
    rw [List.zipIdx_append, List.foldl_append, List.append_assoc, List.singleton_append]
    generalize List.foldl (splitStep (p ++ b :: q)) ([], 0) p.zipIdx = acc at hle hsplit ⊢
    simp only [List.zipIdx_singleton, List.foldl_cons, List.foldl_nil, splitStep, Nat.zero_add,
      List.length_append, List.length_singleton]
    split_ifs with hb
    · refine ⟨le_rfl, ?_⟩
      have hline : (p ++ b :: q).extract acc.2 p.length = p.drop acc.2 := by
        rw [List.extract_eq_take_drop, List.drop_append_of_le_length hle,
          List.take_append_of_le_length (by simp), List.take_of_length_le (by simp)]
      have hnil : (p ++ [b]).drop (p.length + 1) = [] := List.drop_of_length_le (by simp)
      show (p ++ [b]).splitOn newline =
        (acc.1 ++ [(p ++ b :: q).extract acc.2 p.length]) ++ [(p ++ [b]).drop (p.length + 1)]
      rw [hline, hnil, hb, Lines.splitOn_concat_sep, hsplit]
    · refine ⟨by omega, ?_⟩
      rw [Lines.splitOn_concat_of_ne hb hsplit, List.drop_append_of_le_length hle]

/-- **The lines of a file**: those that a newline ends, and what follows the last one. -/
theorem splitLines_eq (raw : Bytes) :
    splitLines raw = Lines.complete newline raw ∨
      ∃ t, splitLines raw = Lines.complete newline raw ++ [t] := by
  obtain ⟨-, hsplit⟩ := foldl_splitStep raw []
  rw [List.append_nil] at hsplit
  have hlines : (raw.zipIdx.foldl (splitStep raw) ([], 0)).1 = Lines.complete newline raw := by
    rw [Lines.complete, hsplit, List.dropLast_concat]
  unfold splitLines
  simp only [hlines]
  split_ifs
  · exact Or.inr ⟨_, rfl⟩
  · exact Or.inl rfl

/-! ### What is read back -/

variable {codec} {s : Log}

/-- What the complete lines are read as, `All` returns. -/
theorem complete_sublist (raw : Bytes) :
    ((Lines.complete newline raw).filterMap (readLine codec)).Sublist (all codec (some raw)) := by
  refine List.Sublist.filterMap _ ?_
  rcases splitLines_eq raw with h | ⟨t, h⟩
  · exact h ▸ List.Sublist.refl _
  · exact h ▸ List.sublist_append_left _ _

/-- The log, with what it has acknowledged among its complete lines. -/
def Kept (codec : ReceiptCodec) (s : Log) : Prop :=
  s.acknowledged.Sublist
    ((Lines.complete newline (s.file.getD [])).filterMap (readLine codec))

/-- Whatever is appended, what was acknowledged is kept. -/
theorem Kept.write (h : Kept codec s) (bs : Bytes) :
    Kept codec ⟨some (s.file.getD [] ++ bs), s.acknowledged⟩ :=
  List.Sublist.trans h ((Lines.complete_prefix _ bs).sublist.filterMap _)

theorem readLine_marshal (r : Receipt) : readLine codec (codec.marshal r) = some r := by
  rw [readLine, if_neg (by simpa using codec.marshal_ne_nil r), codec.unmarshal_marshal]

/-- A receipt that is appended where a line can begin is kept, too. -/
theorem Kept.line (h : Kept codec s) (ht : Lines.Terminated newline (s.file.getD []))
    (r : Receipt) :
    Kept codec
      ⟨some (s.file.getD [] ++ (codec.marshal r ++ [newline])), s.acknowledged ++ [r]⟩ := by
  rw [Kept, Option.getD_some, Lines.complete_line ht (codec.newline_not_mem r),
    List.filterMap_append, List.filterMap_cons_some (readLine_marshal r)]
  exact List.Sublist.append h (List.Sublist.refl _)

/-- An `Append` that returns nil begins a line: the file is missing, empty, or ends in a newline. -/
def Clean (s : Log) (c : Append) : Prop :=
  c.outcome = .ok → Lines.Terminated newline (s.file.getD [])

instance (s : Log) (c : Append) : Decidable (Clean s c) :=
  inferInstanceAs (Decidable (_ → _))

theorem reach_kept (h : (receiptLog codec).Reach Clean s) : Kept codec s := by
  have h0 : Kept codec ⟨none, []⟩ := List.nil_sublist _
  refine h.invariant (I := Kept codec) h0 fun s c t _ hs hc ht => ?_
  cases ht
  unfold append
  cases ho : c.outcome with
  | openFailed => exact hs
  | cut n => exact hs.write _
  | unsynced => exact hs.write _
  | ok => exact hs.line (hc ho) _

/-- **No acknowledged receipt is lost**, if each is appended where a line can begin: whatever
partial lines the other appends have left behind, `All` returns it, in order. -/
theorem acknowledged_read (h : (receiptLog codec).Reach Clean s) :
    s.acknowledged.Sublist (all codec s.file) := by
  have hk := reach_kept h
  cases hf : s.file with
  | none =>
    rw [Kept, hf] at hk
    exact hk
  | some raw =>
    rw [Kept, hf] at hk
    exact hk.trans (complete_sublist raw)

/-! ### With the codec itself -/

section Json

/-- The bytes of a text of ASCII characters. -/
def ascii (s : String) : Bytes := s.toList.map fun c => UInt8.ofNat c.toNat

/-- The members of a receipt's object, each behind its key. -/
def fields (r : Receipt) : List (Bytes × Bytes) :=
  [(ascii "\x7b\"job_id\":\"", r.jobID), (ascii ",\"transaction\":\"", r.transaction),
    (ascii ",\"payer\":\"", r.payer), (ascii ",\"pay_to\":\"", r.payTo),
    (ascii ",\"amount_tinybars\":\"", r.amountTinybars), (ascii ",\"asset\":\"", r.asset),
    (ascii ",\"network\":\"", r.network), (ascii ",\"settled_at\":\"", r.settledAt)]

/-- The receipt with the given values. -/
def ofValues : List Bytes → Option Receipt
  | [jobID, transaction, payer, payTo, amountTinybars, asset, network, settledAt] =>
    some { jobID, transaction, payer, payTo, amountTinybars, asset, network, settledAt }
  | _ => none

/-- The keys of `fields`. -/
def keys : List Bytes := (fields ⟨[], [], [], [], [], [], [], []⟩).map Prod.fst

theorem keys_eq (r : Receipt) : keys = (fields r).map Prod.fst := rfl

/-- Receipts as JSON objects. -/
def jsonCodec : ReceiptCodec where
  marshal r := Json.members (fields r)
  unmarshal bs := (Json.parseMembers keys bs).bind ofValues
  unmarshal_marshal r := by
    rw [keys_eq r, Json.parseMembers_members]
    rfl
  newline_not_mem r := by
    have hkeys : ∀ k ∈ keys, newline ∉ k := by decide
    exact Json.newline_not_mem_members fun m hm =>
      hkeys m.1 (keys_eq r ▸ List.mem_map_of_mem hm)
  marshal_ne_nil r := List.cons_ne_nil _ _

/-- A receipt of 100 tinybars. -/
def sample (transaction : String) : Receipt where
  jobID := ascii "s1"
  transaction := ascii transaction
  payer := ascii "0.0.7"
  payTo := ascii "0.0.8"
  amountTinybars := ascii "100"
  asset := ascii "0.0.0"
  network := ascii "hedera:testnet"
  settledAt := []

/-- The time of the examples. -/
def now : Bytes := ascii "2025-01-01T00:00:00Z"

/-- The write of one receipt stops after twelve bytes, and another receipt is appended. -/
theorem acknowledged_lost :
    ∃ s, (receiptLog jsonCodec).Reachable s ∧
      s.acknowledged = [stamp now (sample "t2")] ∧ all jsonCodec s.file = [] ∧
      ¬ s.acknowledged.Sublist (all jsonCodec s.file) := by
  obtain ⟨s, hs, hp⟩ := System.exists_reach (S := receiptLog jsonCodec) (C := System.Any)
    (p := fun s => decide (s.acknowledged = [stamp now (sample "t2")] ∧
      all jsonCodec s.file = []))
    [⟨now, sample "t1", .cut 12⟩, ⟨now, sample "t2", .ok⟩] (by decide +kernel)
  obtain ⟨hack, hall⟩ := of_decide_eq_true hp
  exact ⟨s, hs, hack, hall, by rw [hack, hall]; decide⟩

/-- A receipt is appended, the next one is cut short, and the log is read. -/
theorem acknowledged_read_cut :
    ∃ s, (receiptLog jsonCodec).Reach Clean s ∧ s.acknowledged = [stamp now (sample "t1")] ∧
      s.acknowledged.Sublist (all jsonCodec s.file) := by
  obtain ⟨s, hs, hp⟩ := System.exists_reach (S := receiptLog jsonCodec) (C := Clean)
    (p := fun s => decide (s.acknowledged = [stamp now (sample "t1")]))
    [⟨now, sample "t1", .ok⟩, ⟨now, sample "t2", .cut 12⟩] (by decide)
  exact ⟨s, hs, of_decide_eq_true hp, acknowledged_read hs⟩

end Json

end Receipts
end Mach402
