import Mathlib.Data.Int.Notation
import Mathlib.Tactic.Common

/-!
# What nodes send to the registry

The body of a heartbeat, as `validate.ts` parses it.  A field that may be left out is an `Option`;
one that may also be `null` is an `Option` of an `Option`.

* `Heartbeat`, `LeaseOffer`: what has been parsed;
* `leaseIssues`, `parseLeases`: the part of `heartbeatSchema` for what a node sells;
* `LeaseBody.Fits`, `leaseIssues_eq_nil`: what it accepts.
-/

namespace Mach402
namespace Registry

/-- `gpu` of a heartbeat. -/
structure GpuInfo where
  available : Bool
  model : Option (Option String)
  vramMb : Option (Option ℕ)
  reason : Option String
  deriving DecidableEq

/-- What a build that also sold batch jobs says of them. -/
structure Limits where
  maxSeconds : ℕ
  memoryMb : ℕ
  cpuCores : ℕ
  maxArtifactMb : ℕ
  deriving DecidableEq

/-- What sessions are paid by. -/
inductive PaymentMode
  | direct
  | session
  deriving DecidableEq

/-- What a node sells. -/
structure LeaseOffer where
  priceTinybarsPerMinute : String
  minMinutes : ℕ
  maxMinutes : ℕ
  maxTotalMinutes : ℕ
  ssh : Bool
  jupyter : Bool
  gpu : Bool
  memoryMb : ℕ
  cpuCores : ℕ
  workspaceGb : ℕ
  egressAllowlist : List String
  paymentMode : Option PaymentMode
  chunkSeconds : Option ℕ
  priceTinybarsPerSecond : Option String
  deriving DecidableEq

/-- What a heartbeat is parsed to. -/
structure Heartbeat where
  nodeId : String
  agentVersion : String
  publicUrl : String
  payTo : String
  priceTinybars : Option String
  facilitatorUrl : String
  network : String
  asset : String
  feePayer : Option String
  paused : Bool
  gpu : GpuInfo
  limits : Option Limits
  imageAllowlist : Option (List String)
  leases : Option LeaseOffer
  agentId : Option ℕ
  agentAddress : Option String
  identityRegistry : Option String
  auditTopic : Option String
  deriving DecidableEq

/-! ### The schema of a lease offer -/

/-- The object that is parsed.  `null` for a list is `none`. -/
structure LeaseBody where
  priceTinybarsPerMinute : String
  minMinutes : ℤ
  maxMinutes : ℤ
  maxTotalMinutes : ℤ
  ssh : Bool
  jupyter : Bool
  gpu : Bool
  memoryMb : ℤ
  cpuCores : ℤ
  workspaceGb : ℤ
  egressAllowlist : Option (List String)
  paymentMode : Option String
  chunkSeconds : Option ℤ
  priceTinybarsPerSecond : Option String
  deriving DecidableEq

/-- The path of a field that is not accepted, and the message, where the schema has its own. -/
structure Issue where
  path : String
  message : Option String
  deriving DecidableEq

/-- An issue with a field of `leases`. -/
def Issue.of (field : String) (message : Option String) : Issue := ⟨"leases." ++ field, message⟩

/-- `z.number().int().min(lo).max(hi)`. -/
def intIssues (lo hi : ℤ) (field : String) (n : ℤ) : List Issue :=
  if lo ≤ n ∧ n ≤ hi then [] else [.of field none]

/-- `/^\d{1,20}$/`. -/
def isTinybars (s : String) : Bool :=
  decide (1 ≤ s.length) && decide (s.length ≤ 20) && s.toList.all Char.isDigit

/-- What is wrong with an amount. -/
def tinybarsIssues (field : String) (s : String) : List Issue :=
  if isTinybars s then []
  else [.of field (some (field ++ " must be a whole number of tinybars, as a string"))]

/-- `shortText`.  The schema library counts code points. -/
def isShortText (s : String) : Bool :=
  decide (1 ≤ s.length) && decide (s.length ≤ 200)

/-- `z.array(shortText).max(256)`. -/
def shortTextsIssues (field : String) : Option (List String) → List Issue
  | none => [.of field none]
  | some texts =>
    (if texts.length ≤ 256 then [] else [.of field none]) ++
      (texts.zipIdx.filter fun t => !isShortText t.1).map
        fun t => .of (field ++ "." ++ toString t.2) none

/-- `z.enum`. -/
def PaymentMode.parse : String → Option PaymentMode
  | "direct" => some .direct
  | "session" => some .session
  | _ => none

/-- What is wrong with a mode. -/
def paymentModeIssues (field : String) (s : String) : List Issue :=
  if (PaymentMode.parse s).isSome then [] else [.of field none]

/-- `.optional()`. -/
def optional {α : Type} (f : α → List Issue) : Option α → List Issue
  | none => []
  | some a => f a

/-- All that is wrong with an offer, in the order of the schema. -/
def leaseIssues (b : LeaseBody) : List Issue :=
  tinybarsIssues "price_tinybars_per_minute" b.priceTinybarsPerMinute ++
  intIssues 1 10080 "min_minutes" b.minMinutes ++
  intIssues 1 10080 "max_minutes" b.maxMinutes ++
  intIssues 1 525600 "max_total_minutes" b.maxTotalMinutes ++
  intIssues 1 10000000 "memory_mb" b.memoryMb ++
  intIssues 1 1024 "cpu_cores" b.cpuCores ++
  intIssues 0 1000000 "workspace_gb" b.workspaceGb ++
  shortTextsIssues "egress_allowlist" b.egressAllowlist ++
  optional (paymentModeIssues "payment_mode") b.paymentMode ++
  optional (intIssues 1 86400 "chunk_seconds") b.chunkSeconds ++
  optional (tinybarsIssues "price_tinybars_per_second") b.priceTinybarsPerSecond

/-- `heartbeatSchema.leases`. -/
def parseLeases (b : LeaseBody) : Except (List Issue) LeaseOffer :=
  match leaseIssues b with
  | [] => .ok
    { priceTinybarsPerMinute := b.priceTinybarsPerMinute
      minMinutes := b.minMinutes.toNat
      maxMinutes := b.maxMinutes.toNat
      maxTotalMinutes := b.maxTotalMinutes.toNat
      ssh := b.ssh
      jupyter := b.jupyter
      gpu := b.gpu
      memoryMb := b.memoryMb.toNat
      cpuCores := b.cpuCores.toNat
      workspaceGb := b.workspaceGb.toNat
      egressAllowlist := b.egressAllowlist.getD []
      paymentMode := b.paymentMode.bind PaymentMode.parse
      chunkSeconds := b.chunkSeconds.map Int.toNat
      priceTinybarsPerSecond := b.priceTinybarsPerSecond }
  | issues => .error issues

theorem parseLeases_isOk {b : LeaseBody} : (parseLeases b).isOk = true ↔ leaseIssues b = [] := by
  unfold parseLeases
  split
  · next h => simp [h, Except.isOk, Except.toBool]
  · next h => simpa [Except.isOk, Except.toBool] using h

section Issues

variable {field s : String} {lo hi n : ℤ}

theorem intIssues_eq_nil : intIssues lo hi field n = [] ↔ lo ≤ n ∧ n ≤ hi := by
  unfold intIssues
  split_ifs with h <;> simp [h]

theorem tinybarsIssues_eq_nil : tinybarsIssues field s = [] ↔ isTinybars s = true := by
  unfold tinybarsIssues
  split_ifs with h <;> simp [h]

theorem paymentModeIssues_eq_nil :
    paymentModeIssues field s = [] ↔ (PaymentMode.parse s).isSome = true := by
  unfold paymentModeIssues
  split_ifs with h <;> simp [h]

theorem optional_eq_nil {α : Type} {f : α → List Issue} {o : Option α} :
    optional f o = [] ↔ ∀ a, o = some a → f a = [] := by
  cases o <;> simp [optional]

theorem shortTextsIssues_eq_nil {texts : List String} :
    shortTextsIssues field (some texts) = [] ↔
      texts.length ≤ 256 ∧ ∀ t ∈ texts, isShortText t = true := by
  rw [shortTextsIssues, List.append_eq_nil_iff, List.map_eq_nil_iff, List.filter_eq_nil_iff]
  refine and_congr (by split_ifs with h <;> simp [h]) ⟨fun h t ht => ?_, fun h t ht => ?_⟩
  · obtain ⟨i, hi⟩ := List.getElem?_of_mem ht
    have := h (t, i) (List.mk_mem_zipIdx_iff_getElem?.2 hi)
    simpa using this
  · have := h t.1 (List.fst_mem_of_mem_zipIdx ht)
    simpa using this

end Issues

/-- **What the schema accepts.** -/
structure LeaseBody.Fits (b : LeaseBody) : Prop where
  perMinute : isTinybars b.priceTinybarsPerMinute = true
  minMinutes : 1 ≤ b.minMinutes ∧ b.minMinutes ≤ 10080
  maxMinutes : 1 ≤ b.maxMinutes ∧ b.maxMinutes ≤ 10080
  maxTotalMinutes : 1 ≤ b.maxTotalMinutes ∧ b.maxTotalMinutes ≤ 525600
  memory : 1 ≤ b.memoryMb ∧ b.memoryMb ≤ 10000000
  cores : 1 ≤ b.cpuCores ∧ b.cpuCores ≤ 1024
  workspace : 0 ≤ b.workspaceGb ∧ b.workspaceGb ≤ 1000000
  allowlist : ∃ hosts, b.egressAllowlist = some hosts ∧ hosts.length ≤ 256 ∧
    ∀ h ∈ hosts, isShortText h = true
  paymentMode : ∀ m, b.paymentMode = some m → (PaymentMode.parse m).isSome = true
  chunk : ∀ n, b.chunkSeconds = some n → 1 ≤ n ∧ n ≤ 86400
  perSecond : ∀ s, b.priceTinybarsPerSecond = some s → isTinybars s = true

theorem allowlistIssues_eq_nil {field : String} {hosts : Option (List String)} :
    shortTextsIssues field hosts = [] ↔
      ∃ hs, hosts = some hs ∧ hs.length ≤ 256 ∧ ∀ h ∈ hs, isShortText h = true := by
  cases hosts with
  | none => simp [shortTextsIssues]
  | some hs => simp [shortTextsIssues_eq_nil]

theorem leaseIssues_eq_nil {b : LeaseBody} : leaseIssues b = [] ↔ b.Fits := by
  simp only [leaseIssues, List.append_eq_nil_iff, tinybarsIssues_eq_nil, intIssues_eq_nil,
    allowlistIssues_eq_nil, optional_eq_nil, paymentModeIssues_eq_nil]
  constructor
  · rintro ⟨⟨⟨⟨⟨⟨⟨⟨⟨⟨h1, h2⟩, h3⟩, h4⟩, h5⟩, h6⟩, h7⟩, h8⟩, h9⟩, h10⟩, h11⟩
    exact ⟨h1, h2, h3, h4, h5, h6, h7, h8, h9, h10, h11⟩
  · rintro ⟨h1, h2, h3, h4, h5, h6, h7, h8, h9, h10, h11⟩
    exact ⟨⟨⟨⟨⟨⟨⟨⟨⟨⟨h1, h2⟩, h3⟩, h4⟩, h5⟩, h6⟩, h7⟩, h8⟩, h9⟩, h10⟩, h11⟩

end Registry
end Mach402
