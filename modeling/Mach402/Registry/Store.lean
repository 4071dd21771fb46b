import Mach402.Library.Threads
import Mach402.Registry.Validate
import Mathlib.Logic.Function.Basic

/-!
# The registry's table

One row for each node, which `recordHeartbeat` replaces and `withdrawNode` marks.  Both read the
token of the row in one statement and write in another.

* `Listed.of`, `World.upsert`, `World.withdraw`: the statements that write;
* `Pc`, `act`: the two calls, from one statement to the next;
* `registry`: any number of calls, whose statements interleave in any order;
* `Row.Owned`, `FirstClaim`, `row_owned`: a row says what its owner has said last, as long as no row
  is claimed twice.
-/

namespace Mach402
namespace Registry

/-! ### Rows -/

/-- The columns that a heartbeat replaces. -/
structure Listed where
  publicUrl : String
  agentVersion : String
  payTo : String
  priceTinybars : String
  facilitatorUrl : String
  network : String
  asset : String
  feePayer : Option String
  paused : Bool
  gpu : GpuInfo
  /-- `{}` is `none`. -/
  limits : Option Limits
  imageAllowlist : List String
  leases : Option LeaseOffer
  agentId : Option ℕ
  agentAddress : Option String
  identityRegistry : Option String
  auditTopic : Option String
  deriving DecidableEq

/-- What a heartbeat says, with placeholders for what described batch jobs. -/
def Listed.of (beat : Heartbeat) : Listed where
  publicUrl := beat.publicUrl
  agentVersion := beat.agentVersion
  payTo := beat.payTo
  priceTinybars := beat.priceTinybars.getD "0"
  facilitatorUrl := beat.facilitatorUrl
  network := beat.network
  asset := beat.asset
  feePayer := beat.feePayer
  paused := beat.paused
  gpu := beat.gpu
  limits := beat.limits
  imageAllowlist := beat.imageAllowlist.getD []
  leases := beat.leases
  -- 0 is the contract's "unregistered" sentinel
  agentId := beat.agentId.filter (· ≠ 0)
  agentAddress := beat.agentAddress
  identityRegistry := beat.identityRegistry
  auditTopic := beat.auditTopic

/-- A row of `nodes`. -/
structure Row where
  tokenSha256 : String
  listed : Listed
  withdrawn : Bool
  firstSeenAt : ℕ
  lastSeenAt : ℕ
  deriving DecidableEq

/-- A request that has been validated. -/
inductive Request
  | heartbeat (beat : Heartbeat) (token : String)
  | withdraw (nodeId token : String)
  deriving DecidableEq

namespace Request

/-- The node that it is about. -/
def nodeId : Request → String
  | heartbeat beat _ => beat.nodeId
  | withdraw nodeId _ => nodeId

/-- The token that it carries. -/
def token : Request → String
  | heartbeat _ token => token
  | withdraw _ token => token

/-- The heartbeat of a request that is one. -/
def beat : Request → Option Heartbeat
  | heartbeat beat _ => some beat
  | withdraw _ _ => none

end Request

/-- The table, the database's clock, and a record of the requests whose write has been executed. -/
structure World where
  nodes : String → Option Row
  now : ℕ
  written : List Request

/-- A database without rows. -/
def World.initial (now : ℕ) : World := ⟨fun _ => none, now, []⟩

/-- The requests that have written a node's row. -/
def World.said (w : World) (n : String) : List Request := w.written.filter fun r => r.nodeId = n

/-- Equality of the bytes, in constant time. -/
def tokensMatch (a b : String) : Bool :=
  decide (a.toUTF8.size = b.toUTF8.size) && decide (a.toUTF8.data = b.toUTF8.data)

theorem tokensMatch_iff {a b : String} : tokensMatch a b = true ↔ a = b := by
  simp only [tokensMatch, Bool.and_eq_true, decide_eq_true_eq]
  refine ⟨fun h => String.toByteArray_inj.1 (ByteArray.ext h.2), ?_⟩
  rintro rfl
  exact ⟨rfl, rfl⟩

section Statements

variable (hashToken : String → String)

/-- The `INSERT`, which on a conflict updates all columns but the token and the first time. -/
def World.upsert (w : World) (beat : Heartbeat) (token : String) : World :=
  let row : Row :=
    match w.nodes beat.nodeId with
    | none => ⟨hashToken token, .of beat, false, w.now, w.now⟩
    | some row => { row with listed := .of beat, withdrawn := false, lastSeenAt := w.now }
  { w with
    nodes := Function.update w.nodes beat.nodeId (some row)
    written := w.written ++ [.heartbeat beat token] }

/-- The `UPDATE`, which does nothing where there is no row. -/
def World.withdraw (w : World) (nodeId token : String) : World :=
  { w with
    nodes := Function.update w.nodes nodeId
      ((w.nodes nodeId).map fun row => { row with withdrawn := true })
    written := w.written ++ [.withdraw nodeId token] }

/-- What the statement of a request writes. -/
def World.write (w : World) : Request → World
  | .heartbeat beat token => w.upsert hashToken beat token
  | .withdraw nodeId token => w.withdraw nodeId token

/-! ### The calls -/

/-- What a call returns. -/
inductive Answer
  | created
  | updated
  | withdrawn
  | wrongToken
  | unknown
  deriving DecidableEq

/-- Where a call is.  `claimed` is the token that its `SELECT` has found. -/
inductive Pc
  | select (r : Request)
  | write (r : Request) (claimed : Option String)
  | done (r : Request) (claimed : Option String) (answer : Answer)
  deriving DecidableEq

/-- What a call is told once it has written. -/
def told (claimed : Option String) : Request → Answer
  | .heartbeat _ _ => if claimed = none then .created else .updated
  | .withdraw _ _ => .withdrawn

/-- The next step of a call, and the request that it writes, if any. -/
def act (w : World) : Pc → Unit → Option (Option Request × Pc)
  | .select r, _ =>
    match (w.nodes r.nodeId).map Row.tokenSha256, r with
    | none, .heartbeat _ _ => some (none, .write r none)
    | none, .withdraw _ _ => some (none, .done r none .unknown)
    | some claimed, _ =>
      if tokensMatch claimed (hashToken r.token) then some (none, .write r (some claimed))
      else some (none, .done r (some claimed) .wrongToken)
  | .write r claimed, _ => some (some r, .done r claimed (told claimed r))
  | .done _ _ _, _ => none

/-- What a step writes, if anything. -/
def World.apply (w : World) : Option Request → World
  | none => w
  | some r => w.write hashToken r

/-- **The registry.**  The environment lets time pass. -/
def registry : Machine World (Option Request) Pc Unit Request ℕ where
  act := act hashToken
  apply := World.apply hashToken
  start := .select
  env w ms := { w with now := w.now + ms }

/-- The registry, from an empty table on. -/
abbrev registrySystem (now : ℕ) := (registry hashToken).system (World.initial now)

end Statements

/-- The database and the calls under way. -/
abbrev Config := Machine.Config World Pc

/-- What happens. -/
abbrev Label := Machine.Label Unit Request ℕ

variable {hashToken : String → String} {w : World} {n owner : String} {row : Row} {r : Request}
  {rs : List Request} {p p' : Pc} {op : Option Request} {c : Config} {now : ℕ}

/-- What a call does next. -/
inductive Acts (hashToken : String → String) (w : World) : Pc → Option Request → Pc → Prop
  | unclaimed {beat : Heartbeat} {token : String} (hn : w.nodes beat.nodeId = none) :
    Acts hashToken w (.select (.heartbeat beat token)) none (.write (.heartbeat beat token) none)
  | unknown {nodeId token : String} (hn : w.nodes nodeId = none) :
    Acts hashToken w (.select (.withdraw nodeId token)) none
      (.done (.withdraw nodeId token) none .unknown)
  | matched {r : Request} {row : Row} (hn : w.nodes r.nodeId = some row)
    (hm : row.tokenSha256 = hashToken r.token) :
    Acts hashToken w (.select r) none (.write r (some row.tokenSha256))
  | mismatched {r : Request} {row : Row} (hn : w.nodes r.nodeId = some row)
    (hm : row.tokenSha256 ≠ hashToken r.token) :
    Acts hashToken w (.select r) none (.done r (some row.tokenSha256) .wrongToken)
  | written {r : Request} {claimed : Option String} :
    Acts hashToken w (.write r claimed) (some r) (.done r claimed (told claimed r))

theorem acts_of_act {o : Unit} (ha : act hashToken w p o = some (op, p')) :
    Acts hashToken w p op p' := by
  cases p with
  | select r =>
    cases hn : w.nodes r.nodeId with
    | none =>
      cases r with
      | heartbeat beat token =>
        simp only [act, hn, Option.map_none, Option.some.injEq, Prod.mk.injEq] at ha
        obtain ⟨rfl, rfl⟩ := ha
        exact .unclaimed hn
      | withdraw nodeId token =>
        simp only [act, hn, Option.map_none, Option.some.injEq, Prod.mk.injEq] at ha
        obtain ⟨rfl, rfl⟩ := ha
        exact .unknown hn
    | some row =>
      simp only [act, hn, Option.map_some] at ha
      split_ifs at ha with hm
      · cases ha
        exact .matched hn (tokensMatch_iff.1 hm)
      · cases ha
        exact .mismatched hn fun h => hm (tokensMatch_iff.2 h)
  | write r claimed => cases ha; exact .written
  | done => cases ha

/-! ### What a write changes -/

theorem write_nodes_of_ne (h : n ≠ r.nodeId) : (w.write hashToken r).nodes n = w.nodes n := by
  cases r <;> exact Function.update_of_ne h _ _

theorem write_said (w : World) (r : Request) (n : String) :
    (w.write hashToken r).said n = w.said n ++ if r.nodeId = n then [r] else [] := by
  have hw : (w.write hashToken r).written = w.written ++ [r] := by cases r <;> rfl
  rw [World.said, hw, List.filter_append, List.filter_singleton]
  simp only [Bool.cond_decide, World.said]

theorem write_heartbeat_nodes {beat : Heartbeat} {token : String} :
    (w.write hashToken (.heartbeat beat token)).nodes beat.nodeId =
      some ((w.nodes beat.nodeId).elim ⟨hashToken token, .of beat, false, w.now, w.now⟩ fun row =>
        { row with listed := .of beat, withdrawn := false, lastSeenAt := w.now }) := by
  show Function.update w.nodes beat.nodeId (some _) beat.nodeId = _
  rw [Function.update_self]
  cases w.nodes beat.nodeId <;> rfl

theorem write_withdraw_nodes {nodeId token : String} :
    (w.write hashToken (.withdraw nodeId token)).nodes nodeId =
      (w.nodes nodeId).map fun row => { row with withdrawn := true } :=
  Function.update_self _ _ _

/-- A row is there, with this token. -/
def World.Holds (w : World) (n token : String) : Prop :=
  (w.nodes n).map Row.tokenSha256 = some token

theorem holds_of_nodes (h : w.nodes n = some row) : w.Holds n row.tokenSha256 := by
  rw [World.Holds, h]
  rfl

/-- A first heartbeat leaves its token. -/
theorem holds_claimed {beat : Heartbeat} {token : String} (h : w.nodes beat.nodeId = none) :
    (w.write hashToken (.heartbeat beat token)).Holds beat.nodeId (hashToken token) := by
  rw [World.Holds, write_heartbeat_nodes, h]
  rfl

/-- **A token stays.** -/
theorem World.Holds.write {token : String} (h : w.Holds n token) :
    (w.write hashToken r).Holds n token := by
  by_cases hn : n = r.nodeId
  · obtain ⟨row, hrow, rfl⟩ := Option.map_eq_some_iff.1 h
    subst hn
    cases r with
    | heartbeat beat tok =>
      rw [World.Holds, Request.nodeId, write_heartbeat_nodes,
        show w.nodes beat.nodeId = _ from hrow]
      rfl
    | withdraw nodeId tok =>
      rw [World.Holds, Request.nodeId, write_withdraw_nodes, show w.nodes nodeId = _ from hrow]
      rfl
  · rw [World.Holds, write_nodes_of_ne hn]
    exact h

/-! ### What an owner has said -/

/-- The last heartbeat among requests on one row. -/
def lastBeat (rs : List Request) : Option Heartbeat := rs.reverse.findSome? Request.beat

/-- Whether the last of them is a withdrawal. -/
def endsWithdrawn (rs : List Request) : Bool := rs.getLast?.any fun r => r.beat.isNone

theorem lastBeat_heartbeat (rs : List Request) (beat : Heartbeat) (token : String) :
    lastBeat (rs ++ [.heartbeat beat token]) = some beat := by
  rw [lastBeat, List.reverse_append]
  rfl

theorem lastBeat_withdraw (rs : List Request) (nodeId token : String) :
    lastBeat (rs ++ [.withdraw nodeId token]) = lastBeat rs := by
  rw [lastBeat, List.reverse_append]
  rfl

theorem endsWithdrawn_append (rs : List Request) (r : Request) :
    endsWithdrawn (rs ++ [r]) = r.beat.isNone := by
  rw [endsWithdrawn, List.getLast?_concat, Option.any_some]

/-- **An owned row**: whoever holds its token has made all the requests that have written it, and it
says what the last of them say. -/
structure Row.Owned (hashToken : String → String) (row : Row) (owner : String) (rs : List Request) :
    Prop where
  token : row.tokenSha256 = hashToken owner
  own : ∀ r ∈ rs, r.token = owner
  listed : ∃ beat, lastBeat rs = some beat ∧ row.listed = .of beat
  withdrawn : row.withdrawn = endsWithdrawn rs

namespace Row.Owned

variable {beat : Heartbeat} {nodeId token : String}

/-- A row is claimed. -/
theorem claim (hashToken : String → String) (beat : Heartbeat) (owner : String) (t : ℕ) :
    Row.Owned hashToken ⟨hashToken owner, .of beat, false, t, t⟩ owner
      [.heartbeat beat owner] where
  token := rfl
  own r hr := by rw [List.mem_singleton.1 hr]; rfl
  listed := ⟨beat, rfl, rfl⟩
  withdrawn := rfl

theorem own_append (h : row.Owned hashToken owner rs) (hr : r.token = owner) :
    ∀ r' ∈ rs ++ [r], r'.token = owner := by
  intro r' hmem
  rcases List.mem_append.1 hmem with hmem | hmem
  · exact h.own r' hmem
  · rw [List.mem_singleton.1 hmem, hr]

/-- Its owner replaces what it lists. -/
theorem heartbeat (h : row.Owned hashToken owner rs) (beat : Heartbeat) (t : ℕ) :
    Row.Owned hashToken { row with listed := .of beat, withdrawn := false, lastSeenAt := t } owner
      (rs ++ [.heartbeat beat owner]) where
  token := h.token
  own := h.own_append rfl
  listed := ⟨beat, lastBeat_heartbeat rs beat owner, rfl⟩
  withdrawn := by
    rw [endsWithdrawn_append]
    rfl

/-- Its owner withdraws it. -/
theorem withdraw (h : row.Owned hashToken owner rs) (nodeId : String) :
    Row.Owned hashToken { row with withdrawn := true } owner
      (rs ++ [.withdraw nodeId owner]) where
  token := h.token
  own := h.own_append rfl
  listed := by
    rw [lastBeat_withdraw]
    exact h.listed
  withdrawn := by
    rw [endsWithdrawn_append]
    rfl

end Row.Owned

/-- **Every row is owned**, and nobody has said anything about the others. -/
structure World.Owned (hashToken : String → String) (w : World) : Prop where
  unsaid : ∀ n, w.nodes n = none → w.said n = []
  owned : ∀ n row, w.nodes n = some row → ∃ owner, row.Owned hashToken owner (w.said n)

theorem World.Owned.initial (hashToken : String → String) (now : ℕ) :
    (World.initial now).Owned hashToken :=
  ⟨fun _ _ => rfl, fun _ _ h => by cases h⟩

/-- A request that writes is a first claim or comes from the owner. -/
def World.Admits (hashToken : String → String) (w : World) (r : Request) : Prop :=
  w.Holds r.nodeId (hashToken r.token) ∨ w.nodes r.nodeId = none ∧ r.beat.isSome

/-- The row that has been written is owned. -/
theorem owned_write_self (hinj : Function.Injective hashToken) (h : w.Owned hashToken)
    (hr : w.Admits hashToken r) : ∃ row owner, (w.write hashToken r).nodes r.nodeId = some row ∧
      row.Owned hashToken owner ((w.write hashToken r).said r.nodeId) := by
  rw [write_said, if_pos rfl]
  rcases hr with hr | ⟨hnone, hbeat⟩
  · obtain ⟨row, hrow, htoken⟩ := Option.map_eq_some_iff.1 hr
    obtain ⟨owner, howned⟩ := h.owned _ row hrow
    have howner : r.token = owner := hinj (htoken.symm.trans howned.token)
    subst howner
    cases r with
    | heartbeat beat token =>
      refine ⟨_, token, write_heartbeat_nodes, ?_⟩
      rw [show w.nodes beat.nodeId = _ from hrow]
      exact howned.heartbeat beat w.now
    | withdraw nodeId token =>
      refine ⟨_, token, ?_, howned.withdraw nodeId⟩
      rw [Request.nodeId, write_withdraw_nodes, show w.nodes nodeId = _ from hrow]
      rfl
  · rw [h.unsaid _ hnone]
    cases r with
    | heartbeat beat token =>
      refine ⟨_, token, write_heartbeat_nodes, ?_⟩
      rw [show w.nodes beat.nodeId = _ from hnone]
      exact .claim hashToken beat token w.now
    | withdraw => cases hbeat

/-- **A write keeps every row owned.** -/
theorem World.Owned.write (hinj : Function.Injective hashToken) (h : w.Owned hashToken)
    (hr : w.Admits hashToken r) : (w.write hashToken r).Owned hashToken := by
  obtain ⟨row', owner', hrow', howned'⟩ := owned_write_self hinj h hr
  refine ⟨fun n hn => ?_, fun n row hn => ?_⟩
  · have hne : n ≠ r.nodeId := by
      rintro rfl
      rw [hrow'] at hn
      cases hn
    rw [write_nodes_of_ne hne] at hn
    rw [write_said, if_neg hne.symm, List.append_nil]
    exact h.unsaid n hn
  · by_cases hne : n = r.nodeId
    · subst hne
      rw [hrow', Option.some.injEq] at hn
      exact ⟨owner', hn ▸ howned'⟩
    · rw [write_nodes_of_ne hne] at hn
      rw [write_said, if_neg (Ne.symm hne), List.append_nil]
      exact h.owned n row hn

/-! ### The condition -/

/-- **No row is claimed twice.**  A heartbeat that has found no row inserts it while there is still
none. -/
def FirstClaim (c : Config) : Pc → Bool
  | .write r none => (c.shared.nodes r.nodeId).isNone
  | _ => true

/-- The runs that keep to it. -/
abbrev Orderly : Config → Label → Prop := Machine.Guard fun c _ p _ => FirstClaim c p

/-- What a call has found is there, and it goes on as its token allows. -/
def Pc.Sound (hashToken : String → String) (w : World) : Pc → Prop
  | .select _ => True
  | .write r none => r.beat.isSome
  | .write r (some claimed) => claimed = hashToken r.token ∧ w.Holds r.nodeId claimed
  | .done r none answer => answer = .unknown ∨ w.Holds r.nodeId (hashToken r.token)
  | .done r (some claimed) answer =>
    w.Holds r.nodeId claimed ∧ (claimed = hashToken r.token ∨ answer = .wrongToken)

theorem Pc.Sound.write (h : p.Sound hashToken w) (r : Request) :
    p.Sound hashToken (w.write hashToken r) := by
  cases p with
  | select => trivial
  | write r' claimed =>
    cases claimed with
    | none => exact h
    | some claimed => exact ⟨h.1, h.2.write⟩
  | done r' claimed answer =>
    cases claimed with
    | none => exact h.imp_right World.Holds.write
    | some claimed => exact ⟨h.1.write, h.2⟩

theorem Pc.Sound.apply (h : p.Sound hashToken w) (op : Option Request) :
    p.Sound hashToken (w.apply hashToken op) := by
  cases op with
  | none => exact h
  | some r => exact h.write r

/-- A call that is about to write may. -/
theorem Pc.Sound.admits {claimed : Option String}
    (h : Pc.Sound hashToken c.shared (.write r claimed))
    (hfirst : FirstClaim c (.write r claimed) = true) : c.shared.Admits hashToken r := by
  cases claimed with
  | none => exact Or.inr ⟨Option.isNone_iff_eq_none.1 hfirst, h⟩
  | some claimed => exact Or.inl (h.1 ▸ h.2)

/-- **One step** of a call, from a state in which every row is owned. -/
theorem Acts.sound (hinj : Function.Injective hashToken) (hI : c.shared.Owned hashToken)
    (h : p.Sound hashToken c.shared) (hfirst : FirstClaim c p = true)
    (ha : Acts hashToken c.shared p op p') :
    (c.shared.apply hashToken op).Owned hashToken ∧
      p'.Sound hashToken (c.shared.apply hashToken op) := by
  cases ha with
  | unclaimed => exact ⟨hI, rfl⟩
  | unknown => exact ⟨hI, Or.inl rfl⟩
  | matched hn hm => exact ⟨hI, hm, holds_of_nodes hn⟩
  | mismatched hn => exact ⟨hI, holds_of_nodes hn, Or.inr rfl⟩
  | @written r claimed =>
    have hadmits := h.admits hfirst
    refine ⟨hI.write hinj hadmits, ?_⟩
    cases claimed with
    | none =>
      refine Or.inr ?_
      rcases hadmits with hadmits | ⟨hnone, hbeat⟩
      · exact hadmits.write
      · cases r with
        | heartbeat beat token => exact holds_claimed hnone
        | withdraw => cases hbeat
    | some claimed => exact ⟨h.2.write, Or.inl h.1⟩

/-- **Every row is owned**, and every call is sound, in every state reached. -/
def storeOutline (hinj : Function.Injective hashToken) (now : ℕ) :
    Machine.Outline (registry hashToken) (World.initial now) Orderly where
  I w := w.Owned hashToken
  A w p := p.Sound hashToken w
  X _ _ := True
  init := .initial hashToken now
  symm _ _ _ := trivial
  start _ _ := trivial
  apart _ _ := trivial
  envI _ _ h := ⟨h.unsaid, h.owned⟩
  envA w ms p h := by
    cases p with
    | select => trivial
    | write r claimed => cases claimed <;> exact h
    | done r claimed answer => cases claimed <;> exact h
  act _ _ _ _ _ _ _ hp hC hI hA ha := (acts_of_act ha).sound hinj hI hA (hC.run hp)
  free _ _ _ _ _ _ op _ _ _ _ _ _ _ _ hq _ _ := ⟨hq.apply op, trivial⟩

/-! ### Who is told that it has created a row -/

/-- The call has made the row of a node. -/
def Pc.created (n : String) : Pc → Bool
  | .done r _ .created => r.nodeId = n
  | _ => false

theorem write_isSome (w : World) (r : Request) (n : String) :
    ((w.write hashToken r).nodes n).isSome =
      ((w.nodes n).isSome || (decide (r.nodeId = n) && r.beat.isSome)) := by
  by_cases hn : r.nodeId = n
  · subst hn
    cases r with
    | heartbeat beat token =>
      rw [Request.nodeId, write_heartbeat_nodes]
      simp [Request.beat]
    | withdraw nodeId token =>
      rw [Request.nodeId, write_withdraw_nodes, Option.isSome_map]
      simp [Request.beat]
  · rw [write_nodes_of_ne (Ne.symm hn)]
    simp [hn]

/-- A row comes into being together with a call that is told so. -/
theorem Acts.created (ha : Acts hashToken c.shared p op p') (h : p.Sound hashToken c.shared)
    (hfirst : FirstClaim c p = true) (n : String) :
    -(if ((c.shared.apply hashToken op).nodes n).isSome then 1 else 0 : ℤ) +
        (if p'.created n then 1 else 0) =
      -(if (c.shared.nodes n).isSome then 1 else 0) + if p.created n then 1 else 0 := by
  cases ha with
  | unclaimed | unknown | matched | mismatched => rfl
  | @written r claimed =>
    rw [World.apply, write_isSome]
    cases claimed with
    | none =>
      have hnone := Option.isNone_iff_eq_none.1 hfirst
      cases r with
      | heartbeat beat token =>
        by_cases hn : beat.nodeId = n
        · subst hn
          rw [show c.shared.nodes beat.nodeId = none from hnone]
          simp [told, Pc.created, Request.nodeId, Request.beat]
        · simp [told, Pc.created, Request.nodeId, hn]
      | withdraw => cases h
    | some claimed =>
      obtain ⟨row, hrow, -⟩ := Option.map_eq_some_iff.1 h.2
      have htold : (Pc.done r (some claimed) (told (some claimed) r)).created n = false := by
        cases r <;> rfl
      rw [htold]
      by_cases hn : r.nodeId = n
      · subst hn
        simp [hrow, Pc.created]
      · simp [hn, Pc.created]

/-- **One call is told so** for every row. -/
theorem count_created (hinj : Function.Injective hashToken)
    (h : (registrySystem hashToken now).Reach Orderly c) (n : String) :
    c.threads.countP (Pc.created n) = if (c.shared.nodes n).isSome then 1 else 0 := by
  have heq := Machine.account_eq (M := registry hashToken) (C := Orderly)
    (m := fun w => -(if (w.nodes n).isSome then 1 else 0 : ℤ))
    (f := fun p => if p.created n then 1 else 0) (fun _ => rfl) (fun _ _ => rfl)
    (fun c i o p op p' hr hp hC ha =>
      (acts_of_act ha).created (((storeOutline hinj now).holds hr).annot i p hp) (hC.run hp) n) h
  have hzero : -(if ((World.initial now).nodes n).isSome then 1 else 0 : ℤ) = 0 := rfl
  simp only [hzero, Machine.weigh_count] at heq
  split_ifs at heq ⊢ <;> omega

/-! ### Listings -/

/-- **A listing says what its owner said**, as long as no row is claimed twice: the holder of its
token has made every request that has written it, one call has been told that it created it, and a
call with another token has been turned away, a withdrawal from before the row by `unknown`. -/
theorem row_owned (hinj : Function.Injective hashToken)
    (h : (registrySystem hashToken now).Reach Orderly c) (hrow : c.shared.nodes n = some row) :
    ∃ owner, row.Owned hashToken owner (c.shared.said n) ∧
      c.threads.countP (Pc.created n) = 1 ∧
      ∀ r claimed answer, Pc.done r claimed answer ∈ c.threads → r.nodeId = n → r.token ≠ owner →
        answer = .wrongToken ∨ claimed = none ∧ answer = .unknown := by
  have hholds := (storeOutline hinj now).holds h
  obtain ⟨owner, howned⟩ := hholds.shared.owned n row hrow
  refine ⟨owner, howned, ?_, fun r claimed answer hmem hn hne => ?_⟩
  · rw [count_created hinj h, hrow]
    rfl
  · subst hn
    obtain ⟨i, hi⟩ := List.getElem?_of_mem hmem
    have hsound := hholds.annot i _ hi
    have howner : ∀ token, c.shared.Holds r.nodeId token → token = hashToken owner := by
      intro token htoken
      rw [World.Holds, hrow, Option.map_some, Option.some.injEq] at htoken
      rw [← htoken, howned.token]
    cases claimed with
    | none =>
      rcases hsound with hsound | hsound
      · exact Or.inr ⟨rfl, hsound⟩
      · exact absurd (hinj (howner _ hsound)) hne
    | some claimed =>
      rcases hsound.2 with htoken | hsound'
      · exact absurd (hinj (htoken.symm.trans (howner _ hsound.1))) hne
      · exact Or.inl hsound'

/-- The hashes of two tokens, and an injective function elsewhere. -/
def sampleHash (token : String) : String :=
  if token = "alice" then "2bd806c97f0e00af1a1fc3328fa763a9269723c8db8fac4f93af71db186d6e90"
  else if token = "bob" then "81b637d8fcd2c6da6359e6963113a1170de795e4b725b84d1e0b4cfd9ec58ce9"
  else "sha256:" ++ token

theorem sampleHash_injective : Function.Injective sampleHash := by
  have hhex : ∀ token, "sha256:" ++ token ≠
      "2bd806c97f0e00af1a1fc3328fa763a9269723c8db8fac4f93af71db186d6e90" ∧ "sha256:" ++ token ≠
      "81b637d8fcd2c6da6359e6963113a1170de795e4b725b84d1e0b4cfd9ec58ce9" := by
    intro token
    constructor <;> intro h <;> simp [← String.toList_inj] at h
  intro a b h
  unfold sampleHash at h
  grind [String.append_right_inj]

/-- A heartbeat of the examples. -/
def Heartbeat.sample (payTo : String) : Heartbeat where
  nodeId := "node"
  agentVersion := "1.0.0"
  publicUrl := "https://node.example"
  payTo := payTo
  priceTinybars := none
  facilitatorUrl := "https://api.testnet.blocky402.com"
  network := "hedera:testnet"
  asset := "0.0.0"
  feePayer := none
  paused := false
  gpu := ⟨false, none, none, none⟩
  limits := none
  imageAllowlist := none
  leases := none
  agentId := none
  agentAddress := none
  identityRegistry := none
  auditTopic := none

/-- Two first heartbeats both find no row, and the second one to write takes the listing over. -/
def claimTwice : List Label :=
  [.start (.heartbeat (.sample "0.0.1") "alice"), .start (.heartbeat (.sample "0.0.2") "bob"),
    .run 0 (), .run 1 (), .run 0 (), .run 1 ()]

theorem taken_over :
    ∃ c row, (registrySystem sampleHash 0).Reachable c ∧ c.shared.nodes "node" = some row ∧
      (row.tokenSha256 = sampleHash "alice" ∧ row.listed.payTo = "0.0.2" ∧
        c.threads.countP (Pc.created "node") = 2) ∧
      ¬ ∃ owner, row.Owned sampleHash owner (c.shared.said "node") := by
  obtain ⟨c, hc, hp⟩ := System.exists_reach (S := registrySystem sampleHash 0)
    (C := System.Any)
    (p := fun c => decide (
      c.shared.nodes "node" = some ⟨sampleHash "alice", .of (.sample "0.0.2"), false, 0, 0⟩ ∧
      c.shared.said "node" =
        [.heartbeat (.sample "0.0.1") "alice", .heartbeat (.sample "0.0.2") "bob"] ∧
      c.threads.countP (Pc.created "node") = 2)) claimTwice (by decide)
  obtain ⟨hrow, hsaid, hcount⟩ := of_decide_eq_true hp
  refine ⟨c, _, hc, hrow, ⟨rfl, rfl, hcount⟩, ?_⟩
  rintro ⟨owner, howned⟩
  rw [hsaid] at howned
  have halice : "alice" = owner := howned.own (.heartbeat (.sample "0.0.1") "alice") (by simp)
  have hbob : "bob" = owner := howned.own (.heartbeat (.sample "0.0.2") "bob") (by simp)
  exact absurd (halice.trans hbob.symm) (by decide)

/-- A second token is turned away, and the owner withdraws its node. -/
theorem row_owned_withdrawn :
    ∃ c row, (registrySystem sampleHash 0).Reach Orderly c ∧ c.shared.nodes "node" = some row ∧
      (row.withdrawn = true ∧ row.listed.payTo = "0.0.1") ∧
      ∃ owner, row.Owned sampleHash owner (c.shared.said "node") ∧
        c.threads.countP (Pc.created "node") = 1 ∧
        ∀ r claimed answer, Pc.done r claimed answer ∈ c.threads → r.nodeId = "node" →
          r.token ≠ owner → answer = .wrongToken ∨ claimed = none ∧ answer = .unknown := by
  obtain ⟨c, hc, hp⟩ := System.exists_reach (S := registrySystem sampleHash 0) (C := Orderly)
    (p := fun c => decide (
      c.shared.nodes "node" = some ⟨sampleHash "alice", .of (.sample "0.0.1"), true, 0, 0⟩))
    [.start (.heartbeat (.sample "0.0.1") "alice"), .run 0 (), .run 0 (),
      .start (.heartbeat (.sample "0.0.2") "bob"), .run 1 (), .start (.withdraw "node" "alice"),
      .run 2 (), .run 2 ()] (by decide)
  have hrow := of_decide_eq_true hp
  exact ⟨c, _, hc, hrow, ⟨rfl, rfl⟩, row_owned sampleHash_injective hc hrow⟩

end Registry
end Mach402
