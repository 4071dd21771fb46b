import Mach402.Library.Search
import Mach402.Registry.Store
import Mathlib.Data.List.Dedup

/-!
# What the registry lists

The queries of the site and of agents that look for a node, over the rows of `Store`.  A node is
online while it has not withdrawn and a heartbeat has landed within the last 90 seconds; nothing is
stored of this, and each query reads it off the clock.

* `World.listNodes`, `World.getNode`, `toListing`: the queries;
* `toProviderView`: the same rows under the names that an agent looks for;
* `stamp`: what a run writes, and when; `World.Told`: the table follows it;
* `Heartbeat.listing`, `site_honest`: a listing is what the node's owner has last announced, and it
  is online just while that is recent and has not been withdrawn.
-/

namespace Mach402
namespace Registry

/-! ### The queries -/

/-- In milliseconds, in which the database's clock counts here. -/
def onlineWindow : ℕ := 90000

/-- `IS_ONLINE`. -/
def Row.online (row : Row) (now : ℕ) : Bool :=
  !row.withdrawn && decide (now < row.lastSeenAt + onlineWindow)

/-- `NodeListing`: a row as it is served. -/
structure NodeListing where
  nodeId : String
  agentVersion : String
  publicUrl : String
  payTo : String
  facilitatorUrl : String
  network : String
  asset : String
  feePayer : Option String
  paused : Bool
  gpu : GpuInfo
  leases : Option LeaseOffer
  agentId : Option ℕ
  agentAddress : Option String
  identityRegistry : Option String
  auditTopic : Option String
  online : Bool
  firstSeenAt : ℕ
  lastSeenAt : ℕ
  deriving DecidableEq

/-- What is `NULL` in a row is left out. -/
def toListing (nodeId : String) (row : Row) (now : ℕ) : NodeListing where
  nodeId := nodeId
  agentVersion := row.listed.agentVersion
  publicUrl := row.listed.publicUrl
  payTo := row.listed.payTo
  facilitatorUrl := row.listed.facilitatorUrl
  network := row.listed.network
  asset := row.listed.asset
  feePayer := row.listed.feePayer
  paused := row.listed.paused
  gpu := row.listed.gpu
  leases := row.listed.leases
  agentId := row.listed.agentId
  agentAddress := row.listed.agentAddress
  identityRegistry := row.listed.identityRegistry
  auditTopic := row.listed.auditTopic
  online := row.online now
  firstSeenAt := row.firstSeenAt
  lastSeenAt := row.lastSeenAt

/-- All rows, each with its key. -/
def World.rows (w : World) : List (String × Row) :=
  (w.written.map Request.nodeId).dedup.filterMap fun n => (w.nodes n).map fun row => (n, row)

/-- `ORDER BY online DESC, last_seen_at DESC`. -/
def precedes (now : ℕ) (a b : String × Row) : Bool :=
  if a.2.online now = b.2.online now then decide (b.2.lastSeenAt ≤ a.2.lastSeenAt)
  else a.2.online now

/-- The order of rows that were last seen at one moment is left open by the query. -/
def World.listNodes (w : World) (onlyOnline : Bool) : List NodeListing :=
  ((w.rows.filter fun r => !onlyOnline || r.2.online w.now).mergeSort (precedes w.now)).map
    fun r => toListing r.1 r.2 w.now

/-- `getNode`. -/
def World.getNode (w : World) (nodeId : String) : Option NodeListing :=
  (w.nodes nodeId).map fun row => toListing nodeId row w.now

/-! ### The view for agents -/

/-- What a provider is shown as. -/
inductive Status
  | online
  | paused
  | offline
  deriving DecidableEq

/-- The GPU of a provider, in whole gigabytes. -/
structure ProviderGpu where
  available : Bool
  vendor : Option String
  model : Option String
  vramGb : Option ℕ
  deriving DecidableEq

/-- What a provider asks for. -/
structure Pricing where
  perSecondTinybars : Option String
  refundable : Bool
  chunkSeconds : Option ℕ
  deriving DecidableEq

/-- Where a provider is reached. -/
structure Endpoint where
  url : String
  agentCard : String
  network : String
  payTo : String
  deriving DecidableEq

/-- `ProviderView`: a listing as agents read it. -/
structure ProviderView where
  providerId : String
  agentId : Option ℕ
  agentAddress : Option String
  identityRegistry : Option String
  auditTopic : Option String
  gpu : ProviderGpu
  capabilities : List String
  pricing : Pricing
  endpoint : Endpoint
  status : Status
  agentVersion : String
  firstSeenAt : ℕ
  lastSeenAt : ℕ
  deriving DecidableEq

/-- The words of the regular expression, which ignores case. -/
def nvidiaWords : List String :=
  ["nvidia", "rtx", "gtx", "tesla", "quadro", "a100", "h100", "l4", "t4"]

/-- `gpuVendor`, by the model's name. -/
def gpuVendor (model : Option String) : Option String :=
  match model with
  | none => none
  | some model =>
    if model = "" then none
    else if nvidiaWords.any fun word => Search.contains word.toList (model.toList.map Char.toLower)
    then some "NVIDIA" else none

/-- `capabilitiesOf`. -/
def capabilitiesOf (node : NodeListing) : List String :=
  ["docker", "x402"] ++ (if node.gpu.available then ["cuda"] else []) ++
    (match node.leases with
    | none => []
    | some leases =>
      (if leases.ssh then ["ssh"] else []) ++ (if leases.jupyter then ["jupyter"] else []) ++
        if leases.paymentMode = some .session then ["refundable"] else []) ++
    if node.auditTopic.isSome then ["hcs-audit"] else []

/-- Three states: a paused node is up and does not sell. -/
def statusOf (node : NodeListing) : Status :=
  if node.online then if node.paused then .paused else .online else .offline

/-- `url.replace(/\/$/, "")`. -/
def dropSlash (url : String) : String :=
  match url.toList.reverse with
  | '/' :: rest => String.ofList rest.reverse
  | _ => url

/-- `toProviderView`. -/
def toProviderView (node : NodeListing) : ProviderView :=
  let metered := decide (node.leases.bind LeaseOffer.paymentMode = some .session)
  let model := node.gpu.model.join
  { providerId := node.nodeId
    agentId := node.agentId
    agentAddress := node.agentAddress
    identityRegistry := node.identityRegistry
    auditTopic := node.auditTopic
    gpu :=
      { available := node.gpu.available
        vendor := gpuVendor model
        model := model
        -- `Math.round` of a quotient
        vramGb := node.gpu.vramMb.join.map fun mb => (mb + 512) / 1024 }
    capabilities := capabilitiesOf node
    pricing :=
      { perSecondTinybars := node.leases.bind LeaseOffer.priceTinybarsPerSecond
        refundable := metered
        chunkSeconds := if metered then node.leases.bind LeaseOffer.chunkSeconds else none }
    endpoint :=
      { url := node.publicUrl
        agentCard := dropSlash node.publicUrl ++ "/.well-known/agent-card.json"
        network := node.network
        payTo := node.payTo }
    status := statusOf node
    agentVersion := node.agentVersion
    firstSeenAt := node.firstSeenAt
    lastSeenAt := node.lastSeenAt }

section Order

variable {now : ℕ} {a b : String × Row}

theorem precedes_trans (now : ℕ) (a b c : String × Row) (hab : precedes now a b = true)
    (hbc : precedes now b c = true) : precedes now a c = true := by
  unfold precedes at *
  by_cases hb : a.2.online now = b.2.online now
  · rw [if_pos hb, decide_eq_true_eq] at hab
    rw [hb]
    by_cases hc : b.2.online now = c.2.online now
    · rw [if_pos hc, decide_eq_true_eq] at hbc
      rw [if_pos hc, decide_eq_true_eq]
      exact hbc.trans hab
    · rw [if_neg hc] at hbc ⊢
      exact hbc
  · -- from here on the first row is online and the others are not
    rw [if_neg hb] at hab
    have hoff : b.2.online now = false := by
      rw [hab] at hb
      exact Bool.eq_false_iff.2 (Ne.symm hb)
    rw [hoff] at hbc
    cases hc : c.2.online now with
    | false => simp [hab]
    | true => simp [hc] at hbc

theorem precedes_total (now : ℕ) (a b : String × Row) :
    (precedes now a b || precedes now b a) = true := by
  unfold precedes
  by_cases h : a.2.online now = b.2.online now
  · rw [if_pos h, if_pos h.symm, Bool.or_eq_true, decide_eq_true_eq, decide_eq_true_eq]
    exact Nat.le_total _ _
  · rw [if_neg h, if_neg (Ne.symm h)]
    cases ha : a.2.online now <;> cases hb : b.2.online now <;> simp_all

theorem precedes_iff : precedes now a b = true ↔
    (b.2.online now = true → a.2.online now = true) ∧
      (a.2.online now = b.2.online now → b.2.lastSeenAt ≤ a.2.lastSeenAt) := by
  unfold precedes
  cases a.2.online now <;> cases b.2.online now <;> simp

end Order

variable {hashToken : String → String} {w : World} {n : String} {row : Row} {r : Request}
  {c : Config} {now : ℕ}

/-- **The order of a page.** -/
theorem pairwise_listNodes (w : World) (onlyOnline : Bool) :
    (w.listNodes onlyOnline).Pairwise fun l l' =>
      (l'.online = true → l.online = true) ∧
        (l.online = l'.online → l'.lastSeenAt ≤ l.lastSeenAt) := by
  have hsorted : ((w.rows.filter fun r => !onlyOnline || r.2.online w.now).mergeSort
      (precedes w.now)).Pairwise fun a b => precedes w.now a b = true :=
    List.pairwise_mergeSort (precedes_trans w.now) (precedes_total w.now) _
  rw [World.listNodes, List.pairwise_map]
  refine hsorted.imp ?_
  intro a b h
  exact precedes_iff.1 h

/-- **No node is on a page twice.** -/
theorem nodup_listNodes (w : World) (onlyOnline : Bool) :
    ((w.listNodes onlyOnline).map NodeListing.nodeId).Nodup := by
  have hrows : (w.rows.map Prod.fst).Nodup := by
    have hmap : w.rows.map Prod.fst =
        (w.written.map Request.nodeId).dedup.filter fun n => (w.nodes n).isSome := by
      rw [World.rows]
      induction (w.written.map Request.nodeId).dedup with
      | nil => rfl
      | cons n ns ih => cases hn : w.nodes n <;> simp [hn, ih]
    rw [hmap]
    exact (List.nodup_dedup _).filter _
  have hsorted := List.mergeSort_perm (w.rows.filter fun r => !onlyOnline || r.2.online w.now)
    (precedes w.now)
  rw [World.listNodes, List.map_map]
  exact ((hsorted.map Prod.fst).nodup_iff).2 ((List.filter_sublist.map Prod.fst).nodup hrows)

theorem mem_rows (hw : w.Owned hashToken) : (n, row) ∈ w.rows ↔ w.nodes n = some row := by
  simp only [World.rows, List.mem_filterMap, List.mem_dedup, List.mem_map, Option.map_eq_some_iff,
    Prod.mk.injEq]
  constructor
  · rintro ⟨m, -, row', hrow, rfl, rfl⟩
    exact hrow
  · intro hrow
    obtain ⟨owner, howned⟩ := hw.owned n row hrow
    obtain ⟨beat, hbeat, -⟩ := howned.listed
    obtain ⟨r, hr, -⟩ := List.exists_of_findSome?_eq_some hbeat
    obtain ⟨hr, hn⟩ := List.mem_filter.1 (List.mem_reverse.1 hr)
    exact ⟨n, ⟨r, hr, of_decide_eq_true hn⟩, row, hrow, rfl, rfl⟩

/-- **A page has the nodes that a look-up finds**, or those of them that are online. -/
theorem mem_listNodes (hw : w.Owned hashToken) {onlyOnline : Bool} {l : NodeListing} :
    l ∈ w.listNodes onlyOnline ↔
      w.getNode l.nodeId = some l ∧ (onlyOnline = true → l.online = true) := by
  simp only [World.listNodes, List.mem_map, List.mem_mergeSort, List.mem_filter, Prod.exists,
    mem_rows hw, World.getNode, Option.map_eq_some_iff]
  constructor
  · rintro ⟨n, row, ⟨hrow, honline⟩, rfl⟩
    refine ⟨⟨row, hrow, rfl⟩, ?_⟩
    rintro rfl
    simpa [toListing] using honline
  · rintro ⟨⟨row, hrow, hl⟩, honline⟩
    refine ⟨l.nodeId, row, ⟨hrow, ?_⟩, hl⟩
    rw [← hl] at honline
    cases onlyOnline with
    | false => rfl
    | true => simpa [toListing] using honline rfl

/-! ### What has been written, and when -/

/-- A write, with the time of it. -/
abbrev Stamped := ℕ × Request

/-- Adds what an action writes. -/
def stamp (w : World) (_ : Pc) (op : Option Request) (log : List Stamped) : List Stamped :=
  match op with
  | none => log
  | some r => log ++ [(w.now, r)]

/-- The writes of a node's row. -/
def onNode (log : List Stamped) (n : String) : List Stamped := log.filter fun e => e.2.nodeId = n

/-- A run gets to `c` and has written `log`. -/
def Logs (hashToken : String → String) (now : ℕ) (c : Config) (log : List Stamped) : Prop :=
  Machine.Histories (registry hashToken) (World.initial now) Orderly stamp [] c log

/-- The last heartbeat of `log`, after which there are only withdrawals. -/
structure LastBeat (log : List Stamped) (t : ℕ) (beat : Heartbeat) (later : List Stamped) :
    Prop where
  split : ∃ earlier token, log = earlier ++ (t, .heartbeat beat token) :: later
  withdrawals : ∀ e ∈ later, e.2.beat = none

/-- A row, and what has written it. -/
structure Row.Told (row : Row) (log : List Stamped) : Prop where
  first : log.head?.map Prod.fst = some row.firstSeenAt
  last : ∃ beat later, LastBeat log row.lastSeenAt beat later ∧ row.listed = .of beat ∧
    (row.withdrawn = true ↔ later ≠ [])

/-- The table, and all that has been written. -/
structure World.Told (w : World) (log : List Stamped) : Prop where
  written : log.map Prod.snd = w.written
  untold : ∀ n, w.nodes n = none → onNode log n = []
  told : ∀ n row, w.nodes n = some row → row.Told (onNode log n)

theorem onNode_append (log : List Stamped) (e : Stamped) (n : String) :
    onNode (log ++ [e]) n = onNode log n ++ if e.2.nodeId = n then [e] else [] := by
  rw [onNode, List.filter_append, List.filter_singleton]
  simp only [Bool.cond_decide, onNode]

theorem map_onNode {log : List Stamped} (h : log.map Prod.snd = w.written) (n : String) :
    (onNode log n).map Prod.snd = w.said n := by
  rw [World.said, ← h, List.filter_map]
  rfl

namespace Row.Told

variable {log : List Stamped} {beat : Heartbeat} {token nodeId : String} {t : ℕ}

theorem claim (token' : String) (beat : Heartbeat) (token : String) (t : ℕ) :
    Row.Told ⟨token', .of beat, false, t, t⟩ [(t, .heartbeat beat token)] where
  first := rfl
  last := ⟨beat, [], ⟨⟨[], token, rfl⟩, by simp⟩, rfl, by simp⟩

theorem first_append (h : row.Told log) (e : Stamped) :
    (log ++ [e]).head?.map Prod.fst = some row.firstSeenAt := by
  have hfirst := h.first
  cases log with
  | nil => cases hfirst
  | cons e' log => exact hfirst

theorem heartbeat (h : row.Told log) (beat : Heartbeat) (token : String) (t : ℕ) :
    Row.Told { row with listed := .of beat, withdrawn := false, lastSeenAt := t }
      (log ++ [(t, .heartbeat beat token)]) where
  first := h.first_append _
  last := ⟨beat, [], ⟨⟨log, token, rfl⟩, by simp⟩, rfl, by simp⟩

theorem withdraw (h : row.Told log) (nodeId token : String) (t : ℕ) :
    Row.Told { row with withdrawn := true } (log ++ [(t, .withdraw nodeId token)]) where
  first := h.first_append _
  last := by
    obtain ⟨beat, later, ⟨⟨earlier, token', hsplit⟩, hlater⟩, hlisted, -⟩ := h.last
    refine ⟨beat, later ++ [(t, .withdraw nodeId token)], ⟨⟨earlier, token', ?_⟩, ?_⟩, hlisted, ?_⟩
    · rw [hsplit, List.append_assoc, List.cons_append]
    · intro e he
      rcases List.mem_append.1 he with he | he
      · exact hlater e he
      · rw [List.mem_singleton.1 he]
        rfl
    · simp

end Row.Told

/-- The row that has been written. -/
theorem told_write_self {log : List Stamped} (h : w.Told log) (hr : w.Admits hashToken r) :
    ∃ row, (w.write hashToken r).nodes r.nodeId = some row ∧
      row.Told (onNode log r.nodeId ++ [(w.now, r)]) := by
  cases hn : w.nodes r.nodeId with
  | some row =>
    have htold := h.told _ row hn
    cases r with
    | heartbeat beat token =>
      refine ⟨_, write_heartbeat_nodes, ?_⟩
      rw [show w.nodes beat.nodeId = _ from hn]
      exact htold.heartbeat beat token w.now
    | withdraw nodeId token =>
      refine ⟨_, ?_, htold.withdraw nodeId token w.now⟩
      rw [Request.nodeId, write_withdraw_nodes, show w.nodes nodeId = _ from hn]
      rfl
  | none =>
    rw [h.untold _ hn]
    cases r with
    | heartbeat beat token =>
      refine ⟨_, write_heartbeat_nodes, ?_⟩
      rw [show w.nodes beat.nodeId = _ from hn]
      exact .claim _ beat token w.now
    | withdraw nodeId token =>
      -- a withdrawal is written only where its call has found a row
      rcases hr with hr | ⟨-, hbeat⟩
      · rw [World.Holds, hn] at hr
        cases hr
      · cases hbeat

/-- **One write.** -/
theorem World.Told.write {log : List Stamped} (h : w.Told log) (hr : w.Admits hashToken r) :
    (w.write hashToken r).Told (log ++ [(w.now, r)]) := by
  obtain ⟨row', hrow', htold'⟩ := told_write_self h hr
  refine ⟨?_, fun n hn => ?_, fun n row hn => ?_⟩
  · rw [List.map_append, h.written]
    cases r <;> rfl
  · have hne : r.nodeId ≠ n := by
      rintro rfl
      rw [hrow'] at hn
      cases hn
    rw [write_nodes_of_ne hne.symm] at hn
    rw [onNode_append, if_neg hne, List.append_nil]
    exact h.untold n hn
  · rw [onNode_append]
    by_cases hne : r.nodeId = n
    · subst hne
      rw [hrow', Option.some.injEq] at hn
      rw [if_pos rfl, ← hn]
      exact htold'
    · rw [write_nodes_of_ne (Ne.symm hne)] at hn
      rw [if_neg hne, List.append_nil]
      exact h.told n row hn

theorem World.Told.initial (now : ℕ) : (World.initial now).Told [] :=
  ⟨rfl, fun _ _ => rfl, fun _ _ h => by cases h⟩

/-- **The table follows what is written**, in every state reached. -/
theorem told_of_logs (hinj : Function.Injective hashToken) {log : List Stamped}
    (h : Logs hashToken now c log) : c.shared.Told log := by
  refine Machine.Histories.invariant (I := World.Told) (.initial now)
    (fun w ms log ih => ⟨ih.written, ih.untold, ih.told⟩)
    (fun c i o p op p' log hc hp hC ha ih => ?_) h
  cases acts_of_act ha with
  | unclaimed | unknown | matched | mismatched => exact ih
  | written =>
    have hsound := ((storeOutline hinj now).holds hc).annot i _ hp
    exact ih.write (hsound.admits (hC.run hp))

/-! ### What is shown -/

/-- What a node announces, as it is listed. -/
def Heartbeat.listing (beat : Heartbeat) (online : Bool) (firstSeenAt lastSeenAt : ℕ) :
    NodeListing where
  nodeId := beat.nodeId
  agentVersion := beat.agentVersion
  publicUrl := beat.publicUrl
  payTo := beat.payTo
  facilitatorUrl := beat.facilitatorUrl
  network := beat.network
  asset := beat.asset
  feePayer := beat.feePayer
  paused := beat.paused
  gpu := beat.gpu
  leases := beat.leases
  agentId := if beat.agentId = some 0 then none else beat.agentId
  agentAddress := beat.agentAddress
  identityRegistry := beat.identityRegistry
  auditTopic := beat.auditTopic
  online := online
  firstSeenAt := firstSeenAt
  lastSeenAt := lastSeenAt

theorem toListing_eq {beat : Heartbeat} (h : row.listed = .of beat) (now : ℕ) :
    toListing beat.nodeId row now =
      beat.listing (row.online now) row.firstSeenAt row.lastSeenAt := by
  have hid : (Listed.of beat).agentId = if beat.agentId = some 0 then none else beat.agentId := by
    show beat.agentId.filter _ = _
    cases beat.agentId with
    | none => rfl
    | some id => by_cases hid : id = 0 <;> simp [hid]
  simp only [toListing, Heartbeat.listing, h, hid]
  rfl

/-- **A listing and what has written its node's row**: it shows what the holder of one token has
last announced, and it is online just while that is recent and has not been withdrawn. -/
structure NodeListing.Honest (l : NodeListing) (now : ℕ) (log : List Stamped) : Prop where
  owned : ∃ owner, ∀ e ∈ log, e.2.token = owner
  first : log.head?.map Prod.fst = some l.firstSeenAt
  last : ∃ beat later, LastBeat log l.lastSeenAt beat later ∧
    l = beat.listing l.online l.firstSeenAt l.lastSeenAt ∧
    (l.online = true ↔ later = [] ∧ now < l.lastSeenAt + onlineWindow) ∧
    ((toProviderView l).status = .online ↔
      later = [] ∧ now < l.lastSeenAt + onlineWindow ∧ beat.paused = false)

theorem honest_toListing {owner : String} {log : List Stamped} (h : row.Told (onNode log n))
    (howned : row.Owned hashToken owner ((onNode log n).map Prod.snd)) (now : ℕ) :
    (toListing n row now).Honest now (onNode log n) := by
  obtain ⟨beat, later, hlast, hlisted, hwithdrawn⟩ := h.last
  have hid : beat.nodeId = n := by
    obtain ⟨earlier, token, hsplit⟩ := hlast.split
    have hmem : (row.lastSeenAt, Request.heartbeat beat token) ∈ onNode log n := by
      rw [hsplit]
      simp
    exact of_decide_eq_true (List.mem_filter.1 hmem).2
  have honline : row.online now = true ↔ later = [] ∧ now < row.lastSeenAt + onlineWindow := by
    rw [Row.online, Bool.and_eq_true, decide_eq_true_eq, Bool.not_eq_true', Bool.eq_false_iff,
      ne_eq, hwithdrawn, not_not]
  refine ⟨⟨owner, fun e he => howned.own _ (List.mem_map_of_mem he)⟩, h.first, beat, later, hlast,
    ?_, honline, ?_⟩
  · subst hid
    exact toListing_eq hlisted now
  · show statusOf (toListing n row now) = .online ↔
      later = [] ∧ now < row.lastSeenAt + onlineWindow ∧ beat.paused = false
    rw [← and_assoc, ← honline]
    have hpaused : row.listed.paused = beat.paused := by
      rw [hlisted]
      rfl
    simp only [statusOf, toListing, hpaused]
    cases row.online now <;> cases beat.paused <;> simp

/-- **What the site and agents are shown**, as long as no row is claimed twice.  A page has each
node once, those that are online first and the most recently seen ones first among them, and it
agrees with a look-up; a node can be looked up once it has been announced; and every listing is
what its owner has last announced, online just while that is recent and not withdrawn. -/
theorem site_honest (hinj : Function.Injective hashToken) {log : List Stamped}
    (h : Logs hashToken now c log) :
    (∀ onlyOnline, ((c.shared.listNodes onlyOnline).map NodeListing.nodeId).Nodup ∧
      ((c.shared.listNodes onlyOnline).Pairwise fun l l' =>
        (l'.online = true → l.online = true) ∧
          (l.online = l'.online → l'.lastSeenAt ≤ l.lastSeenAt)) ∧
      ∀ l, l ∈ c.shared.listNodes onlyOnline ↔
        c.shared.getNode l.nodeId = some l ∧ (onlyOnline = true → l.online = true)) ∧
      (∀ n, c.shared.getNode n = none ↔ onNode log n = []) ∧
      ∀ n l, c.shared.getNode n = some l → l.Honest c.shared.now (onNode log n) := by
  have htold := told_of_logs hinj h
  have howned := ((storeOutline hinj now).holds h.reach).shared
  refine ⟨fun onlyOnline => ⟨nodup_listNodes _ _, pairwise_listNodes _ _,
    fun l => mem_listNodes howned⟩, fun n => ?_, fun n l hl => ?_⟩
  · rw [World.getNode, Option.map_eq_none_iff]
    refine ⟨htold.untold n, fun hnil => ?_⟩
    cases hrow : c.shared.nodes n with
    | none => rfl
    | some row =>
      have hfirst := (htold.told n row hrow).first
      rw [hnil] at hfirst
      cases hfirst
  · obtain ⟨row, hrow, rfl⟩ := Option.map_eq_some_iff.1 hl
    obtain ⟨owner, hrowned⟩ := howned.owned n row hrow
    rw [← map_onNode htold.written] at hrowned
    exact honest_toListing (htold.told n row hrow) hrowned c.shared.now

/-- Two heartbeats, between which another token is turned away. -/
theorem site_honest_twice :
    ∃ c log l, Logs sampleHash 0 c log ∧ c.shared.getNode "node" = some l ∧
      (log.length = 2 ∧ l.payTo = "0.0.3" ∧ l.online = true ∧ l.lastSeenAt = 40000) ∧
      l.Honest c.shared.now (onNode log "node") := by
  obtain ⟨⟨⟨w, log⟩, threads⟩, hc, hp⟩ := System.exists_reach
    (S := ((registry sampleHash).recording stamp).system (World.initial 0, []))
    (C := fun d l => Orderly d.forget l)
    (p := fun d => decide (d.shared.2.length = 2 ∧ d.shared.1.now = 100000 ∧
      d.shared.1.nodes "node" =
        some ⟨sampleHash "alice", .of (.sample "0.0.3"), false, 0, 40000⟩))
    [.start (.heartbeat (.sample "0.0.1") "alice"), .run 0 (), .run 0 (), .env 40000,
      .start (.heartbeat (.sample "0.0.2") "bob"), .run 1 (),
      .start (.heartbeat (.sample "0.0.3") "alice"), .run 2 (), .run 2 (), .env 60000] (by decide)
  obtain ⟨hlog, hnow, hrow⟩ := of_decide_eq_true hp
  have hl : (World.getNode w "node") = some (toListing "node" _ w.now) :=
    congrArg (Option.map fun row => toListing "node" row w.now) hrow
  have hlogs : Logs sampleHash 0 ⟨w, threads⟩ log := hc
  refine ⟨⟨w, threads⟩, log, _, hlogs, hl, ⟨hlog, rfl, ?_, rfl⟩,
    (site_honest sampleHash_injective hlogs).2.2 _ _ hl⟩
  show decide (w.now < 40000 + onlineWindow) = true
  rw [show w.now = 100000 from hnow]
  rfl

end Registry
end Mach402
