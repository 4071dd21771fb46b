import Mach402.Agent.Containment

/-!
# The programs of a node are safe

Every call of every program is permitted, whatever happens between its calls: an id that a program
has is an id of its own, and a name on a list is a name of a lease or of an older build.

* `safe_docker`: a call to Docker is safe if it is permitted whenever it is made;
* `safe_provisionLease`, `safe_reapLeaseResources`, `safe_sweepOrphans`, `safe_sweepLeaseOrphans`;
* `sandbox_keeps`: every program of the node is safe, and others are spared.
-/

namespace Mach402
namespace Sandbox

open Docker (CreateContainerRequest Documented Engine hasLabel)

variable {E : Engine} {node : Settings} {legacy : List String} {c : Docker.Call}
variable {w w' : World E} {id : ℕ} {name : String} {α β : Type}

/-- Every call of the program keeps the invariant and spares others.  It returns with `Q`. -/
abbrev Safe (node : Settings) (legacy : List String) {α : Type} (Q : World E → α → Prop)
    (p : Prog α) (w : World E) : Prop :=
  (sandbox E node).Safe (Kept node legacy) Changes (Spares legacy) Q p w

/-- Nothing is said about what is returned. -/
abbrev Anything {α : Type} (_ : World E) (_ : α) : Prop := True

theorem rely (legacy : List String) :
    Service.Rely (Changes (E := E)) (Spares legacy) where
  refl _ := changes_of_docker rfl
  trans _ _ _ := changes_trans
  own _ _ h := h.changes

/-! ### Calls -/

/-- **A call to Docker** is safe if it is permitted whenever it is made. -/
theorem safe_docker (hE : Documented E) {Q : World E → Except String c.Result → Prop}
    (hc : ∀ t : World E, Changes w t → Kept node legacy t → Permitted E node legacy t.docker c)
    (hQ : ∀ (t : World E) o d' r, Changes w t → Kept node legacy t →
      E.serve t.docker c o = some (d', r) → Q { t with docker := d' } r) :
    Safe node legacy Q (Routine.lift (Call.docker c)) w := by
  intro t out u r hwt ht hs
  cases out with
  | jupyter err => cases hs
  | docker o =>
    obtain ⟨⟨d', r'⟩, hserve, ha⟩ := Option.map_eq_some_iff.1 hs
    cases ha
    have heffect := hE.effect hserve
    have hpermitted := hc t hwt ht
    exact ⟨ht.effect hE hpermitted heffect, spares_effect ht.confined hpermitted heffect,
      hQ t o d' r' hwt ht hserve⟩

/-- The same, where nothing depends on the answer. -/
theorem safe_of_permitted (hE : Documented E)
    (hc : ∀ t : World E, Changes w t → Kept node legacy t → Permitted E node legacy t.docker c) :
    Safe node legacy Anything (Routine.lift (Call.docker c)) w :=
  safe_docker hE hc fun _ _ _ _ _ _ _ => trivial

theorem safe_ignore (hE : Documented E)
    (hc : ∀ t : World E, Changes w t → Kept node legacy t → Permitted E node legacy t.docker c) :
    Safe node legacy Anything (ignore c) w :=
  (safe_of_permitted hE hc).bind (rely legacy) fun _ _ _ _ => trivial

theorem safe_wrap {Q : World E → Except String α → Prop} {text : String} {p : ProgE α}
    (h : Safe node legacy Q p.run w)
    (hQ : ∀ t e, Q t (.error e) → Q t (.error (text ++ ": " ++ e))) :
    Safe node legacy Q (wrap text p).run w := by
  refine h.bind (rely legacy) fun t r _ hr => ?_
  cases r with
  | ok a => exact hr
  | error e => exact hQ t e hr

theorem safe_call (hE : Documented E) {text : String}
    (hc : ∀ t : World E, Changes w t → Kept node legacy t → Permitted E node legacy t.docker c) :
    Safe node legacy Anything (wrap text (docker c)).run w :=
  safe_wrap (safe_of_permitted hE hc) fun _ _ _ => trivial

/-- One call after another, each with what the others before it have returned. -/
theorem safe_next {Q : World E → Except String α → Prop} {p : ProgE α} {f : α → ProgE β}
    (h : Safe node legacy Q p.run w)
    (hf : ∀ t a, Changes w t → Q t (.ok a) → Safe node legacy Anything (f a).run t) :
    Safe node legacy Anything (p >>= f).run w :=
  h.bindExcept (rely legacy) hf fun _ _ _ => trivial

/-- One program after another. -/
theorem safe_seq {Q : World E → α → Prop} {p : Prog α} {f : α → Prog β}
    (h : Safe node legacy Q p w)
    (hf : ∀ t a, Changes w t → Q t a → Safe node legacy Anything (f a) t) :
    Safe node legacy Anything (p >>= f) w :=
  Service.Safe.bind (rely legacy) h hf

theorem safe_forEach {f : β → Prog Unit} {bs : List β}
    (hf : ∀ b ∈ bs, ∀ t, Changes w t → Safe node legacy Anything (f b) t) :
    Safe node legacy Anything (Routine.forEach f bs) w :=
  Service.Safe.forEach (rely legacy) hf

/-! ### The ids of a lease -/

/-- If it is the id of a container, the container has this name. -/
def Named (name : String) (w : World E) (r : Except String ℕ) : Prop :=
  ∀ id, r = .ok id → E.Issued w.docker id ∧ ∀ x ∈ E.containers w.docker, x.id = id → x.name = name

theorem Named.later {r : Except String ℕ} (h : Named name w r) (hname : isOurs name = true)
    (hw : Changes w w') : Named name w' r := by
  intro id hid
  obtain ⟨hissued, hx⟩ := h id hid
  refine ⟨hw.issued id hissued, fun x hmem hxid => ?_⟩
  obtain ⟨y, hy, hlike, hnames⟩ := hw.containers x hmem (hxid ▸ hissued)
  have hyname := hx y hy (hlike.id.symm.trans hxid)
  rcases hnames with heq | ⟨hother, -⟩
  · rw [heq, hyname]
  · exact absurd hyname (ne_of_isOurs hother hname)

theorem Named.owned (h : Named name w (.ok id)) (hname : isOurs name = true) : Owned w id := by
  obtain ⟨hissued, hx⟩ := h id rfl
  refine ⟨hissued, fun x hmem hid => ?_⟩
  rwa [hx x hmem hid]

/-- **The container that is created** has its name. -/
theorem safe_createContainer (hE : Documented E) {req : CreateContainerRequest} {text : String}
    (hc : ∀ d, Permitted E node legacy d (.createContainer name req)) :
    Safe node legacy (Named name) (wrap text (createContainer name req)).run w := by
  refine safe_wrap (safe_docker hE (fun t _ _ => hc t.docker)
    fun t o d' r _ ht hserve id hid => ?_) fun t e _ id hid => nomatch hid
  subst hid
  obtain ⟨hnew, hissued⟩ := hE.created hserve
  refine ⟨hissued, fun x hx hxid => ?_⟩
  rcases (hE.effect hserve).container_of x hx with ⟨y, hy, hlike, -⟩ | ⟨hcall, -⟩
  · -- an older container has another id
    have hyid := hE.issued t.docker y hy
    rw [← hlike.id, hxid] at hyid
    exact absurd hyid hnew
  · cases hcall
    rfl

/-- What has an id of a lease is not others'. -/
theorem not_isOthers (hid : Owned w id) {x : Docker.Container}
    (hx : x ∈ E.containers w.docker) (hxid : x.id = id) : ¬ IsOthers x :=
  fun hothers => ne_of_isOurs hothers.1 (hid.2 x hx hxid) rfl

/-- A lease is given an id of its own. -/
theorem Kept.store (hw : Kept node legacy w) {lease : String} (hid : Owned w id)
    {ids : Option ℕ × Option ℕ} (hids : ∀ id', ids.1 = some id' ∨ ids.2 = some id' →
      id' = id ∨ (w.ids lease).1 = some id' ∨ (w.ids lease).2 = some id') :
    Kept node legacy { w with ids := Function.update w.ids lease ids } := by
  refine ⟨hw.confined, { hw.marked with ids := fun i id' hid' => ?_ }⟩
  by_cases hi : i = lease
  · subst hi
    dsimp only at hid'
    rw [Function.update_self] at hid'
    rcases hids id' hid' with rfl | hold
    · exact hid
    · exact hw.marked.ids i id' hold
  · dsimp only at hid'
    rw [Function.update_of_ne hi] at hid'
    exact hw.marked.ids i id' hid'

theorem safe_storeProxy {lease : String} (hid : Owned w id) :
    Safe node legacy Anything (storeProxy lease id).run w := by
  refine Service.Safe.bind (rely legacy) (Q := Anything) (fun t out u r hwt ht hs => ?_)
    fun _ _ _ _ => trivial
  have hu : u = { t with ids := Function.update t.ids lease ((t.ids lease).1, some id) } := by
    cases out <;> cases hs <;> rfl
  subst hu
  refine ⟨ht.store (hid.later hwt) fun id' h => ?_, spares_of_docker rfl, trivial⟩
  rcases h with h | h
  · exact Or.inr (Or.inl h)
  · exact Or.inl (Option.some.inj h).symm

theorem safe_storeContainer {lease : String} (hid : Owned w id) :
    Safe node legacy Anything (storeContainer lease id).run w := by
  refine Service.Safe.bind (rely legacy) (Q := Anything) (fun t out u r hwt ht hs => ?_)
    fun _ _ _ _ => trivial
  have hu : u = { t with ids := Function.update t.ids lease (some id, (t.ids lease).2) } := by
    cases out <;> cases hs <;> rfl
  subst hu
  refine ⟨ht.store (hid.later hwt) fun id' h => ?_, spares_of_docker rfl, trivial⟩
  rcases h with h | h
  · exact Or.inl (Option.some.inj h).symm
  · exact Or.inr (Or.inr h)

/-- **The ids of a lease are its own.** -/
theorem safe_readIDs {lease : String} :
    Safe node legacy (fun t ids => ∀ id, ids.1 = some id ∨ ids.2 = some id → Owned t id)
      (readIDs lease) w := by
  intro t out u r _ ht hs
  obtain ⟨rfl, rfl⟩ : u = t ∧ r = t.ids lease := by cases out <;> cases hs <;> exact ⟨rfl, rfl⟩
  exact ⟨ht, spares_of_docker rfl, fun id hid => ht.marked.ids lease id hid⟩

theorem safe_awaitJupyter {addr : String} :
    Safe node legacy Anything (awaitJupyter addr).run w := by
  intro t out u r _ ht hs
  have hu : u = t := by
    rcases out with o | _ | text <;> cases hs <;> rfl
  subst hu
  exact ⟨ht, spares_of_docker rfl, trivial⟩

/-! ### Provisioning -/

section Provision

variable {gpu : Bool} {lease : Lease} {caPublicKey i text : String}

theorem permitted_lease (d : E.State) :
    Permitted E node legacy d (.createContainer (leaseName lease.id)
      (leaseContainerRequest node.leases gpu lease caPublicKey [(leaseLabel, lease.id)])) :=
  ⟨lease.id, Or.inl ⟨rfl, gpu, lease, caPublicKey, rfl, rfl⟩⟩

theorem permitted_proxy (d : E.State) :
    Permitted E node legacy d (.createContainer (egressName i)
      (egressProxyRequest node.leases i [(leaseLabel, i)])) :=
  ⟨i, Or.inr ⟨rfl, rfl⟩⟩

/-- **Only the proxy is connected to the outside.** -/
theorem permitted_connectNetwork (hproxy : Named (egressName i) w (.ok id))
    {aliases : List String} :
    Permitted E node legacy w.docker (.connectNetwork "bridge" id aliases) :=
  ⟨rfl, fun x hx hid => ⟨i, (hproxy id rfl).2 x hx hid⟩⟩

theorem safe_startContainer (hE : Documented E) (hid : Owned w id) :
    Safe node legacy Anything (wrap text (docker (.startContainer id))).run w :=
  safe_call hE fun _ ht _ _ hx hxid => not_isOthers (hid.later ht) hx hxid

theorem safe_startEgressProxy (hE : Documented E) :
    Safe node legacy Anything
      (startEgressProxy node.leases lease [(leaseLabel, lease.id)]).run w := by
  unfold startEgressProxy
  refine safe_next (safe_createContainer hE permitted_proxy) fun t id _ hnamed => ?_
  have howned := hnamed.owned (isOurs_egressName _)
  refine safe_next (safe_storeProxy howned) fun u _ htu _ => ?_
  have hlater := hnamed.later (isOurs_egressName _) htu
  refine safe_next (safe_call hE fun v huv _ =>
    permitted_connectNetwork (hlater.later (isOurs_egressName _) huv)) fun v _ huv _ => ?_
  exact safe_startContainer hE ((howned.later htu).later huv)

theorem safe_provisionLease (hE : Documented E) :
    Safe node legacy Anything (provisionLease node.leases gpu lease caPublicKey).run w := by
  unfold provisionLease
  refine safe_next (safe_call hE fun t _ _ => ⟨lease.id, rfl, rfl, rfl⟩) fun t _ _ _ => ?_
  refine safe_next (safe_call hE fun t _ _ => ⟨lease.id, rfl, rfl⟩) fun t _ _ _ => ?_
  refine safe_next (safe_startEgressProxy hE) fun t _ _ _ => ?_
  refine safe_next (safe_createContainer hE permitted_lease) fun t id _ hnamed => ?_
  have howned := hnamed.owned (isOurs_leaseName _)
  refine safe_next (safe_storeContainer howned) fun u _ htu _ => ?_
  refine safe_next (safe_startContainer hE (howned.later htu)) fun v _ _ _ => ?_
  refine safe_next (Q := Anything) (safe_wrap (safe_of_permitted hE fun t _ _ => trivial)
    fun _ _ _ => trivial) fun t ip _ _ => ?_
  exact safe_awaitJupyter

end Provision

/-! ### Removal -/

theorem safe_unpause (hE : Documented E) (hid : Owned w id) :
    Safe node legacy Anything (ignore (.unpauseContainer id)) w :=
  safe_ignore hE fun _ ht _ _ hx hxid => not_isOthers (hid.later ht) hx hxid

theorem safe_remove (hE : Documented E) (hid : Owned w id) :
    Safe node legacy Anything (ignore (.removeContainer id)) w :=
  safe_ignore hE fun _ ht _ _ hx hxid => not_isOthers (hid.later ht) hx hxid

theorem safe_removeVolume (hE : Documented E) (hname : isOurs name = true ∨ name ∈ legacy) :
    Safe node legacy Anything (ignore (.removeVolume name)) w :=
  safe_ignore hE fun _ _ _ => hname

theorem safe_removeNetwork (hE : Documented E) (hname : ∃ i, name = leaseName i) :
    Safe node legacy Anything (ignore (.removeNetwork name)) w :=
  safe_ignore hE fun _ _ _ => hname

theorem safe_reapLeaseResources (hE : Documented E) {i : String} :
    Safe node legacy Anything (reapLeaseResources i) w := by
  unfold reapLeaseResources
  refine safe_seq safe_readIDs fun t ids _ hids => ?_
  refine safe_seq (Q := Anything) (safe_forEach fun container hcontainer u htu => ?_) fun u _ _ _ =>
    safe_seq (safe_removeVolume hE (Or.inl (isOurs_workspaceName i))) fun v _ _ _ =>
      safe_removeNetwork hE ⟨i, rfl⟩
  cases container with
  | none => trivial
  | some id =>
    have howned : Owned t id := by
      refine hids id ?_
      simpa [eq_comm] using hcontainer
    exact safe_seq (safe_unpause hE (howned.later htu)) fun v _ huv _ =>
      safe_remove hE ((howned.later htu).later huv)

theorem safe_startLease (hE : Documented E) {gpu : Bool} {lease : Lease} {caPublicKey : String} :
    Safe node legacy Anything (startLease node.leases gpu lease caPublicKey) w := by
  unfold startLease
  refine safe_seq (safe_provisionLease hE) fun t r _ _ => ?_
  cases r with
  | ok _ => trivial
  | error _ => exact safe_reapLeaseResources hE

theorem safe_pauseLease (hE : Documented E) {i : String} :
    Safe node legacy Anything (pauseLease i) w := by
  unfold pauseLease
  refine safe_seq safe_readIDs fun t ids _ hids => ?_
  obtain ⟨_ | id, _⟩ := ids
  · trivial
  · exact safe_ignore hE fun _ ht _ _ hx hxid =>
      not_isOthers ((hids id (Or.inl rfl)).later ht) hx hxid

theorem safe_resumeLease (hE : Documented E) {i : String} :
    Safe node legacy Anything (resumeLease i) w := by
  unfold resumeLease
  refine safe_seq safe_readIDs fun t ids _ hids => ?_
  obtain ⟨_ | id, _⟩ := ids
  · trivial
  · exact safe_unpause hE (hids id (Or.inl rfl))

/-! ### Sweeps -/

/-- The labels that sweeps look for. -/
def IsSwept (label : String) : Prop := label = leaseLabel ∨ label = legacyJobLabel

/-- No container has this id but one with the label. -/
def Listed (label : String) (w : World E) (id : ℕ) : Prop :=
  E.Issued w.docker id ∧ ∀ x ∈ E.containers w.docker, x.id = id → hasLabel x.labels label = true

variable {label : String}

theorem Listed.later (h : Listed label w id) (hw : Changes w w') : Listed label w' id := by
  obtain ⟨hissued, hlabel⟩ := h
  refine ⟨hw.issued id hissued, fun x hx hid => ?_⟩
  obtain ⟨y, hy, hlike, -⟩ := hw.containers x hx (hid ▸ hissued)
  rw [hlike.labels]
  exact hlabel y hy (hlike.id.symm.trans hid)

/-- What is listed is not others'. -/
theorem Listed.not_isOthers (h : Listed label w id) (hlabel : IsSwept label)
    (hw : Marked legacy w) {x : Docker.Container} (hx : x ∈ E.containers w.docker)
    (hxid : x.id = id) : ¬ IsOthers x := by
  intro hothers
  have hl := h.2 x hx hxid
  rcases hlabel with rfl | rfl
  · exact ne_of_isOurs hothers.1 (hw.containers x hx hl) rfl
  · rw [hothers.2] at hl
    cases hl

theorem safe_listed {Q : World E → List α → Prop} {p : ProgE (List α)}
    (hp : Safe node legacy (fun t r => ∀ as, r = .ok as → Q t as) p.run w) (hnil : ∀ t, Q t []) :
    Safe node legacy Q (listed p) w := by
  refine Service.Safe.bind (rely legacy) hp fun t r _ hr => ?_
  cases r with
  | ok as => exact hr as rfl
  | error e => exact hnil t

theorem safe_listContainers (hE : Documented E) :
    Safe node legacy (fun t ids => ∀ id ∈ ids, Listed label t id)
      (listed (listContainersByLabel label)) w := by
  refine safe_listed (safe_docker hE (fun _ _ _ => trivial)
    fun t o d' r _ ht hserve ids hids id hid => ?_) fun t id hid => by cases hid
  subst hids
  obtain ⟨x, hx, rfl, hlabel⟩ := hE.listed_containers hserve id hid
  have heffect := hE.effect hserve
  refine ⟨heffect.issued _ (hE.issued t.docker x hx), fun y hy hyid => ?_⟩
  obtain ⟨z, hz, hlike, -⟩ := heffect.container_of_old (fun _ _ h => by cases h) hy
  rw [hlike.labels, hE.eq_of_id hz hx (hlike.id.symm.trans hyid)]
  exact hlabel

theorem safe_listVolumes (hE : Documented E) (hlabel : IsSwept label) :
    Safe node legacy (fun _ names => ∀ name ∈ names, isOurs name = true ∨ name ∈ legacy)
      (listed (listVolumesByLabel label)) w := by
  refine safe_listed (safe_docker hE (fun _ _ _ => trivial)
    fun t o d' r _ ht hserve names hnames name hname => ?_) fun t name hname => by cases hname
  subst hnames
  obtain ⟨v, hv, rfl, hl⟩ := hE.listed_volumes hserve name hname
  rcases hlabel with rfl | rfl
  · obtain ⟨i, hi⟩ := ht.marked.volumes v hv hl
    rw [hi]
    exact Or.inl (isOurs_workspaceName i)
  · exact Or.inr (ht.marked.legacyVolumes v hv hl)

theorem safe_listNetworks (hE : Documented E) :
    Safe node legacy (fun _ names => ∀ name ∈ names, ∃ i, name = leaseName i)
      (listed (listNetworksByLabel leaseLabel)) w := by
  refine safe_listed (safe_docker hE (fun _ _ _ => trivial)
    fun t o d' r _ ht hserve names hnames name hname => ?_) fun t name hname => by cases hname
  subst hnames
  obtain ⟨n, hn, rfl, hl⟩ := hE.listed_networks hserve name hname
  exact (ht.marked.networks n hn).1 hl

theorem safe_unpause_listed (hE : Documented E) (hlabel : IsSwept label) (hid : Listed label w id) :
    Safe node legacy Anything (ignore (.unpauseContainer id)) w :=
  safe_ignore hE fun _ ht hkept _ hx hxid =>
    (hid.later ht).not_isOthers hlabel hkept.marked hx hxid

theorem safe_remove_listed (hE : Documented E) (hlabel : IsSwept label) (hid : Listed label w id) :
    Safe node legacy Anything (ignore (.removeContainer id)) w :=
  safe_ignore hE fun _ ht hkept _ hx hxid =>
    (hid.later ht).not_isOthers hlabel hkept.marked hx hxid

theorem safe_sweepOrphans (hE : Documented E) : Safe node legacy Anything sweepOrphans w := by
  unfold sweepOrphans
  refine safe_seq (safe_listContainers hE) fun t containers _ hcontainers => ?_
  refine safe_seq (Q := Anything) (safe_forEach fun id hid u htu =>
    safe_remove_listed hE (Or.inr rfl) ((hcontainers id hid).later htu)) fun u _ _ _ => ?_
  refine safe_seq (safe_listVolumes hE (Or.inr rfl)) fun v volumes _ hvolumes => ?_
  exact safe_forEach fun name hname _ _ => safe_removeVolume hE (hvolumes name hname)

theorem safe_sweepLeaseOrphans (hE : Documented E) :
    Safe node legacy Anything sweepLeaseOrphans w := by
  unfold sweepLeaseOrphans
  refine safe_seq (safe_listContainers hE) fun t containers _ hcontainers => ?_
  refine safe_seq (Q := Anything) (safe_forEach fun id hid u htu => ?_) fun u _ _ _ => ?_
  · have hlisted := (hcontainers id hid).later htu
    refine safe_seq (Q := Anything) (safe_unpause_listed hE (Or.inl rfl) hlisted)
      fun v _ huv _ => ?_
    exact safe_remove_listed hE (Or.inl rfl) (hlisted.later huv)
  refine safe_seq (safe_listVolumes hE (Or.inl rfl)) fun v volumes _ hvolumes => ?_
  refine safe_seq (Q := Anything) (safe_forEach fun name hname _ _ =>
    safe_removeVolume hE (hvolumes name hname)) fun v _ _ _ => ?_
  refine safe_seq (safe_listNetworks hE) fun v networks _ hnetworks => ?_
  exact safe_forEach fun name hname _ _ => safe_removeNetwork hE (hnetworks name hname)

theorem safe_boot (hE : Documented E) : Safe node legacy Anything (boot node.leases) w := by
  unfold boot
  refine safe_seq (safe_sweepOrphans hE) fun t _ _ _ => ?_
  split
  · exact safe_sweepLeaseOrphans hE
  · trivial

/-! ### All programs -/

theorem safe_program (hE : Documented E) (j : Job) :
    Safe node legacy Anything (j.program node) w := by
  cases j with
  | boot => exact safe_boot hE
  | startLease gpu lease caPublicKey => exact safe_startLease hE
  | stopLease i => exact safe_reapLeaseResources hE
  | pauseLease i => exact safe_pauseLease hE
  | resumeLease i => exact safe_resumeLease hE

/-- **Whatever the programs do**, leases stay confined, and others are spared. -/
theorem sandbox_keeps (hE : Documented E) (node : Settings) (legacy : List String) :
    (sandbox E node).Keeps (Kept node legacy) Changes (Spares legacy) where
  toRely := rely legacy
  env w e w' hw h := by
    cases h
    have hallowed := e.allowed w.docker
    exact ⟨hw.allowed hallowed, changes_allowed rfl hallowed⟩
  start w j w' p hw h := by
    cases h
    exact ⟨hw, spares_of_docker rfl, safe_program hE j⟩
  crash w hw := ⟨hw.crash, spares_of_docker rfl⟩

end Sandbox
end Mach402
