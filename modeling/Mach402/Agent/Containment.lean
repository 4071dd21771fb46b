import Mach402.Agent.Sandbox

/-!
# Leases are contained

The invariant of a node's daemon, and the calls that keep it.  It is about what the daemon holds,
whoever has asked for it.

* `Confined`: what holds of the containers, networks and volumes of leases;
* `Marked`: what is a lease's is known by its label, by its name, and by the ids that leases have;
* `Permitted`: the calls that a node makes;
* `Changes`, `Spares`: what is changed by anyone, and what the node's own calls leave alone;
* `Kept.effect`, `spares_effect`: a permitted call keeps the invariant, and spares others;
* `Kept.allowed`: so do others.
-/

namespace Mach402
namespace Sandbox

open Docker (CreateContainerRequest Documented Effect Engine Labels hasLabel)

variable {E : Engine} {node : Settings}

/-! ### The invariant -/

/-- It is asked for by `provisionLease`. -/
def IsLeaseRequest (node : Settings) (i : String) (req : CreateContainerRequest) : Prop :=
  ∃ gpu lease caPublicKey, lease.id = i ∧
    req = leaseContainerRequest node.leases gpu lease caPublicKey [(leaseLabel, i)]

/-- It is asked for by `startEgressProxy`. -/
def IsProxyRequest (node : Settings) (i : String) (req : CreateContainerRequest) : Prop :=
  req = egressProxyRequest node.leases i [(leaseLabel, i)]

/-- **Leases are confined.** -/
structure Confined (E : Engine) (node : Settings) (d : E.State) : Prop where
  /-- A lease's network is internal. -/
  internal : ∀ n ∈ E.networks d, ∀ i, n.name = leaseName i → n.internal = true
  /-- Nobody but the lease's container and its proxy is on it. -/
  members : ∀ x ∈ E.containers d, ∀ i, leaseName i ∈ x.networks →
    x.name = leaseName i ∨ x.name = egressName i
  /-- The container is the one that was asked for, and on no other network. -/
  lease : ∀ x ∈ E.containers d, ∀ i, x.name = leaseName i →
    IsLeaseRequest node i x.request ∧ ∀ n ∈ x.networks, n = leaseName i
  proxy : ∀ x ∈ E.containers d, ∀ i, x.name = egressName i → IsProxyRequest node i x.request
  /-- Nobody else has the workspace. -/
  workspace : ∀ x ∈ E.containers d, ∀ i, workspaceName i ∈ x.volumes → x.name = leaseName i
  labelled : ∀ x ∈ E.containers d, ∀ i, x.name = leaseName i ∨ x.name = egressName i →
    hasLabel x.labels leaseLabel = true

/-- No container has this id, or will have it, but one of a lease. -/
def Owned (w : World E) (id : ℕ) : Prop :=
  E.Issued w.docker id ∧ ∀ x ∈ E.containers w.docker, x.id = id → isOurs x.name = true

/-- **What is a lease's is known by its label**, by its name, and by the ids that leases have.
`legacy`: the volumes that older builds have left. -/
structure Marked (legacy : List String) (w : World E) : Prop where
  containers : ∀ x ∈ E.containers w.docker, hasLabel x.labels leaseLabel = true →
    isOurs x.name = true
  networks : ∀ n ∈ E.networks w.docker, hasLabel n.labels leaseLabel = true ↔
    ∃ i, n.name = leaseName i
  volumes : ∀ v ∈ E.volumes w.docker, hasLabel v.labels leaseLabel = true →
    ∃ i, v.name = workspaceName i
  legacyVolumes : ∀ v ∈ E.volumes w.docker, hasLabel v.labels legacyJobLabel = true →
    v.name ∈ legacy
  ids : ∀ i id, (w.ids i).1 = some id ∨ (w.ids i).2 = some id → Owned w id

/-- The invariant. -/
structure Kept (node : Settings) (legacy : List String) (w : World E) : Prop where
  confined : Confined E node w.docker
  marked : Marked legacy w

/-! ### The calls of a node -/

/-- It is neither a lease's nor left by an older build. -/
def IsOthers (x : Docker.Container) : Prop :=
  isOurs x.name = false ∧ hasLabel x.labels legacyJobLabel = false

/-- The calls that a node makes. -/
def Permitted (E : Engine) (node : Settings) (legacy : List String) (d : E.State) :
    Docker.Call → Prop
  | .createContainer name req => ∃ i, name = leaseName i ∧ IsLeaseRequest node i req ∨
      name = egressName i ∧ IsProxyRequest node i req
  | .startContainer id | .removeContainer id | .pauseContainer id | .unpauseContainer id =>
    ∀ x ∈ E.containers d, x.id = id → ¬ IsOthers x
  -- a proxy is connected to the outside
  | .connectNetwork n id _ =>
    n = "bridge" ∧ ∀ x ∈ E.containers d, x.id = id → ∃ i, x.name = egressName i
  | .createNetwork name internal labels =>
    ∃ i, name = leaseName i ∧ internal = true ∧ labels = [(leaseLabel, i)]
  | .removeNetwork name => ∃ i, name = leaseName i
  | .createVolume name labels => ∃ i, name = workspaceName i ∧ labels = [(leaseLabel, i)]
  | .removeVolume name => isOurs name = true ∨ name ∈ legacy
  | .containerIP .. | .listNetworksByLabel _ | .listContainersByLabel _ | .listVolumesByLabel _ =>
    True

/-! ### What may change -/

/-- What is changed between two calls of a program: ids are given once, a container keeps its
labels, and one of a lease its name. -/
structure Changes (w w' : World E) : Prop where
  issued : ∀ id, E.Issued w.docker id → E.Issued w'.docker id
  containers : ∀ x ∈ E.containers w'.docker, E.Issued w.docker x.id →
    ∃ y ∈ E.containers w.docker, x.Like y ∧
      (x.name = y.name ∨ isOurs y.name = false ∧ isOurs x.name = false)

/-- A volume with this name is not removed together with what is not others'. -/
def IsFree (d : E.State) (name : String) : Prop :=
  ∀ x ∈ E.containers d, name ∈ x.anonymous → IsOthers x

/-- **What is others' stays as it is.** -/
structure Spares (legacy : List String) (w w' : World E) : Prop where
  changes : Changes w w'
  containers : ∀ x ∈ E.containers w.docker, IsOthers x → x ∈ E.containers w'.docker
  networks : ∀ n ∈ E.networks w.docker, isOurs n.name = false → n ∈ E.networks w'.docker
  volumes : ∀ v ∈ E.volumes w.docker, isOurs v.name = false → v.name ∉ legacy →
    IsFree w.docker v.name → v ∈ E.volumes w'.docker ∧ IsFree w'.docker v.name

/-! ### Requests -/

section Requests

variable {i : String} {req : CreateContainerRequest}

theorem hasLabel_leaseLabel (i : String) : hasLabel [(leaseLabel, i)] leaseLabel = true := by
  simp [hasLabel]

theorem hasLabel_legacyJobLabel (i : String) :
    hasLabel [(leaseLabel, i)] legacyJobLabel = false := by
  simp [hasLabel, leaseLabel, legacyJobLabel]

/-- More labels have what fewer have. -/
theorem hasLabel_of_subset {l l' : Labels} {key : String} (h : l ⊆ l')
    (hl : hasLabel l key = true) : hasLabel l' key = true := by
  obtain ⟨p, hp, hkey⟩ := List.any_eq_true.1 hl
  exact List.any_eq_true.2 ⟨p, h hp, hkey⟩

/-- Volumes that are created with a container carry none of the labels of a node. -/
theorem not_hasLabel_of_anonymous {l : Labels} {key : String} (hkey : key ≠ Docker.anonymousLabel)
    (h : ∀ p ∈ l, p.1 = Docker.anonymousLabel) : hasLabel l key = false := by
  refine List.any_eq_false.2 fun p hp hp' => hkey ?_
  rw [← of_decide_eq_true hp', h p hp]

theorem leaseLabel_ne : leaseLabel ≠ Docker.anonymousLabel := by decide

theorem legacyJobLabel_ne : legacyJobLabel ≠ Docker.anonymousLabel := by decide

theorem IsLeaseRequest.networks (h : IsLeaseRequest node i req) {n : String} :
    n ∈ req.networks ↔ n = leaseName i := by
  obtain ⟨gpu, lease, caPublicKey, rfl, rfl⟩ := h
  simp [leaseContainerRequest, CreateContainerRequest.networks, leaseName_ne_empty]

theorem IsLeaseRequest.volumes (h : IsLeaseRequest node i req) :
    req.volumes = [workspaceName i] := by
  obtain ⟨gpu, lease, caPublicKey, rfl, rfl⟩ := h
  rfl

theorem IsLeaseRequest.labels (h : IsLeaseRequest node i req) : req.labels = [(leaseLabel, i)] := by
  obtain ⟨gpu, lease, caPublicKey, rfl, rfl⟩ := h
  rfl

theorem IsProxyRequest.networks (h : IsProxyRequest node i req) {n : String} :
    n ∈ req.networks ↔ n = leaseName i := by
  rw [h]
  simp [egressProxyRequest, CreateContainerRequest.networks, leaseName_ne_empty]

theorem IsProxyRequest.volumes (h : IsProxyRequest node i req) : req.volumes = [] := by
  rw [h]
  rfl

theorem IsProxyRequest.labels (h : IsProxyRequest node i req) : req.labels = [(leaseLabel, i)] := by
  rw [h]
  rfl

end Requests

/-! ### Permitted calls keep the invariant -/

section Calls

variable {legacy : List String} {d d' : E.State} {c : Docker.Call} {w w' : World E} {id : ℕ}

/-- **Permitted calls keep leases confined.** -/
theorem Confined.effect (hE : Documented E) (hd : Confined E node d)
    (hc : Permitted E node legacy d c) (h : Effect E d c d') : Confined E node d' where
  internal n hn i hname := by
    rcases h.network_of n hn with hn | rfl
    · exact hd.internal n hn i hname
    · obtain ⟨-, -, hinternal, -⟩ := hc
      exact hinternal
  members x hx i hi := by
    rcases h.container_of x hx with ⟨y, hy, -, hname, hnet⟩ | ⟨rfl, -, -, hnet, -⟩
    · rw [hname]
      rcases hnet _ hi with hi | ⟨aliases, rfl⟩
      · exact hd.members y hy i hi
      · exact absurd hc.1 (ne_of_isOurs isOurs_bridge (isOurs_leaseName i)).symm
    · obtain ⟨j, ⟨hname, hreq⟩ | ⟨hname, hreq⟩⟩ := hc
      · rw [hname, leaseName_inj.1 (hreq.networks.1 (hnet hi))]
        exact Or.inl rfl
      · rw [hname, leaseName_inj.1 (hreq.networks.1 (hnet hi))]
        exact Or.inr rfl
  lease x hx i hi := by
    rcases h.container_of x hx with ⟨y, hy, hlike, hname, hnet⟩ | ⟨rfl, -, -, hnet, -⟩
    · rw [hname] at hi
      obtain ⟨hlease, honly⟩ := hd.lease y hy i hi
      rw [hlike.request]
      refine ⟨hlease, fun n hn => ?_⟩
      rcases hnet n hn with hn | ⟨aliases, rfl⟩
      · exact honly n hn
      · -- only a proxy is connected
        obtain ⟨j, hj⟩ := hc.2 y hy hlike.id.symm
        exact absurd (hi.symm.trans hj) leaseName_ne_egressName
    · obtain ⟨j, ⟨hname, hreq⟩ | ⟨hname, hreq⟩⟩ := hc
      · obtain rfl := leaseName_inj.1 (hi.symm.trans hname)
        exact ⟨hreq, fun n hn => hreq.networks.1 (hnet hn)⟩
      · exact absurd (hi.symm.trans hname) leaseName_ne_egressName
  proxy x hx i hi := by
    rcases h.container_of x hx with ⟨y, hy, hlike, hname, -⟩ | ⟨rfl, -, -, -, -⟩
    · rw [hlike.request]
      exact hd.proxy y hy i (hname ▸ hi)
    · obtain ⟨j, ⟨hname, hreq⟩ | ⟨hname, hreq⟩⟩ := hc
      · exact absurd (hname.symm.trans hi) leaseName_ne_egressName
      · obtain rfl := egressName_inj.1 (hi.symm.trans hname)
        exact hreq
  workspace x hx i hi := by
    rcases h.container_of x hx with ⟨y, hy, hlike, hname, -⟩ | ⟨rfl, -, -, -, hvolumes, -⟩
    · rw [hname]
      exact hd.workspace y hy i (hlike.volumes ▸ hi)
    · rcases hvolumes _ hi with hreq | hgiven
      · obtain ⟨j, ⟨hname, hlease⟩ | ⟨hname, hproxy⟩⟩ := hc
        · rw [hlease.volumes, List.mem_singleton] at hreq
          rw [hname, workspaceName_inj.1 hreq]
        · rw [hproxy.volumes] at hreq
          cases hreq
      · exact absurd rfl (ne_of_isOurs (isOurs_of_given (hE.given d' x hx _ hgiven))
          (isOurs_workspaceName i))
  labelled x hx i hi := by
    rcases h.container_of x hx with ⟨y, hy, hlike, hname, -⟩ | ⟨rfl, -, hlabels, -⟩
    · rw [hlike.labels]
      exact hd.labelled y hy i (hname ▸ hi)
    · refine hasLabel_of_subset hlabels ?_
      obtain ⟨j, ⟨-, hreq⟩ | ⟨-, hreq⟩⟩ := hc
      · rw [hreq.labels]
        exact hasLabel_leaseLabel j
      · rw [hreq.labels]
        exact hasLabel_leaseLabel j

/-- **Every call changes what is allowed to change.** -/
theorem changes_effect (hw' : w'.docker = d') (h : Effect E w.docker c d') : Changes w w' where
  issued := by
    rw [hw']
    exact h.issued
  containers x hx hissued := by
    rw [hw'] at hx
    rcases h.container_of x hx with ⟨y, hy, hlike, hname, -⟩ | ⟨-, hnew, -⟩
    · exact ⟨y, hy, hlike, Or.inl hname⟩
    · exact absurd hissued hnew

theorem changes_of_docker (h : w'.docker = w.docker) : Changes w w' where
  issued := by
    rw [h]
    exact fun _ hid => hid
  containers x hx _ := ⟨x, h ▸ hx, .refl x, Or.inl rfl⟩

theorem changes_trans {w'' : World E} (h : Changes w w') (h' : Changes w' w'') : Changes w w'' where
  issued id hid := h'.issued id (h.issued id hid)
  containers x hx hissued := by
    obtain ⟨y, hy, hxy, hname⟩ := h'.containers x hx (h.issued _ hissued)
    obtain ⟨z, hz, hyz, hname'⟩ := h.containers y hy (hxy.id ▸ hissued)
    refine ⟨z, hz, hxy.trans hyz, ?_⟩
    rcases hname with hname | ⟨hy, hx⟩
    · rwa [hname]
    · rcases hname' with hname' | ⟨hz, -⟩
      · rw [← hname']
        exact Or.inr ⟨hy, hx⟩
      · exact Or.inr ⟨hz, hx⟩

theorem Owned.later (h : Owned w id) (hw : Changes w w') : Owned w' id := by
  obtain ⟨hissued, hours⟩ := h
  refine ⟨hw.issued id hissued, fun x hx hid => ?_⟩
  obtain ⟨y, hy, hlike, hname⟩ := hw.containers x hx (hid ▸ hissued)
  have hyours := hours y hy (hlike.id.symm.trans hid)
  rcases hname with hname | ⟨hother, -⟩
  · rwa [hname]
  · rw [hyours] at hother
    cases hother

/-- **Permitted calls keep what is known by its label.** -/
theorem Marked.effect (hw : Marked legacy w) (hc : Permitted E node legacy w.docker c)
    (h : Effect E w.docker c d') : Marked legacy { w with docker := d' } where
  containers x hx hlabel := by
    rcases h.container_of x hx with ⟨y, hy, hlike, hname, -⟩ | ⟨rfl, -⟩
    · rw [hname]
      exact hw.containers y hy (hlike.labels ▸ hlabel)
    · obtain ⟨j, ⟨hname, -⟩ | ⟨hname, -⟩⟩ := hc
      · rw [hname]
        exact isOurs_leaseName j
      · rw [hname]
        exact isOurs_egressName j
  networks n hn := by
    rcases h.network_of n hn with hn | rfl
    · exact hw.networks n hn
    · obtain ⟨i, hname, -, hlabels⟩ := hc
      rw [hlabels]
      exact ⟨fun _ => ⟨i, hname⟩, fun _ => hasLabel_leaseLabel i⟩
  volumes v hv hlabel := by
    rcases h.volume_of v hv with hv | rfl | ⟨-, hlabels⟩
    · exact hw.volumes v hv hlabel
    · obtain ⟨i, hname, -⟩ := hc
      exact ⟨i, hname⟩
    · rw [not_hasLabel_of_anonymous leaseLabel_ne hlabels] at hlabel
      cases hlabel
  legacyVolumes v hv hlabel := by
    rcases h.volume_of v hv with hv | rfl | ⟨-, hlabels⟩
    · exact hw.legacyVolumes v hv hlabel
    · obtain ⟨i, -, hlabels⟩ := hc
      rw [hlabels, hasLabel_legacyJobLabel] at hlabel
      cases hlabel
    · rw [not_hasLabel_of_anonymous legacyJobLabel_ne hlabels] at hlabel
      cases hlabel
  ids i id hid := (hw.ids i id hid).later (changes_effect rfl h)

/-- **A permitted call keeps the invariant.** -/
theorem Kept.effect (hE : Documented E) (hw : Kept node legacy w)
    (hc : Permitted E node legacy w.docker c) (h : Effect E w.docker c d') :
    Kept node legacy { w with docker := d' } :=
  ⟨hw.confined.effect hE hc h, hw.marked.effect hc h⟩

/-! ### Permitted calls spare others -/

/-- Others' containers are on no network of a lease. -/
theorem Confined.not_on (hd : Confined E node d) {x : Docker.Container} (hx : x ∈ E.containers d)
    (hothers : IsOthers x) (i : String) : leaseName i ∉ x.networks := by
  intro hi
  have hours := hothers.1
  rcases hd.members x hx i hi with hname | hname
  · rw [hname, isOurs_leaseName] at hours
    cases hours
  · rw [hname, isOurs_egressName] at hours
    cases hours

/-- A permitted call is about no container of others. -/
theorem Permitted.container_ne (hc : Permitted E node legacy d c) {x : Docker.Container}
    (hx : x ∈ E.containers d) (hothers : IsOthers x) : c.container ≠ some x.id := by
  intro hid
  cases c with
  | startContainer id | removeContainer id | pauseContainer id | unpauseContainer id =>
    exact hc x hx (Option.some.inj hid).symm hothers
  | connectNetwork n id aliases =>
    obtain ⟨i, hname⟩ := hc.2 x hx (Option.some.inj hid).symm
    have hours := hothers.1
    rw [hname, isOurs_egressName] at hours
    cases hours
  | _ => cases hid

/-- **A permitted call spares others.** -/
theorem spares_effect (hw : Confined E node w.docker) (hc : Permitted E node legacy w.docker c)
    (h : Effect E w.docker c d') : Spares legacy w { w with docker := d' } where
  changes := changes_effect rfl h
  containers x hx hothers := by
    refine h.container_stays x hx (hc.container_ne hx hothers) fun n hn hcall => ?_
    subst hcall
    obtain ⟨i, rfl⟩ := hc
    exact hw.not_on hx hothers i hn
  networks n hn hname := by
    refine h.network_stays n hn fun hcall => ?_
    subst hcall
    obtain ⟨i, hi⟩ := hc
    rw [hi, isOurs_leaseName] at hname
    cases hname
  volumes v hv hname hlegacy hfree := by
    refine ⟨h.volume_stays v hv (fun hcall => ?_) fun x hx hanonymous hcall => ?_,
      fun x hx hanonymous => ?_⟩
    · subst hcall
      rcases hc with hours | hmem
      · rw [hours] at hname
        cases hname
      · exact hlegacy hmem
    · subst hcall
      exact hc x hx rfl (hfree x hx hanonymous)
    · rcases h.container_of x hx with ⟨y, hy, hlike, hyname, -⟩ | ⟨-, -, -, -, -, hnew⟩
      · obtain ⟨hothers, hlabel⟩ := hfree y hy (hlike.anonymous ▸ hanonymous)
        refine ⟨?_, ?_⟩
        · rwa [hyname]
        · rwa [hlike.labels]
      · exact absurd rfl (hnew _ hanonymous v hv)

theorem spares_of_docker (h : w'.docker = w.docker) : Spares legacy w w' where
  changes := changes_of_docker h
  containers x hx _ := by rwa [h]
  networks n hn _ := by rwa [h]
  volumes v hv _ _ hfree := by
    rw [h]
    exact ⟨hv, hfree⟩

/-! ### Others keep the invariant -/

/-- **What others may do keeps leases confined.** -/
theorem Confined.allowed (hd : Confined E node d) (h : Allowed E d d') : Confined E node d' where
  internal n hn i hname := by
    rcases h.networks n hn with hn | ⟨hours, -⟩
    · exact hd.internal n hn i hname
    · exact absurd hname (ne_of_isOurs hours (isOurs_leaseName i))
  members x hx i hi := by
    rcases h.containers x hx with ⟨y, hy, -, hname, hnet⟩ | ⟨-, -, -, hnet, -⟩
    · have hyi : leaseName i ∈ y.networks := by
        rcases hnet _ hi with hyi | ⟨hours, -⟩
        · exact hyi
        · exact absurd rfl (ne_of_isOurs hours (isOurs_leaseName i))
      have hmember := hd.members y hy i hyi
      rcases hname with hname | ⟨hours, -⟩
      · rwa [hname]
      · rcases hmember with hy | hy
        · exact absurd hy (ne_of_isOurs hours (isOurs_leaseName i))
        · exact absurd hy (ne_of_isOurs hours (isOurs_egressName i))
    · exact absurd rfl (ne_of_isOurs (hnet _ hi) (isOurs_leaseName i))
  lease x hx i hi := by
    rcases h.containers x hx with ⟨y, hy, hlike, hname, hnet⟩ | ⟨-, hours, -⟩
    · have hyi : y.name = leaseName i := by
        rcases hname with hname | ⟨-, hours⟩
        · rw [← hname, hi]
        · exact absurd hi (ne_of_isOurs hours (isOurs_leaseName i))
      obtain ⟨hlease, honly⟩ := hd.lease y hy i hyi
      rw [hlike.request]
      refine ⟨hlease, fun n hn => ?_⟩
      rcases hnet n hn with hn | ⟨-, hnot⟩
      · exact honly n hn
      · exact absurd hyi (hnot i)
    · exact absurd hi (ne_of_isOurs hours (isOurs_leaseName i))
  proxy x hx i hi := by
    rcases h.containers x hx with ⟨y, hy, hlike, hname, -⟩ | ⟨-, hours, -⟩
    · rw [hlike.request]
      rcases hname with hname | ⟨-, hours⟩
      · exact hd.proxy y hy i (hname ▸ hi)
      · exact absurd hi (ne_of_isOurs hours (isOurs_egressName i))
    · exact absurd hi (ne_of_isOurs hours (isOurs_egressName i))
  workspace x hx i hi := by
    rcases h.containers x hx with ⟨y, hy, hlike, hname, -⟩ | ⟨-, -, -, -, hvolumes⟩
    · have hyi := hd.workspace y hy i (hlike.volumes ▸ hi)
      rcases hname with hname | ⟨hours, -⟩
      · rwa [hname]
      · exact absurd hyi (ne_of_isOurs hours (isOurs_leaseName i))
    · exact absurd rfl (ne_of_isOurs (hvolumes _ hi) (isOurs_workspaceName i))
  labelled x hx i hi := by
    have hours : isOurs x.name = true := by
      rcases hi with hi | hi
      · rw [hi]
        exact isOurs_leaseName i
      · rw [hi]
        exact isOurs_egressName i
    rcases h.containers x hx with ⟨y, hy, hlike, hname, -⟩ | ⟨-, hother, -⟩
    · rw [hlike.labels]
      rcases hname with hname | ⟨-, hother⟩
      · exact hd.labelled y hy i (hname ▸ hi)
      · exact absurd rfl (ne_of_isOurs hother hours)
    · exact absurd rfl (ne_of_isOurs hother hours)

/-- They change what is allowed to change. -/
theorem changes_allowed (hw' : w'.docker = d') (h : Allowed E w.docker d') : Changes w w' where
  issued := by
    rw [hw']
    exact h.issued
  containers x hx hissued := by
    rw [hw'] at hx
    rcases h.containers x hx with ⟨y, hy, hlike, hname, -⟩ | ⟨hnew, -⟩
    · exact ⟨y, hy, hlike, hname⟩
    · exact absurd hissued hnew

theorem not_marked {l : Labels} (h : isMarked l = false) :
    hasLabel l leaseLabel = false ∧ hasLabel l legacyJobLabel = false := by
  rwa [isMarked, Bool.or_eq_false_iff] at h

theorem Marked.allowed (hw : Marked legacy w) (h : Allowed E w.docker d') :
    Marked legacy { w with docker := d' } where
  containers x hx hlabel := by
    rcases h.containers x hx with ⟨y, hy, hlike, hname, -⟩ | ⟨-, -, hmarked, -⟩
    · have hy := hw.containers y hy (hlike.labels ▸ hlabel)
      rcases hname with hname | ⟨hours, -⟩
      · rwa [hname]
      · exact absurd rfl (ne_of_isOurs hours hy)
    · rw [(not_marked hmarked).1] at hlabel
      cases hlabel
  networks n hn := by
    rcases h.networks n hn with hn | ⟨hours, hmarked⟩
    · exact hw.networks n hn
    · rw [(not_marked hmarked).1]
      refine ⟨fun hlabel => (nomatch hlabel), fun ⟨i, hi⟩ => ?_⟩
      exact absurd hi (ne_of_isOurs hours (isOurs_leaseName i))
  volumes v hv hlabel := by
    rcases h.volumes v hv with hv | hmarked
    · exact hw.volumes v hv hlabel
    · rw [(not_marked hmarked).1] at hlabel
      cases hlabel
  legacyVolumes v hv hlabel := by
    rcases h.volumes v hv with hv | hmarked
    · exact hw.legacyVolumes v hv hlabel
    · rw [(not_marked hmarked).2] at hlabel
      cases hlabel
  ids i id hid := (hw.ids i id hid).later (changes_allowed rfl h)

/-- **Others keep the invariant.** -/
theorem Kept.allowed (hw : Kept node legacy w) (h : Allowed E w.docker d') :
    Kept node legacy { w with docker := d' } :=
  ⟨hw.confined.allowed h, hw.marked.allowed h⟩

/-- A crash forgets the ids. -/
theorem Kept.crash (hw : Kept node legacy w) :
    Kept node legacy { w with ids := fun _ => (none, none) } :=
  ⟨hw.confined,
    { hw.marked with ids := fun i id hid => by rcases hid with hid | hid <;> cases hid }⟩

end Calls

end Sandbox
end Mach402
