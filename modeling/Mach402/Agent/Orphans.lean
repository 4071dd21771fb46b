import Mach402.Agent.Isolation

/-!
# What a crash leaves is swept

The sweeps at the start of a node, with a daemon that does what it documents.  A volume in use is
not removed, nor a network that a container is on: the order of the sweep sees to that.

* `Shrinks`: what calls about some containers, volumes and networks leave;
* `SweptContainers`, `SweptVolumes`, `SweptNetworks`: what each part of a sweep leaves;
* `boot_sweeps`: after a crash in any state, the next start removes what is left of leases, and
  nothing that is others'.
-/

namespace Mach402
namespace Sandbox

open Docker (Documented Effect Engine Obliging dockerd hasLabel)

variable {E : Engine}

/-- A call, with a daemon that responds to it. -/
def World.respond (respond : E.State → (c : Docker.Call) → E.State × Except String c.Result)
    (w : World E) : (c : Call) → World E × c.Result
  | .docker c => ({ w with docker := (respond w.docker c).1 }, (respond w.docker c).2)
  | .storeContainer lease id =>
    ({ w with ids := Function.update w.ids lease (some id, (w.ids lease).2) }, ())
  | .storeProxy lease id =>
    ({ w with ids := Function.update w.ids lease ((w.ids lease).1, some id) }, ())
  | .readIDs lease => (w, w.ids lease)
  | .awaitJupyter _ => (w, .ok ())

/-- A program by itself. -/
abbrev run (respond : E.State → (c : Docker.Call) → E.State × Except String c.Result) {α : Type}
    (p : Prog α) (w : World E) : World E × α := p.alone (World.respond respond) w

/-! ### What calls leave -/

/-- A container that has none of these ids, and is on none of these networks. -/
def IsApart (ids : List ℕ) (networks : List String) (x : Docker.Container) : Prop :=
  x.id ∉ ids ∧ ∀ n ∈ x.networks, n ∉ networks

/-- **What calls about these containers, volumes and networks leave.**  Nothing is new, and what
the calls are not about is as it was. -/
structure Shrinks (E : Engine) (ids : List ℕ) (volumes networks : List String) (d d' : E.State) :
    Prop where
  container_of : ∀ x ∈ E.containers d', ∃ y ∈ E.containers d, x.Like y ∧
    (IsApart ids networks y → x = y)
  network_of : ∀ n ∈ E.networks d', n ∈ E.networks d
  volume_of : ∀ v ∈ E.volumes d', v ∈ E.volumes d
  container_stays : ∀ x ∈ E.containers d, IsApart ids networks x → x ∈ E.containers d'
  network_stays : ∀ n ∈ E.networks d, n.name ∉ networks → n ∈ E.networks d'
  volume_stays : ∀ v ∈ E.volumes d, (∀ x ∈ E.containers d, x.id ∈ ids → v.name ∉ x.anonymous) →
    (v.name ∈ volumes → ∃ x ∈ E.containers d, IsApart ids networks x ∧ v.name ∈ x.volumes) →
      v ∈ E.volumes d'

section Shrinks

variable {ids : List ℕ} {volumes networks : List String} {d d' d'' : E.State} {c : Docker.Call}

theorem Shrinks.refl (d : E.State) : Shrinks E ids volumes networks d d where
  container_of x hx := ⟨x, hx, .refl x, fun _ => rfl⟩
  network_of _ hn := hn
  volume_of _ hv := hv
  container_stays _ hx _ := hx
  network_stays _ hn _ := hn
  volume_stays _ hv _ _ := hv

theorem Shrinks.trans (h : Shrinks E ids volumes networks d d')
    (h' : Shrinks E ids volumes networks d' d'') : Shrinks E ids volumes networks d d'' where
  container_of x hx := by
    obtain ⟨y, hy, hxy, heq⟩ := h'.container_of x hx
    obtain ⟨z, hz, hyz, heq'⟩ := h.container_of y hy
    refine ⟨z, hz, hxy.trans hyz, fun hz => ?_⟩
    obtain rfl := heq' hz
    exact heq hz
  network_of n hn := h.network_of n (h'.network_of n hn)
  volume_of v hv := h.volume_of v (h'.volume_of v hv)
  container_stays x hx hapart := h'.container_stays x (h.container_stays x hx hapart) hapart
  network_stays n hn hname := h'.network_stays n (h.network_stays n hn hname) hname
  volume_stays v hv hfree hused := by
    refine h'.volume_stays v (h.volume_stays v hv hfree hused) (fun x hx hid => ?_) fun hname => ?_
    · obtain ⟨y, hy, hlike, -⟩ := h.container_of x hx
      rw [hlike.anonymous]
      exact hfree y hy (hlike.id ▸ hid)
    · obtain ⟨x, hx, hapart, hx'⟩ := hused hname
      exact ⟨x, h.container_stays x hx hapart, hapart, hx'⟩

/-- The calls of a sweep, and what they are about. -/
def IsAbout (ids : List ℕ) (volumes networks : List String) : Docker.Call → Prop
  | .removeContainer id | .unpauseContainer id => id ∈ ids
  | .removeVolume name => name ∈ volumes
  | .removeNetwork name => name ∈ networks
  | .listContainersByLabel _ | .listVolumesByLabel _ | .listNetworksByLabel _ => True
  | _ => False

/-- A call of a sweep does not touch what it is not about. -/
theorem IsAbout.container_stays (hc : IsAbout ids volumes networks c) (h : Effect E d c d')
    {x : Docker.Container} (hx : x ∈ E.containers d) (hapart : IsApart ids networks x) :
    x ∈ E.containers d' := by
  refine h.container_stays x hx (fun hid => ?_) fun n hn hcall => ?_
  · cases c with
    | removeContainer id | unpauseContainer id =>
      cases hid
      exact hapart.1 hc
    | startContainer id | pauseContainer id => exact hc
    | connectNetwork n id aliases => exact hc
    | _ => cases hid
  · subst hcall
    exact hapart.2 n hn hc

/-- **A call of a sweep** leaves all that it is not about. -/
theorem shrinks_of_effect (hE : Documented E) (hc : IsAbout ids volumes networks c)
    (h : Effect E d c d') : Shrinks E ids volumes networks d d' where
  container_of x hx := by
    obtain ⟨y, hy, hlike, -⟩ := h.container_of_old (fun _ _ hcall => by subst hcall; exact hc) hx
    exact ⟨y, hy, hlike, fun hapart => hE.eq_of_id hx (hc.container_stays h hy hapart) hlike.id⟩
  network_of n hn := by
    rcases h.network_of n hn with hn | rfl
    · exact hn
    · exact hc.elim
  volume_of v hv := by
    rcases h.volume_of v hv with hv | rfl | ⟨⟨name, req, rfl⟩, -⟩
    · exact hv
    · exact hc.elim
    · exact hc.elim
  container_stays x hx hapart := hc.container_stays h hx hapart
  network_stays n hn hname := by
    refine h.network_stays n hn fun hcall => ?_
    subst hcall
    exact hname hc
  volume_stays v hv hfree hused := by
    by_cases hcall : c = .removeVolume v.name
    · subst hcall
      obtain ⟨x, hx, -, hvx⟩ := hused hc
      exact h.volume_used v hv rfl ⟨x, hx, hvx⟩
    · refine h.volume_stays v hv hcall fun x hx hanonymous hremove => ?_
      subst hremove
      exact hfree x hx hc hanonymous

/-- If no container is meant, they are as they were. -/
theorem Shrinks.containers_iff (h : Shrinks E ids volumes networks d d')
    (hapart : ∀ x ∈ E.containers d, IsApart ids networks x) {x : Docker.Container} :
    x ∈ E.containers d' ↔ x ∈ E.containers d := by
  constructor
  · intro hx
    obtain ⟨y, hy, -, heq⟩ := h.container_of x hx
    rwa [heq (hapart y hy)]
  · exact fun hx => h.container_stays x hx (hapart x hx)

theorem Shrinks.networks_iff (h : Shrinks E ids volumes [] d d') {n : Docker.Network} :
    n ∈ E.networks d' ↔ n ∈ E.networks d :=
  ⟨h.network_of n, fun hn => h.network_stays n hn List.not_mem_nil⟩

theorem Shrinks.volumes_iff (h : Shrinks E [] [] networks d d') {v : Docker.Volume} :
    v ∈ E.volumes d' ↔ v ∈ E.volumes d :=
  ⟨h.volume_of v, fun hv =>
    h.volume_stays v hv (fun _ _ hid => by cases hid) fun hname => by cases hname⟩

theorem isApart_nil (x : Docker.Container) : IsApart [] [] x :=
  ⟨List.not_mem_nil, fun _ _ => List.not_mem_nil⟩

end Shrinks

/-! ### The parts of a sweep -/

section Parts

variable {respond : E.State → (c : Docker.Call) → E.State × Except String c.Result}
variable {w : World E} {label : String} {d d' : E.State}

theorem run_seq {α β : Type} (p : Prog α) (f : α → Prog β) :
    run respond (p >>= f) w = run respond (f (run respond p w).2) (run respond p w).1 :=
  Routine.alone_bind p f

theorem run_ignore (c : Docker.Call) :
    (run respond (ignore c) w).1 = { w with docker := (respond w.docker c).1 } := rfl

/-- What a call of the daemon leaves. -/
theorem shrinks_respond (hE : Documented E) (hrespond : Obliging E respond) {ids : List ℕ}
    {volumes networks : List String} {c : Docker.Call} (hc : IsAbout ids volumes networks c)
    (d : E.State) : Shrinks E ids volumes networks d (respond d c).1 := by
  obtain ⟨o, hserve⟩ := hrespond.served d c
  exact shrinks_of_effect hE hc (hE.effect hserve)

/-- A call that is answered. -/
theorem serve_of_ok (hrespond : Obliging E respond) {c : Docker.Call} {a : c.Result}
    (ha : (respond d c).2 = .ok a) : ∃ o, E.serve d c o = some ((respond d c).1, .ok a) := by
  obtain ⟨o, ho⟩ := hrespond.served d c
  exact ⟨o, by rw [ho, ← ha]⟩

/-- The containers that are listed are those with the label. -/
theorem run_listContainers (hE : Documented E) (hrespond : Obliging E respond) (w : World E)
    (label : String) : ∃ d' ids,
      run respond (listed (listContainersByLabel label)) w = ({ w with docker := d' }, ids) ∧
      Shrinks E [] [] [] w.docker d' ∧
      ∀ x ∈ E.containers d', x.id ∈ ids ↔ hasLabel x.labels label = true := by
  obtain ⟨ids, hids, hcomplete⟩ := hrespond.listed_containers w.docker label
  obtain ⟨o, hserve⟩ := serve_of_ok hrespond hids
  have hshrinks : Shrinks E [] [] [] w.docker _ :=
    shrinks_of_effect hE (c := .listContainersByLabel label) trivial (hE.effect hserve)
  have hsame : ∀ x ∈ E.containers (respond w.docker (.listContainersByLabel label)).1,
      x ∈ E.containers w.docker :=
    fun x hx => (hshrinks.containers_iff fun x _ => isApart_nil x).1 hx
  refine ⟨_, ids, Prod.ext rfl ?_, hshrinks, fun x hx => ⟨fun hid => ?_, hcomplete x (hsame x hx)⟩⟩
  · show (respond w.docker (.listContainersByLabel label)).2.toOption.getD [] = ids
    rw [hids]
    rfl
  · obtain ⟨y, hy, hyid, hlabel⟩ := hE.listed_containers hserve x.id hid
    rwa [← hE.eq_of_id hy (hsame x hx) hyid]

/-- The volumes that are listed are those with the label. -/
theorem run_listVolumes (hE : Documented E) (hrespond : Obliging E respond) (w : World E)
    (label : String) : ∃ d' names,
      run respond (listed (listVolumesByLabel label)) w = ({ w with docker := d' }, names) ∧
      Shrinks E [] [] [] w.docker d' ∧
      ∀ v ∈ E.volumes d', v.name ∈ names ↔ hasLabel v.labels label = true := by
  obtain ⟨names, hnames, hcomplete⟩ := hrespond.listed_volumes w.docker label
  obtain ⟨o, hserve⟩ := serve_of_ok hrespond hnames
  have hshrinks : Shrinks E [] [] [] w.docker _ :=
    shrinks_of_effect hE (c := .listVolumesByLabel label) trivial (hE.effect hserve)
  refine ⟨_, names, Prod.ext rfl ?_, hshrinks,
    fun v hv => ⟨fun hname => ?_, hcomplete v (hshrinks.volume_of v hv)⟩⟩
  · show (respond w.docker (.listVolumesByLabel label)).2.toOption.getD [] = names
    rw [hnames]
    rfl
  · obtain ⟨u, hu, huname, hlabel⟩ := hE.listed_volumes hserve v.name hname
    rwa [← hE.eq_of_name hu (hshrinks.volume_of v hv) huname]

/-- The networks that are listed are named as those with the label. -/
theorem run_listNetworks (hE : Documented E) (hrespond : Obliging E respond) (w : World E)
    (label : String) : ∃ d' names,
      run respond (listed (listNetworksByLabel label)) w = ({ w with docker := d' }, names) ∧
      Shrinks E [] [] [] w.docker d' ∧
      (∀ n ∈ E.networks d', hasLabel n.labels label = true → n.name ∈ names) ∧
      ∀ name ∈ names, ∃ n ∈ E.networks d', n.name = name ∧ hasLabel n.labels label = true := by
  obtain ⟨names, hnames, hcomplete⟩ := hrespond.listed_networks w.docker label
  obtain ⟨o, hserve⟩ := serve_of_ok hrespond hnames
  have hshrinks : Shrinks E [] [] [] w.docker _ :=
    shrinks_of_effect hE (c := .listNetworksByLabel label) trivial (hE.effect hserve)
  refine ⟨_, names, Prod.ext rfl ?_, hshrinks,
    fun n hn => hcomplete n (hshrinks.network_of n hn), fun name hname => ?_⟩
  · show (respond w.docker (.listNetworksByLabel label)).2.toOption.getD [] = names
    rw [hnames]
    rfl
  · obtain ⟨n, hn, hnname, hlabel⟩ := hE.listed_networks hserve name hname
    exact ⟨n, hshrinks.networks_iff.2 hn, hnname, hlabel⟩

/-- **A loop**, by what every round keeps and what it brings about for its own entry. -/
theorem run_forEach (respond : E.State → (c : Docker.Call) → E.State × Except String c.Result)
    {β : Type} (bs : List β) {I : World E → Prop} {P : β → World E → Prop} {f : β → Prog Unit}
    (hround : ∀ b ∈ bs, ∀ t, I t → I (run respond (f b) t).1 ∧ P b (run respond (f b) t).1 ∧
      ∀ b', P b' t → P b' (run respond (f b) t).1) (h0 : I w) :
    I (run respond (Routine.forEach f bs) w).1 ∧
      ∀ b ∈ bs, P b (run respond (Routine.forEach f bs) w).1 := by
  obtain ⟨hI, hP, -⟩ := Routine.alone_forEach hround h0
  exact ⟨hI, hP⟩

/-- A program removes a container, and is about no other. -/
def Removes (respond : E.State → (c : Docker.Call) → E.State × Except String c.Result)
    (f : ℕ → Prog Unit) : Prop :=
  ∀ (w : World E) (ids : List ℕ), ∀ id ∈ ids,
    Shrinks E ids [] [] w.docker (run respond (f id) w).1.docker ∧
      ∀ x ∈ E.containers (run respond (f id) w).1.docker, x.id ≠ id

theorem removes_container (hE : Documented E) (hrespond : Obliging E respond) :
    Removes respond fun id => ignore (.removeContainer id) := by
  intro w ids id hid
  rw [run_ignore]
  exact ⟨shrinks_respond hE hrespond (c := .removeContainer id) hid _,
    hrespond.removed_container w.docker id⟩

/-- A container is thawed first. -/
def thawAndRemove (id : ℕ) : Prog Unit := do
  ignore (.unpauseContainer id)
  ignore (.removeContainer id)

theorem removes_thawed (hE : Documented E) (hrespond : Obliging E respond) :
    Removes respond thawAndRemove := by
  intro w ids id hid
  rw [thawAndRemove, run_seq, run_ignore, run_ignore]
  exact ⟨(shrinks_respond hE hrespond (c := .unpauseContainer id) hid _).trans
    (shrinks_respond hE hrespond (c := .removeContainer id) hid _),
    hrespond.removed_container _ id⟩

/-- **Containers are removed**, one after another. -/
theorem run_removeContainers {f : ℕ → Prog Unit} (hf : Removes respond f) (ids : List ℕ) :
    Shrinks E ids [] [] w.docker (run respond (Routine.forEach f ids) w).1.docker ∧
      ∀ x ∈ E.containers (run respond (Routine.forEach f ids) w).1.docker, x.id ∉ ids := by
  have hloop := run_forEach (w := w) respond ids
    (I := fun t => Shrinks E ids [] [] w.docker t.docker)
    (P := fun id t => ∀ x ∈ E.containers t.docker, x.id ≠ id) (f := f) ?_ (.refl w.docker)
  · exact ⟨hloop.1, fun x hx hid => hloop.2 x.id hid x hx rfl⟩
  · intro id hid t ht
    obtain ⟨hround, hgone⟩ := hf t ids id hid
    refine ⟨ht.trans hround, hgone, fun id' hkeep x hx hxid => ?_⟩
    obtain ⟨y, hy, hlike, -⟩ := hround.container_of x hx
    exact hkeep y hy (hlike.id.symm.trans hxid)

/-- **Volumes are removed**, but those in use. -/
theorem run_removeVolumes (hE : Documented E) (hrespond : Obliging E respond)
    (names : List String) :
    let d' :=
      (run respond (Routine.forEach (fun name => ignore (.removeVolume name)) names) w).1.docker
    Shrinks E [] names [] w.docker d' ∧
      ∀ v ∈ E.volumes d', v.name ∈ names → ∃ x ∈ E.containers d', v.name ∈ x.volumes := by
  have hloop := run_forEach (w := w) respond names
    (I := fun t => Shrinks E [] names [] w.docker t.docker)
    (P := fun name t => ∀ v ∈ E.volumes t.docker, v.name = name →
      ∃ x ∈ E.containers t.docker, name ∈ x.volumes)
    (f := fun name => ignore (.removeVolume name)) ?_ (.refl w.docker)
  · exact ⟨hloop.1, fun v hv hname => hloop.2 v.name hname v hv rfl⟩
  · intro name hname t ht
    have hround : Shrinks E [] names [] t.docker (respond t.docker (.removeVolume name)).1 :=
      shrinks_respond hE hrespond (c := .removeVolume name) hname _
    -- who uses a volume stays
    have hstays : ∀ x ∈ E.containers t.docker,
        x ∈ E.containers (respond t.docker (.removeVolume name)).1 :=
      fun x hx => hround.container_stays x hx (isApart_nil x)
    refine ⟨ht.trans hround, fun v hv hvname => ?_, fun name' hkeep v hv hvname => ?_⟩
    · by_cases hused : ∃ x ∈ E.containers t.docker, name ∈ x.volumes
      · obtain ⟨x, hx, hxname⟩ := hused
        exact ⟨x, hstays x hx, hxname⟩
      · push Not at hused
        exact absurd hvname (hrespond.removed_volume t.docker name hused v hv)
    · obtain ⟨x, hx, hxname⟩ := hkeep v (hround.volume_of v hv) hvname
      exact ⟨x, hstays x hx, hxname⟩

/-- **Networks that nobody is on are removed.** -/
theorem run_removeNetworks (hE : Documented E) (hrespond : Obliging E respond)
    {names : List String} (hfree : ∀ x ∈ E.containers w.docker, ∀ n ∈ x.networks, n ∉ names) :
    let d' :=
      (run respond (Routine.forEach (fun name => ignore (.removeNetwork name)) names) w).1.docker
    Shrinks E [] [] names w.docker d' ∧ ∀ n ∈ E.networks d', n.name ∉ names := by
  have hloop := run_forEach (w := w) respond names
    (I := fun t => Shrinks E [] [] names w.docker t.docker ∧
      ∀ x ∈ E.containers t.docker, ∀ n ∈ x.networks, n ∉ names)
    (P := fun name t => ∀ n ∈ E.networks t.docker, n.name ≠ name)
    (f := fun name => ignore (.removeNetwork name)) ?_ ⟨.refl w.docker, hfree⟩
  · exact ⟨hloop.1.1, fun n hn hname => hloop.2 n.name hname n hn rfl⟩
  · rintro name hname t ⟨ht, hnobody⟩
    have hround : Shrinks E [] [] names t.docker (respond t.docker (.removeNetwork name)).1 :=
      shrinks_respond hE hrespond (c := .removeNetwork name) hname _
    refine ⟨⟨ht.trans hround, fun x hx => ?_⟩, ?_, fun name' hkeep n hn => ?_⟩
    · obtain ⟨y, hy, -, heq⟩ := hround.container_of x hx
      rw [heq ⟨List.not_mem_nil, hnobody y hy⟩]
      exact hnobody y hy
    · exact hrespond.removed_network t.docker name fun x hx hon => hnobody x hx name hon hname
    · exact hkeep n (hround.network_of n hn)

/-- The containers with a label are removed, as `f` removes one. -/
def sweepContainers (label : String) (f : ℕ → Prog Unit) : Prog Unit := do
  let ids ← listed (listContainersByLabel label)
  Routine.forEach f ids

/-- The volumes with a label are removed. -/
def sweepVolumes (label : String) : Prog Unit := do
  let names ← listed (listVolumesByLabel label)
  Routine.forEach (fun name => ignore (.removeVolume name)) names

/-- The networks with a label are removed. -/
def sweepNetworks (label : String) : Prog Unit := do
  let names ← listed (listNetworksByLabel label)
  Routine.forEach (fun name => ignore (.removeNetwork name)) names

/-- **What the sweep of the containers with a label leaves.**  Their anonymous volumes may be gone
with them. -/
structure SweptContainers (E : Engine) (label : String) (d d' : E.State) : Prop where
  containers : ∀ x, x ∈ E.containers d' ↔ x ∈ E.containers d ∧ hasLabel x.labels label = false
  networks : ∀ n, n ∈ E.networks d' ↔ n ∈ E.networks d
  volume_of : ∀ v ∈ E.volumes d', v ∈ E.volumes d
  volume_stays : ∀ v ∈ E.volumes d,
    (∀ x ∈ E.containers d, hasLabel x.labels label = true → v.name ∉ x.anonymous) →
      v ∈ E.volumes d'

/-- **What the sweep of the volumes with a label leaves.** -/
structure SweptVolumes (E : Engine) (label : String) (d d' : E.State) : Prop where
  containers : ∀ x, x ∈ E.containers d' ↔ x ∈ E.containers d
  networks : ∀ n, n ∈ E.networks d' ↔ n ∈ E.networks d
  volumes : ∀ v, v ∈ E.volumes d' ↔ v ∈ E.volumes d ∧
    (hasLabel v.labels label = true → ∃ x ∈ E.containers d, v.name ∈ x.volumes)

/-- **What the sweep of the networks with a label leaves.** -/
structure SweptNetworks (E : Engine) (label : String) (d d' : E.State) : Prop where
  containers : ∀ x, x ∈ E.containers d' ↔ x ∈ E.containers d
  networks : ∀ n, n ∈ E.networks d' ↔ n ∈ E.networks d ∧ hasLabel n.labels label = false
  volumes : ∀ v, v ∈ E.volumes d' ↔ v ∈ E.volumes d

theorem swept_containers (hE : Documented E) (hrespond : Obliging E respond) {f : ℕ → Prog Unit}
    (hf : Removes respond f) (label : String) (w : World E) :
    SweptContainers E label w.docker (run respond (sweepContainers label f) w).1.docker := by
  obtain ⟨d, ids, hrun, hlist, hids⟩ := run_listContainers hE hrespond w label
  rw [sweepContainers, run_seq, hrun]
  obtain ⟨hshrinks, hgone⟩ := run_removeContainers (w := { w with docker := d }) hf ids
  have hsame : ∀ x, x ∈ E.containers d ↔ x ∈ E.containers w.docker :=
    fun x => hlist.containers_iff fun y _ => isApart_nil y
  refine ⟨fun x => ⟨fun hx => ?_, fun ⟨hx, hlabel⟩ => ?_⟩, fun n => ?_, fun v hv => ?_,
    fun v hv hfree => ?_⟩
  · obtain ⟨y, hy, hlike, heq⟩ := hshrinks.container_of x hx
    have hid := hgone x hx
    obtain rfl := heq ⟨hlike.id ▸ hid, fun _ _ => List.not_mem_nil⟩
    exact ⟨(hsame x).1 hy, by simpa using mt (hids x hy).2 hid⟩
  · have hid : x.id ∉ ids := fun hid => by
      rw [(hids x ((hsame x).2 hx)).1 hid] at hlabel
      cases hlabel
    exact hshrinks.container_stays x ((hsame x).2 hx) ⟨hid, fun _ _ => List.not_mem_nil⟩
  · exact hshrinks.networks_iff.trans hlist.networks_iff
  · exact hlist.volume_of v (hshrinks.volume_of v hv)
  · refine hshrinks.volume_stays v (hlist.volumes_iff.2 hv) (fun x hx hid => ?_) fun h => by cases h
    exact hfree x ((hsame x).1 hx) ((hids x hx).1 hid)

theorem swept_volumes (hE : Documented E) (hrespond : Obliging E respond) (label : String)
    (w : World E) :
    SweptVolumes E label w.docker (run respond (sweepVolumes label) w).1.docker := by
  obtain ⟨d, names, hrun, hlist, hnames⟩ := run_listVolumes hE hrespond w label
  rw [sweepVolumes, run_seq, hrun]
  obtain ⟨hshrinks, hused⟩ := run_removeVolumes (w := { w with docker := d }) hE hrespond names
  have hsame : ∀ x, x ∈ E.containers d ↔ x ∈ E.containers w.docker :=
    fun x => hlist.containers_iff fun y _ => isApart_nil y
  have hsame' : ∀ x, x ∈ E.containers _ ↔ x ∈ E.containers w.docker :=
    fun x => (hshrinks.containers_iff fun y _ => isApart_nil y).trans (hsame x)
  refine ⟨hsame', fun n => hshrinks.networks_iff.trans hlist.networks_iff,
    fun v => ⟨fun hv => ?_, fun ⟨hv, hlabelled⟩ => ?_⟩⟩
  · have hvd := hshrinks.volume_of v hv
    refine ⟨hlist.volume_of v hvd, fun hlabel => ?_⟩
    obtain ⟨x, hx, hxname⟩ := hused v hv ((hnames v hvd).2 hlabel)
    exact ⟨x, (hsame' x).1 hx, hxname⟩
  · have hvd := hlist.volumes_iff.2 hv
    refine hshrinks.volume_stays v hvd (fun _ _ hid => by cases hid) fun hname => ?_
    obtain ⟨x, hx, hxname⟩ := hlabelled ((hnames v hvd).1 hname)
    exact ⟨x, (hsame x).2 hx, isApart_nil x, hxname⟩

/-- The label is known by the name of the network, and nobody is on one with it. -/
theorem swept_networks (hE : Documented E) (hrespond : Obliging E respond)
    (hname : ∀ n ∈ E.networks w.docker, ∀ m ∈ E.networks w.docker, n.name = m.name →
      hasLabel m.labels label = true → hasLabel n.labels label = true)
    (hfree : ∀ n ∈ E.networks w.docker, hasLabel n.labels label = true →
      ∀ x ∈ E.containers w.docker, n.name ∉ x.networks) :
    SweptNetworks E label w.docker (run respond (sweepNetworks label) w).1.docker := by
  obtain ⟨d, names, hrun, hlist, hcomplete, hnames⟩ := run_listNetworks hE hrespond w label
  rw [sweepNetworks, run_seq, hrun]
  have hsame : ∀ x, x ∈ E.containers d ↔ x ∈ E.containers w.docker :=
    fun x => hlist.containers_iff fun y _ => isApart_nil y
  have hnobody : ∀ x ∈ E.containers d, ∀ n ∈ x.networks, n ∉ names := by
    intro x hx n hn hlisted
    obtain ⟨m, hm, rfl, hlabel⟩ := hnames n hlisted
    exact hfree m (hlist.network_of m hm) hlabel x ((hsame x).1 hx) hn
  obtain ⟨hshrinks, hgone⟩ :=
    run_removeNetworks (w := { w with docker := d }) hE hrespond hnobody
  refine ⟨fun x => ?_, fun n => ⟨fun hn => ?_, fun ⟨hn, hlabel⟩ => ?_⟩,
    fun v => hshrinks.volumes_iff.trans hlist.volumes_iff⟩
  · exact (hshrinks.containers_iff fun y hy => ⟨List.not_mem_nil, hnobody y hy⟩).trans (hsame x)
  · have hnd := hshrinks.network_of n hn
    exact ⟨hlist.network_of n hnd, by simpa using mt (hcomplete n hnd) (hgone n hn)⟩
  · refine hshrinks.network_stays n (hlist.networks_iff.2 hn) fun hlisted => ?_
    obtain ⟨m, hm, hmname, hmlabel⟩ := hnames n.name hlisted
    rw [hname n hn m (hlist.network_of m hm) hmname.symm hmlabel] at hlabel
    cases hlabel

end Parts

/-! ### The sweeps -/

section Sweeps

variable {respond : E.State → (c : Docker.Call) → E.State × Except String c.Result}
variable {node : Settings} {legacy : List String} {w : World E}

/-- It is left by an older build. -/
def IsOrphan (x : Docker.Container) : Prop := hasLabel x.labels legacyJobLabel = true

/-- A sweep removes it. -/
def IsSweptAway (x : Docker.Container) : Prop :=
  hasLabel x.labels leaseLabel = true ∨ IsOrphan x

/-- **What a start leaves.**  Containers and networks: what carries no label.  Volumes: nothing with
the label of leases, of what older builds have left only what is in use, and all the rest, but for
the anonymous volumes of the containers that are gone. -/
structure Swept (E : Engine) (d d' : E.State) : Prop where
  containers : ∀ x, x ∈ E.containers d' ↔ x ∈ E.containers d ∧ ¬ IsSweptAway x
  networks : ∀ n, n ∈ E.networks d' ↔ n ∈ E.networks d ∧ hasLabel n.labels leaseLabel = false
  volume_of : ∀ v ∈ E.volumes d', v ∈ E.volumes d ∧ hasLabel v.labels leaseLabel = false ∧
    (hasLabel v.labels legacyJobLabel = true →
      ∃ x ∈ E.containers d, ¬ IsOrphan x ∧ v.name ∈ x.volumes)
  volume_stays : ∀ v ∈ E.volumes d, hasLabel v.labels leaseLabel = false →
    (hasLabel v.labels legacyJobLabel = true →
      ∃ x ∈ E.containers d, ¬ IsOrphan x ∧ v.name ∈ x.volumes) →
    (∀ x ∈ E.containers d, IsSweptAway x → v.name ∉ x.anonymous) → v ∈ E.volumes d'

/-- The containers on a lease's network carry the label. -/
theorem Confined.hasLabel_of_network {d : E.State} (hd : Confined E node d) {x : Docker.Container}
    (hx : x ∈ E.containers d) {i : String} (hi : leaseName i ∈ x.networks) :
    hasLabel x.labels leaseLabel = true :=
  hd.labelled x hx i (hd.members x hx i hi)

theorem run_then {α β : Type} (p : Prog α) (q : α → Prog Unit) (r : Prog β) :
    run respond (p >>= fun a => q a >>= fun _ => r) w =
      run respond r (run respond (p >>= q) w).1 := by
  rw [run_seq, run_seq, run_seq]

/-- `sweepOrphans`, by its parts. -/
theorem swept_sweepOrphans (hE : Documented E) (hrespond : Obliging E respond) (w : World E) :
    ∃ d₁, SweptContainers E legacyJobLabel w.docker d₁ ∧
      SweptVolumes E legacyJobLabel d₁ (run respond sweepOrphans w).1.docker := by
  rw [sweepOrphans, run_then]
  exact ⟨_, swept_containers hE hrespond (removes_container hE hrespond) _ w,
    swept_volumes hE hrespond _ _⟩

/-- `sweepLeaseOrphans`, by its parts: once its containers are gone, nobody is on a lease's
network. -/
theorem swept_sweepLeaseOrphans (hE : Documented E) (hrespond : Obliging E respond)
    (hnetworks : ∀ n ∈ E.networks w.docker, hasLabel n.labels leaseLabel = true ↔
      ∃ i, n.name = leaseName i)
    (hmembers : ∀ x ∈ E.containers w.docker, ∀ i, leaseName i ∈ x.networks →
      hasLabel x.labels leaseLabel = true) :
    ∃ d₁ d₂, SweptContainers E leaseLabel w.docker d₁ ∧ SweptVolumes E leaseLabel d₁ d₂ ∧
      SweptNetworks E leaseLabel d₂ (run respond sweepLeaseOrphans w).1.docker := by
  have hparts : run respond sweepLeaseOrphans w = run respond (sweepNetworks leaseLabel)
      (run respond (sweepVolumes leaseLabel)
        (run respond (sweepContainers leaseLabel thawAndRemove) w).1).1 := by
    rw [sweepLeaseOrphans, run_then, run_then]
    rfl
  rw [hparts]
  have hcontainers := swept_containers hE hrespond (removes_thawed hE hrespond) leaseLabel w
  have hvolumes := swept_volumes hE hrespond leaseLabel
    (run respond (sweepContainers leaseLabel thawAndRemove) w).1
  refine ⟨_, _, hcontainers, hvolumes,
    swept_networks hE hrespond (fun n hn m hm hname hlabel => ?_) fun n hn hlabel x hx hon => ?_⟩
  · have hn := (hcontainers.networks n).1 ((hvolumes.networks n).1 hn)
    have hm := (hcontainers.networks m).1 ((hvolumes.networks m).1 hm)
    rw [hnetworks n hn, hname]
    exact (hnetworks m hm).1 hlabel
  · have hn := (hcontainers.networks n).1 ((hvolumes.networks n).1 hn)
    obtain ⟨hx, hunlabelled⟩ := (hcontainers.containers x).1 ((hvolumes.containers x).1 hx)
    obtain ⟨i, hi⟩ := (hnetworks n hn).1 hlabel
    rw [hi] at hon
    rw [hmembers x hx i hon] at hunlabelled
    cases hunlabelled

/-- **A start sweeps what a crash has left.** -/
theorem swept_boot (hE : Documented E) (hrespond : Obliging E respond)
    (henabled : node.leases.enabled = true) (hw : Kept node legacy w) :
    Swept E w.docker (run respond (boot node.leases) w).1.docker := by
  have hboot : run respond (boot node.leases) w =
      run respond sweepLeaseOrphans (run respond sweepOrphans w).1 := by
    rw [boot, if_pos henabled]
    exact run_seq _ _
  obtain ⟨d₁, hcontainers, hvolumes⟩ := swept_sweepOrphans hE hrespond w
  -- what there is after the first sweep was there before it
  have hx₂ : ∀ x, x ∈ E.containers (run respond sweepOrphans w).1.docker ↔
      x ∈ E.containers w.docker ∧ ¬ IsOrphan x := fun x => by
    rw [hvolumes.containers, hcontainers.containers, IsOrphan, Bool.not_eq_true]
  have hn₂ : ∀ n, n ∈ E.networks (run respond sweepOrphans w).1.docker ↔
      n ∈ E.networks w.docker := fun n => (hvolumes.networks n).trans (hcontainers.networks n)
  obtain ⟨d₃, d₄, hcontainers', hvolumes', hnetworks'⟩ := swept_sweepLeaseOrphans
    (w := (run respond sweepOrphans w).1) hE hrespond
    (fun n hn => hw.marked.networks n ((hn₂ n).1 hn))
    fun x hx i hi => hw.confined.hasLabel_of_network ((hx₂ x).1 hx).1 hi
  rw [hboot]
  refine ⟨fun x => ?_, fun n => ?_, fun v hv => ?_, fun v hv hlabel hlegacy hfree => ?_⟩
  · rw [hnetworks'.containers, hvolumes'.containers, hcontainers'.containers, hx₂, IsSweptAway,
      not_or, Bool.not_eq_true, and_assoc, and_comm (a := ¬ IsOrphan x)]
  · rw [hnetworks'.networks, hvolumes'.networks, hcontainers'.networks, hn₂]
  · obtain ⟨hv₃, hunused⟩ := (hvolumes'.volumes v).1 ((hnetworks'.volumes v).1 hv)
    obtain ⟨hv₁, hused⟩ := (hvolumes.volumes v).1 (hcontainers'.volume_of v hv₃)
    have hv₀ := hcontainers.volume_of v hv₁
    refine ⟨hv₀, ?_, fun hlegacy => ?_⟩
    · -- who uses a lease's volume is the lease's container, which is gone
      by_contra hlabel
      have hlabel := Bool.eq_true_of_not_eq_false hlabel
      obtain ⟨x, hx, hxv⟩ := hunused hlabel
      obtain ⟨hx, hunlabelled⟩ := (hcontainers'.containers x).1 hx
      have hx₀ := ((hx₂ x).1 hx).1
      obtain ⟨i, hi⟩ := hw.marked.volumes v hv₀ hlabel
      rw [hi] at hxv
      rw [hw.confined.labelled x hx₀ i (Or.inl (hw.confined.workspace x hx₀ i hxv))] at hunlabelled
      cases hunlabelled
    · obtain ⟨x, hx, hxv⟩ := hused hlegacy
      obtain ⟨hx, hunlabelled⟩ := (hcontainers.containers x).1 hx
      exact ⟨x, hx, by rw [IsOrphan, hunlabelled]; exact Bool.false_ne_true, hxv⟩
  · have hv₁ := hcontainers.volume_stays v hv fun x hx hx' => hfree x hx (Or.inr hx')
    have hv₂ : v ∈ E.volumes (run respond sweepOrphans w).1.docker := by
      refine (hvolumes.volumes v).2 ⟨hv₁, fun h => ?_⟩
      obtain ⟨x, hx, hnot, hxv⟩ := hlegacy h
      exact ⟨x, (hcontainers.containers x).2 ⟨hx, Bool.eq_false_of_not_eq_true hnot⟩, hxv⟩
    have hv₃ := hcontainers'.volume_stays v hv₂ fun x hx hx' =>
      hfree x ((hx₂ x).1 hx).1 (Or.inl hx')
    refine (hnetworks'.volumes v).2 ((hvolumes'.volumes v).2 ⟨hv₃, fun h => ?_⟩)
    rw [hlabel] at h
    cases h

end Sweeps

/-- **Nothing is left of a lease after the next start.**  Whatever state a node crashes in, if the
daemon does what it documents and nobody else acts meanwhile, the start removes every container,
network and volume with the label of leases, so every container and network of a lease; it leaves
alone all that carries no label. -/
theorem boot_sweeps (hE : Documented E)
    {respond : E.State → (c : Docker.Call) → E.State × Except String c.Result}
    (hrespond : Obliging E respond) {node : Settings} (henabled : node.leases.enabled = true)
    {d : E.State} (hd : Untouched E d) {c : State E} (h : (sandboxSystem E node d).Reachable c) :
    let d' := (run respond (boot node.leases) ((sandbox E node).crash c.shared)).1.docker
    Swept E c.shared.docker d' ∧
      ∀ i, (∀ x ∈ E.containers d', x.name ≠ leaseName i ∧ x.name ≠ egressName i) ∧
        ∀ n ∈ E.networks d', n.name ≠ leaseName i := by
  have hkept : Kept node (legacyVolumes E d) ((sandbox E node).crash c.shared) :=
    (allSafe_of_reach hE hd h).1.crash
  have hswept := swept_boot hE hrespond henabled hkept
  refine ⟨hswept, fun i => ⟨fun x hx => ?_, fun n hn hname => ?_⟩⟩
  · obtain ⟨hmem, hgone⟩ := (hswept.containers x).1 hx
    exact ⟨fun hname => hgone (Or.inl (hkept.confined.labelled x hmem i (Or.inl hname))),
      fun hname => hgone (Or.inl (hkept.confined.labelled x hmem i (Or.inr hname)))⟩
  · obtain ⟨hmem, hlabel⟩ := (hswept.networks n).1 hn
    rw [(hkept.marked.networks n hmem).2 ⟨i, hname⟩] at hlabel
    cases hlabel

/-- A lease's container is there when the node crashes, and gone after its next start. -/
theorem boot_sweeps_crashed :
    ∃ c, (sandboxSystem dockerd sampleNode emptyDaemon).Reachable c ∧
      (∃ x ∈ dockerd.containers c.shared.docker, x.name = leaseName "a") ∧
      ∀ x ∈ dockerd.containers (run Docker.dockerd.respond (boot sampleNode.leases)
        ((sandbox dockerd sampleNode).crash c.shared)).1.docker, x.name ≠ leaseName "a" := by
  obtain ⟨c, x, -, hc, hx, -, hname, -⟩ := exists_route
  have hswept := boot_sweeps Docker.dockerd_documented Docker.dockerd_obliging rfl
    emptyDaemon_untouched hc
  exact ⟨c, hc, ⟨x, hx, hname⟩, fun y hy => ((hswept.2 "a").1 y hy).1⟩

end Sandbox
end Mach402
