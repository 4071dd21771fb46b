import Mach402.Agent.Docker

/-!
# A daemon

A small daemon that keeps to what the API documents, for images without volumes of their own.  It
shows that the assumptions on a daemon can be met, and runs the examples.

* `Held`, `Held.Sound`: what it holds, and what holds of that;
* `Held.refuses`, `Held.effect`, `Held.result`: how it serves a call;
* `dockerd`, `dockerd_documented`: the daemon does no more than is documented;
* `dockerd_obliging`: left to itself, it does all of it.
-/

namespace Mach402
namespace Docker

/-- What the daemon holds. -/
structure Held where
  containers : List Container
  networks : List Network
  volumes : List Volume
  /-- The id of the next container. -/
  nextID : ℕ
  deriving DecidableEq

namespace Held

/-- What holds of it: ids and names are given once, and there are no anonymous volumes. -/
structure Sound (d : Held) : Prop where
  fresh : ∀ x ∈ d.containers, x.id < d.nextID
  ids : (d.containers.map Container.id).Nodup
  volumeNames : (d.volumes.map Volume.name).Nodup
  anonymous : ∀ x ∈ d.containers, x.anonymous = []

/-! ### Calls -/

/-- What the daemon does not do. -/
def refuses (d : Held) : Call → Bool
  | .createContainer name _ => d.containers.any (·.name = name)
  | .startContainer id =>
    !d.containers.any fun x => decide (x.id = id ∧ x.state ≠ .paused) &&
      x.networks.all fun n => d.networks.any (·.name = n)
  | .removeContainer id => !d.containers.any (·.id = id)
  | .pauseContainer id => !d.containers.any fun x => decide (x.id = id ∧ x.state = .running)
  | .unpauseContainer id => !d.containers.any fun x => decide (x.id = id ∧ x.state = .paused)
  | .containerIP id n => !d.containers.any fun x => decide (x.id = id ∧ n ∈ x.networks)
  | .createNetwork name .. => d.networks.any (·.name = name)
  | .connectNetwork n id _ => !d.networks.any (·.name = n) || !d.containers.any (·.id = id)
  | .removeNetwork name =>
    !d.networks.any (·.name = name) || d.containers.any fun x =>
      decide (name ∈ x.networks ∧ (x.state = .running ∨ x.state = .paused))
  | .removeVolume name => d.containers.any fun x => decide (name ∈ x.volumes)
  | _ => false

/-- A container in another state. -/
def setState (d : Held) (id : ℕ) (state : RunState) : Held :=
  { d with containers := d.containers.map fun x => if x.id = id then { x with state } else x }

/-- A volume that exists is not created again. -/
def addVolume (volumes : List Volume) (name : String) (labels : Labels) : List Volume :=
  if volumes.any (·.name = name) then volumes else volumes ++ [⟨name, labels⟩]

/-- The volumes that a container mounts are created with it. -/
def mountAll (volumes : List Volume) (names : List String) : List Volume :=
  names.foldl (fun vs name => addVolume vs name []) volumes

/-- What the daemon does. -/
def effect (d : Held) : Call → Held
  | .createContainer name req =>
    { d with
      containers := d.containers ++
        [⟨d.nextID, name, req, req.labels, req.networks, req.volumes, [], .created⟩]
      volumes := mountAll d.volumes req.volumes
      nextID := d.nextID + 1 }
  | .startContainer id => d.setState id .running
  | .removeContainer id => { d with containers := d.containers.filter (·.id ≠ id) }
  | .pauseContainer id => d.setState id .paused
  | .unpauseContainer id => d.setState id .running
  | .createNetwork name internal labels =>
    { d with networks := d.networks ++ [⟨name, internal, labels⟩] }
  | .connectNetwork n id _ =>
    { d with
      containers := d.containers.map fun x =>
        if x.id = id then { x with networks := x.networks ++ [n] } else x }
  | .removeNetwork name => { d with networks := d.networks.filter (·.name ≠ name) }
  | .createVolume name labels => { d with volumes := addVolume d.volumes name labels }
  | .removeVolume name => { d with volumes := d.volumes.filter (·.name ≠ name) }
  | .containerIP .. | .listNetworksByLabel _ | .listContainersByLabel _ | .listVolumesByLabel _ => d

/-- What a call returns.  `text`: the address of a container. -/
def result (d : Held) (text : String) : (c : Call) → c.Result
  | .createContainer .. => d.nextID
  | .containerIP .. => text
  | .listContainersByLabel label =>
    (d.containers.filter fun x => hasLabel x.labels label).map Container.id
  | .listNetworksByLabel label =>
    (d.networks.filter fun n => hasLabel n.labels label).map Network.name
  | .listVolumesByLabel label =>
    (d.volumes.filter fun v => hasLabel v.labels label).map Volume.name
  | .startContainer _ | .removeContainer _ | .pauseContainer _ | .unpauseContainer _ => ()
  | .createNetwork .. | .connectNetwork .. | .removeNetwork _ => ()
  | .createVolume .. | .removeVolume _ => ()

variable {d : Held} {c : Call}

/-! ### Where things come from -/

theorem mem_setState {id : ℕ} {state : RunState} {x : Container} :
    x ∈ (d.setState id state).containers ↔
      ∃ y ∈ d.containers, (if y.id = id then { y with state } else y) = x := by
  simp [setState]

theorem mem_addVolume {volumes : List Volume} {name : String} {labels : Labels} {v : Volume}
    (hv : v ∈ addVolume volumes name labels) : v ∈ volumes ∨ v = ⟨name, labels⟩ := by
  unfold addVolume at hv
  split_ifs at hv
  · exact Or.inl hv
  · simpa using hv

theorem subset_addVolume (volumes : List Volume) (name : String) (labels : Labels) :
    volumes ⊆ addVolume volumes name labels := by
  unfold addVolume
  split_ifs
  · exact List.Subset.refl _
  · exact List.subset_append_left _ _

theorem nodup_addVolume {volumes : List Volume} (name : String) (labels : Labels)
    (h : (volumes.map Volume.name).Nodup) :
    ((addVolume volumes name labels).map Volume.name).Nodup := by
  unfold addVolume
  split_ifs with hname
  · exact h
  · rw [List.map_append, List.nodup_append]
    refine ⟨h, List.nodup_singleton _, fun a ha b hb => ?_⟩
    rintro rfl
    obtain ⟨v, hv, rfl⟩ := List.mem_map.1 ha
    refine hname (List.any_eq_true.2 ⟨v, hv, ?_⟩)
    simpa using hb

/-- What a volume that is added keeps, mounting keeps. -/
theorem mountAll_induction {P : List Volume → Prop} {volumes : List Volume} {names : List String}
    (h0 : P volumes) (hadd : ∀ vs name, P vs → P (addVolume vs name [])) :
    P (mountAll volumes names) := by
  unfold mountAll
  induction names generalizing volumes with
  | nil => exact h0
  | cons name names ih => exact ih (hadd volumes name h0)

theorem ids_map {f : Container → Container} (hf : ∀ x, (f x).id = x.id) (xs : List Container) :
    (xs.map f).map Container.id = xs.map Container.id := by
  rw [List.map_map]
  exact List.map_congr_left fun x _ => hf x

/-- **Where a container comes from.** -/
theorem mem_containers {x : Container} (hx : x ∈ (d.effect c).containers) :
    (∃ y ∈ d.containers, x.Like y ∧ x.name = y.name ∧
      ∀ n ∈ x.networks, n ∈ y.networks ∨ ∃ aliases, c = .connectNetwork n x.id aliases) ∨
    (c = .createContainer x.name x.request ∧
      x = ⟨d.nextID, x.name, x.request, x.request.labels, x.request.networks, x.request.volumes,
        [], .created⟩) := by
  have hold : ∀ y ∈ d.containers, ∃ z ∈ d.containers, y.Like z ∧ y.name = z.name ∧
      ∀ n ∈ y.networks, n ∈ z.networks ∨ ∃ aliases, c = .connectNetwork n y.id aliases :=
    fun y hy => ⟨y, hy, .refl y, rfl, fun n hn => Or.inl hn⟩
  cases c with
  | createContainer name req =>
    rcases List.mem_append.1 hx with hx | hx
    · exact Or.inl (hold x hx)
    · cases List.mem_singleton.1 hx
      exact Or.inr ⟨rfl, rfl⟩
  | startContainer id | pauseContainer id | unpauseContainer id =>
    obtain ⟨y, hy, rfl⟩ := mem_setState.1 hx
    refine Or.inl ⟨y, hy, ?_⟩
    split_ifs <;> exact ⟨⟨rfl, rfl, rfl, rfl, rfl⟩, rfl, fun n hn => Or.inl hn⟩
  | removeContainer id => exact Or.inl (hold x (List.mem_filter.1 hx).1)
  | connectNetwork n id aliases =>
    obtain ⟨y, hy, rfl⟩ := List.mem_map.1 hx
    refine Or.inl ⟨y, hy, ?_⟩
    split_ifs with hid
    · refine ⟨⟨rfl, rfl, rfl, rfl, rfl⟩, rfl, fun m hm => ?_⟩
      rcases List.mem_append.1 hm with hm | hm
      · exact Or.inl hm
      · cases List.mem_singleton.1 hm
        exact Or.inr ⟨aliases, by rw [← hid]⟩
    · exact ⟨.refl y, rfl, fun m hm => Or.inl hm⟩
  | _ => exact Or.inl (hold x hx)

/-- **What holds of the daemon stays so.** -/
theorem Sound.effect (h : d.Sound) (c : Call) : (d.effect c).Sound where
  fresh x hx := by
    have hnext : d.nextID ≤ (d.effect c).nextID := by
      cases c with
      | createContainer name req => exact Nat.le_succ _
      | _ => exact le_rfl
    rcases mem_containers hx with ⟨y, hy, hlike, -⟩ | ⟨rfl, hnew⟩
    · have hlt := h.fresh y hy
      have hid := hlike.id
      omega
    · rw [hnew]
      exact Nat.lt_succ_self _
  ids := by
    cases c with
    | createContainer name req =>
      show ((d.containers ++ [_]).map Container.id).Nodup
      rw [List.map_append, List.nodup_append]
      refine ⟨h.ids, List.nodup_singleton _, fun a ha b hb => ?_⟩
      obtain ⟨x, hx, rfl⟩ := List.mem_map.1 ha
      cases List.mem_singleton.1 hb
      exact (h.fresh x hx).ne
    | startContainer id | pauseContainer id | unpauseContainer id =>
      show ((d.containers.map _).map Container.id).Nodup
      rw [ids_map fun x => by split_ifs <;> rfl]
      exact h.ids
    | connectNetwork n id aliases =>
      show ((d.containers.map _).map Container.id).Nodup
      rw [ids_map fun x => by split_ifs <;> rfl]
      exact h.ids
    | removeContainer id => exact h.ids.sublist (List.filter_sublist.map _)
    | _ => exact h.ids
  volumeNames := by
    cases c with
    | createContainer name req =>
      exact mountAll_induction (P := fun vs => (vs.map Volume.name).Nodup) h.volumeNames
        fun vs name hvs => nodup_addVolume _ _ hvs
    | createVolume name labels => exact nodup_addVolume _ _ h.volumeNames
    | removeVolume name => exact h.volumeNames.sublist (List.filter_sublist.map _)
    | _ => exact h.volumeNames
  anonymous x hx := by
    rcases mem_containers hx with ⟨y, hy, hlike, -⟩ | ⟨-, hnew⟩
    · rw [hlike.anonymous, h.anonymous y hy]
    · rw [hnew]

/-- **Where a network comes from.** -/
theorem mem_networks {n : Network} (hn : n ∈ (d.effect c).networks) :
    n ∈ d.networks ∨ c = .createNetwork n.name n.internal n.labels := by
  cases c with
  | createNetwork name internal labels =>
    rcases List.mem_append.1 hn with hn | hn
    · exact Or.inl hn
    · cases List.mem_singleton.1 hn
      exact Or.inr rfl
  | removeNetwork name => exact Or.inl (List.mem_filter.1 hn).1
  | _ => exact Or.inl hn

/-- **Where a volume comes from.** -/
theorem mem_volumes {v : Volume} (hv : v ∈ (d.effect c).volumes) :
    v ∈ d.volumes ∨ c = .createVolume v.name v.labels ∨
      (∃ name req, c = .createContainer name req) ∧ ∀ l ∈ v.labels, l.1 = anonymousLabel := by
  cases c with
  | createContainer name req =>
    have hall : ∀ u ∈ mountAll d.volumes req.volumes, u ∈ d.volumes ∨ u.labels = [] := by
      refine mountAll_induction (P := fun vs => ∀ u ∈ vs, u ∈ d.volumes ∨ u.labels = [])
        (fun u hu => Or.inl hu) fun vs name hvs u hu => ?_
      rcases mem_addVolume hu with hu | rfl
      · exact hvs u hu
      · exact Or.inr rfl
    rcases hall v hv with hold | hnil
    · exact Or.inl hold
    · rw [hnil]
      exact Or.inr (Or.inr ⟨⟨name, req, rfl⟩, List.forall_mem_nil _⟩)
  | createVolume name labels =>
    rcases mem_addVolume hv with hv | rfl
    · exact Or.inl hv
    · exact Or.inr (Or.inl rfl)
  | removeVolume name => exact Or.inl (List.mem_filter.1 hv).1
  | _ => exact Or.inl hv

/-! ### What a call leaves alone -/

theorem container_stays {x : Container} (hx : x ∈ d.containers) (hc : c.container ≠ some x.id) :
    x ∈ (d.effect c).containers := by
  cases c with
  | createContainer name req => exact List.mem_append_left _ hx
  | startContainer id | pauseContainer id | unpauseContainer id =>
    refine mem_setState.2 ⟨x, hx, if_neg fun hid => hc ?_⟩
    rw [Call.container, hid]
  | removeContainer id =>
    refine List.mem_filter.2 ⟨hx, decide_eq_true fun hid => hc ?_⟩
    rw [Call.container, hid]
  | connectNetwork n id aliases =>
    refine List.mem_map.2 ⟨x, hx, if_neg fun hid => hc ?_⟩
    rw [Call.container, hid]
  | _ => exact hx

theorem network_stays {n : Network} (hn : n ∈ d.networks) (hc : c ≠ .removeNetwork n.name) :
    n ∈ (d.effect c).networks := by
  cases c with
  | createNetwork name internal labels => exact List.mem_append_left _ hn
  | removeNetwork name =>
    refine List.mem_filter.2 ⟨hn, decide_eq_true fun hname => hc ?_⟩
    rw [hname]
  | _ => exact hn

theorem volume_stays {v : Volume} (hv : v ∈ d.volumes) (hc : c ≠ .removeVolume v.name) :
    v ∈ (d.effect c).volumes := by
  cases c with
  | createContainer name req =>
    exact mountAll_induction (P := fun vs => v ∈ vs) hv
      fun vs name hvs => subset_addVolume vs _ _ hvs
  | createVolume name labels => exact subset_addVolume _ _ _ hv
  | removeVolume name =>
    refine List.mem_filter.2 ⟨hv, decide_eq_true fun hname => hc ?_⟩
    rw [hname]
  | _ => exact hv

end Held

/-! ### The daemon -/

/-- How a call ends: it succeeds, it fails, or it has its effect and its answer is lost. -/
inductive Ending
  | ok (text : String)
  | fails (text : String)
  | lost (text : String)

/-- The daemon with a call done. -/
def Held.after (d : { d : Held // d.Sound }) (c : Call) : { d : Held // d.Sound } :=
  ⟨d.1.effect c, d.2.effect c⟩

/-- **The daemon.** -/
def dockerd : Engine where
  State := { d : Held // d.Sound }
  Choice := Ending
  containers d := d.1.containers
  networks d := d.1.networks
  volumes d := d.1.volumes
  Issued d id := id < d.1.nextID
  serve d c
    | .ok text => if d.1.refuses c then none else some (Held.after d c, .ok (d.1.result text c))
    | .fails text => some (d, .error text)
    | .lost text => if d.1.refuses c then none else some (Held.after d c, .error text)

/-- It does whatever it can. -/
def dockerd.respond (d : dockerd.State) (c : Call) : dockerd.State × Except String c.Result :=
  if d.1.refuses c then (d, .error "") else (Held.after d c, .ok (d.1.result "" c))

section Dockerd

variable {d d' : dockerd.State} {c : Call}

/-- **A call has its effect, or none.** -/
theorem dockerd_serve {out : Ending} {r : Except String c.Result}
    (h : dockerd.serve d c out = some (d', r)) :
    (d' = Held.after d c ∧ d.1.refuses c = false ∧ ∀ a, r = .ok a → ∃ text, a = d.1.result text c) ∨
      d' = d ∧ ∃ text, r = .error text := by
  cases out with
  | ok text =>
    simp only [dockerd] at h
    split_ifs at h with hr
    cases h
    refine Or.inl ⟨rfl, by simpa using hr, fun a ha => ⟨text, ?_⟩⟩
    cases ha
    rfl
  | fails text =>
    cases h
    exact Or.inr ⟨rfl, text, rfl⟩
  | lost text =>
    simp only [dockerd] at h
    split_ifs at h with hr
    cases h
    exact Or.inl ⟨rfl, by simpa using hr, fun a ha => by cases ha⟩

/-- What an answered call returns. -/
theorem dockerd_result {out : Ending} {a : c.Result}
    (h : dockerd.serve d c out = some (d', .ok a)) :
    d' = Held.after d c ∧ ∃ text, a = d.1.result text c := by
  rcases dockerd_serve h with ⟨hd', -, ha⟩ | ⟨-, text, htext⟩
  · exact ⟨hd', ha a rfl⟩
  · cases htext

/-- A call without an effect does what is documented of it. -/
theorem effect_self (E : Engine) (d : E.State) (c : Call) : Effect E d c d where
  issued _ hid := hid
  container_of x hx := Or.inl ⟨x, hx, .refl x, rfl, fun _ hn => Or.inl hn⟩
  network_of _ hn := Or.inl hn
  volume_of _ hv := Or.inl hv
  container_stays _ hx _ _ := hx
  network_stays _ hn _ := hn
  volume_stays _ hv _ _ := hv
  volume_used _ hv _ _ := hv

theorem effect_after (hc : d.1.refuses c = false) : Effect dockerd d c (Held.after d c) where
  issued id hid := by
    refine lt_of_lt_of_le hid ?_
    cases c with
    | createContainer name req => exact Nat.le_succ _
    | _ => exact le_rfl
  container_of x hx := by
    rcases Held.mem_containers hx with hold | ⟨hcall, hnew⟩
    · exact Or.inl hold
    · refine Or.inr ⟨hcall, ?_⟩
      rw [hnew]
      exact ⟨lt_irrefl d.1.nextID, List.Subset.refl _, List.Subset.refl _,
        fun n hn => Or.inl hn, List.forall_mem_nil _⟩
  network_of n hn := Held.mem_networks hn
  volume_of v hv := Held.mem_volumes hv
  container_stays x hx hid _ := Held.container_stays hx hid
  network_stays n hn hcall := Held.network_stays hn hcall
  volume_stays v hv hcall _ := Held.volume_stays hv hcall
  volume_used v _ hcall hused := by
    subst hcall
    obtain ⟨x, hx, hv⟩ := hused
    exact absurd (decide_eq_true hv) (List.any_eq_false.1 hc x hx)

/-- **The daemon keeps to its documentation.** -/
theorem dockerd_documented : Documented dockerd where
  issued d x hx := d.2.fresh x hx
  ids d := d.2.ids
  volumeNames d := d.2.volumeNames
  given d x hx n hn := by
    rw [d.2.anonymous x hx] at hn
    cases hn
  effect {d c o d' r} h := by
    rcases dockerd_serve h with ⟨rfl, hrefuses, -⟩ | ⟨rfl, -⟩
    · exact effect_after hrefuses
    · exact effect_self dockerd _ c
  created {d name req o d' id} h := by
    obtain ⟨rfl, text, rfl⟩ := dockerd_result h
    exact ⟨lt_irrefl d.1.nextID, Nat.lt_succ_self d.1.nextID⟩
  listed_containers {d label o d' ids} h id hid := by
    obtain ⟨-, text, rfl⟩ := dockerd_result h
    obtain ⟨x, hx, rfl⟩ := List.mem_map.1 hid
    obtain ⟨hx, hlabel⟩ := List.mem_filter.1 hx
    exact ⟨x, hx, rfl, hlabel⟩
  listed_networks {d label o d' names} h name hname := by
    obtain ⟨-, text, rfl⟩ := dockerd_result h
    obtain ⟨n, hn, rfl⟩ := List.mem_map.1 hname
    obtain ⟨hn, hlabel⟩ := List.mem_filter.1 hn
    exact ⟨n, hn, rfl, hlabel⟩
  listed_volumes {d label o d' names} h name hname := by
    obtain ⟨-, text, rfl⟩ := dockerd_result h
    obtain ⟨v, hv, rfl⟩ := List.mem_map.1 hname
    obtain ⟨hv, hlabel⟩ := List.mem_filter.1 hv
    exact ⟨v, hv, rfl, hlabel⟩

/-- **Left to itself, it does what it documents.** -/
theorem dockerd_obliging : Obliging dockerd dockerd.respond where
  served d c := by
    unfold dockerd.respond
    by_cases hc : d.1.refuses c = true
    · exact ⟨.fails "", by rw [if_pos hc]; rfl⟩
    · refine ⟨.ok "", ?_⟩
      rw [if_neg hc]
      exact if_neg hc
  listed_containers d label :=
    ⟨_, rfl, fun x hx hlabel => List.mem_map_of_mem (List.mem_filter.2 ⟨hx, hlabel⟩)⟩
  listed_networks d label :=
    ⟨_, rfl, fun n hn hlabel => List.mem_map_of_mem (List.mem_filter.2 ⟨hn, hlabel⟩)⟩
  listed_volumes d label :=
    ⟨_, rfl, fun v hv hlabel => List.mem_map_of_mem (List.mem_filter.2 ⟨hv, hlabel⟩)⟩
  removed_container d id x hx := by
    unfold dockerd.respond at hx
    split_ifs at hx with hrefuses
    · -- there is no such container
      have hnone : d.1.containers.any (·.id = id) = false := by
        simpa only [Held.refuses, Bool.not_eq_true'] using hrefuses
      exact fun hid => List.any_eq_false.1 hnone x hx (decide_eq_true hid)
    · exact of_decide_eq_true (List.mem_filter.1 hx).2
  removed_volume d name hfree v hv := by
    unfold dockerd.respond at hv
    split_ifs at hv with hrefuses
    · obtain ⟨x, hx, hused⟩ := List.any_eq_true.1 hrefuses
      exact absurd (of_decide_eq_true hused) (hfree x hx)
    · exact of_decide_eq_true (List.mem_filter.1 hv).2
  removed_network d name hfree n hn := by
    unfold dockerd.respond at hn
    split_ifs at hn with hrefuses
    · rcases (Bool.or_eq_true _ _).mp hrefuses with hnone | hused
      · have hnone : d.1.networks.any (·.name = name) = false := by
          simpa only [Bool.not_eq_true'] using hnone
        exact fun hname => List.any_eq_false.1 hnone n hn (decide_eq_true hname)
      · obtain ⟨x, hx, hon⟩ := List.any_eq_true.1 hused
        exact absurd (of_decide_eq_true hon).1 (hfree x hx)
    · exact of_decide_eq_true (List.mem_filter.1 hn).2

end Dockerd

end Docker
end Mach402
