import Mathlib.Tactic

/-!
# Docker

The calls that the agent makes of the local daemon, with the requests they carry.  The daemon is
not part of the agent: it is a parameter, with what its API documents.

* `Call`, `Call.Result`: the calls of `docker.go` and what they return;
* `Engine`: a daemon, by what it holds and how it serves a call;
* `Effect`: what a call may do, whether it is answered, fails, or loses its answer;
* `Documented`: a daemon that does no more than its API documents;
* `Obliging`: one that also does all of it.
-/

namespace Mach402
namespace Docker

/-- Labels, by their keys. -/
abbrev Labels := List (String × String)

/-! ### Requests -/

/-- `DeviceRequest`: a GPU is passed through. -/
structure DeviceRequest where
  driver : String
  count : ℤ
  capabilities : List (List String)
  deriving DecidableEq

/-- `Mount`: a volume in a container. -/
structure Mount where
  type : String
  source : String
  target : String
  deriving DecidableEq

/-- `HostConfig`: the limits of a container. -/
structure HostConfig where
  networkMode : String
  memory : ℤ
  nanoCpus : ℤ
  pidsLimit : ℤ
  readonlyRootfs : Bool
  mounts : List Mount
  deviceRequests : List DeviceRequest
  autoRemove : Bool
  capDrop : List String
  capAdd : List String
  securityOpt : List String
  deriving DecidableEq

/-- `EndpointConfig`: the names of a container on a network. -/
structure EndpointConfig where
  aliases : List String
  deriving DecidableEq

/-- `CreateContainerRequest`: what a container is created from. -/
structure CreateContainerRequest where
  image : String
  env : List String
  workingDir : String
  labels : Labels
  hostConfig : HostConfig
  /-- `NetworkingConfig.EndpointsConfig`, by the networks. -/
  endpointsConfig : List (String × EndpointConfig)
  deriving DecidableEq

/-- The networks that a container is on from its creation. -/
def CreateContainerRequest.networks (req : CreateContainerRequest) : List String :=
  (if req.hostConfig.networkMode = "" then "bridge" else req.hostConfig.networkMode) ::
    req.endpointsConfig.map Prod.fst

/-- The volumes that a container mounts by their names. -/
def CreateContainerRequest.volumes (req : CreateContainerRequest) : List String :=
  (req.hostConfig.mounts.filter (·.type = "volume")).map Mount.source

/-! ### What a daemon holds -/

/-- The state of a container. -/
inductive RunState
  | created
  | running
  | paused
  | exited
  deriving DecidableEq

/-- A container, and what it was created as. -/
structure Container where
  id : ℕ
  name : String
  request : CreateContainerRequest
  /-- Those asked for, and those of the image. -/
  labels : Labels
  networks : List String
  volumes : List String
  /-- Of its volumes, those that were created with it under names of the daemon's own. -/
  anonymous : List String
  state : RunState
  deriving DecidableEq

/-- A network.  From an internal one nothing leads out. -/
structure Network where
  name : String
  internal : Bool
  labels : Labels
  deriving DecidableEq

/-- A volume. -/
structure Volume where
  name : String
  labels : Labels
  deriving DecidableEq

/-- It has a label with this key. -/
def hasLabel (labels : Labels) (key : String) : Bool := labels.any (·.1 = key)

/-- What does not change about a container.  It may be renamed, connected, started and stopped. -/
structure Container.Like (x y : Container) : Prop where
  id : x.id = y.id
  request : x.request = y.request
  labels : x.labels = y.labels
  volumes : x.volumes = y.volumes
  anonymous : x.anonymous = y.anonymous

theorem Container.Like.refl (x : Container) : x.Like x := ⟨rfl, rfl, rfl, rfl, rfl⟩

theorem Container.Like.trans {x y z : Container} (h : x.Like y) (h' : y.Like z) : x.Like z :=
  ⟨h.id.trans h'.id, h.request.trans h'.request, h.labels.trans h'.labels,
    h.volumes.trans h'.volumes, h.anonymous.trans h'.anonymous⟩

/-! ### Calls -/

/-- The calls of the agent that change something, or that a sweep rests on. -/
inductive Call
  | createContainer (name : String) (req : CreateContainerRequest)
  | startContainer (id : ℕ)
  | removeContainer (id : ℕ)
  | pauseContainer (id : ℕ)
  | unpauseContainer (id : ℕ)
  | containerIP (id : ℕ) (network : String)
  | createNetwork (name : String) (internal : Bool) (labels : Labels)
  | connectNetwork (network : String) (id : ℕ) (aliases : List String)
  | removeNetwork (name : String)
  | listNetworksByLabel (label : String)
  | createVolume (name : String) (labels : Labels)
  | removeVolume (name : String)
  | listContainersByLabel (label : String)
  | listVolumesByLabel (label : String)

/-- What a call returns. -/
def Call.Result : Call → Type
  | .createContainer .. => ℕ
  | .containerIP .. => String
  | .listContainersByLabel _ => List ℕ
  | .listNetworksByLabel _ | .listVolumesByLabel _ => List String
  | _ => Unit

/-- The container that a call is about. -/
def Call.container : Call → Option ℕ
  | .startContainer id | .removeContainer id | .pauseContainer id | .unpauseContainer id
  | .connectNetwork _ id _ => some id
  | _ => none

/-! ### The daemon -/

/-- A daemon. -/
structure Engine where
  State : Type
  /-- What else decides on how a call ends. -/
  Choice : Type
  containers : State → List Container
  networks : State → List Network
  volumes : State → List Volume
  /-- A container has, or has had, this id. -/
  Issued : State → ℕ → Prop
  serve : State → (c : Call) → Choice → Option (State × Except String c.Result)

variable {E : Engine} {d d' : E.State} {c : Call}

/-- The label of volumes that no request has named. -/
def anonymousLabel : String := "com.docker.volume.anonymous"

/-- A name that a daemon gives: a random number, in hexadecimal digits. -/
def isGiven (name : String) : Bool := name.toList.all fun c => c ∈ "0123456789abcdef".toList

/-- **What a call may do**, whether it is answered or not: what there is afterwards was there before
or is what was asked for, and the call leaves alone what it is not about. -/
structure Effect (E : Engine) (d : E.State) (c : Call) (d' : E.State) : Prop where
  issued : ∀ id, E.Issued d id → E.Issued d' id
  container_of : ∀ x ∈ E.containers d',
    (∃ y ∈ E.containers d, x.Like y ∧ x.name = y.name ∧
      ∀ n ∈ x.networks, n ∈ y.networks ∨ ∃ aliases, c = .connectNetwork n x.id aliases) ∨
    (c = .createContainer x.name x.request ∧ ¬ E.Issued d x.id ∧ x.request.labels ⊆ x.labels ∧
      x.networks ⊆ x.request.networks ∧
      (∀ n ∈ x.volumes, n ∈ x.request.volumes ∨ n ∈ x.anonymous) ∧
      ∀ n ∈ x.anonymous, ∀ v ∈ E.volumes d, v.name ≠ n)
  network_of : ∀ n ∈ E.networks d', n ∈ E.networks d ∨ c = .createNetwork n.name n.internal n.labels
  /-- Volumes are also created with the containers that mount them. -/
  volume_of : ∀ v ∈ E.volumes d', v ∈ E.volumes d ∨ c = .createVolume v.name v.labels ∨
    (∃ name req, c = .createContainer name req) ∧ ∀ l ∈ v.labels, l.1 = anonymousLabel
  container_stays : ∀ x ∈ E.containers d, c.container ≠ some x.id →
    (∀ n ∈ x.networks, c ≠ .removeNetwork n) → x ∈ E.containers d'
  network_stays : ∀ n ∈ E.networks d, c ≠ .removeNetwork n.name → n ∈ E.networks d'
  /-- A container is removed with its anonymous volumes. -/
  volume_stays : ∀ v ∈ E.volumes d, c ≠ .removeVolume v.name →
    (∀ x ∈ E.containers d, v.name ∈ x.anonymous → c ≠ .removeContainer x.id) → v ∈ E.volumes d'
  /-- A volume in use is not removed. -/
  volume_used : ∀ v ∈ E.volumes d, c = .removeVolume v.name →
    (∃ x ∈ E.containers d, v.name ∈ x.volumes) → v ∈ E.volumes d'

/-- **A daemon as its API documents it.**  A container has an id of its own, which no other is given
later, and a volume has a name of its own. -/
structure Documented (E : Engine) : Prop where
  issued : ∀ d, ∀ x ∈ E.containers d, E.Issued d x.id
  ids : ∀ d, ((E.containers d).map Container.id).Nodup
  volumeNames : ∀ d, ((E.volumes d).map Volume.name).Nodup
  given : ∀ d, ∀ x ∈ E.containers d, ∀ n ∈ x.anonymous, isGiven n = true
  effect : ∀ {d c o d' r}, E.serve d c o = some (d', r) → Effect E d c d'
  created : ∀ {d name req o d' id}, E.serve d (.createContainer name req) o = some (d', .ok id) →
    ¬ E.Issued d id ∧ E.Issued d' id
  listed_containers : ∀ {d label o d'} {ids : List ℕ},
    E.serve d (.listContainersByLabel label) o = some (d', .ok ids) →
      ∀ id ∈ ids, ∃ x ∈ E.containers d, x.id = id ∧ hasLabel x.labels label = true
  listed_networks : ∀ {d label o d'} {names : List String},
    E.serve d (.listNetworksByLabel label) o = some (d', .ok names) →
      ∀ name ∈ names, ∃ n ∈ E.networks d, n.name = name ∧ hasLabel n.labels label = true
  listed_volumes : ∀ {d label o d'} {names : List String},
    E.serve d (.listVolumesByLabel label) o = some (d', .ok names) →
      ∀ name ∈ names, ∃ v ∈ E.volumes d, v.name = name ∧ hasLabel v.labels label = true

/-- **A daemon that does what it documents.**  It lists all that has a label; it removes a container
in whatever state it is, a volume that is not in use, and a network that no container is on. -/
structure Obliging (E : Engine)
    (respond : E.State → (c : Call) → E.State × Except String c.Result) : Prop where
  served : ∀ d c, ∃ o, E.serve d c o = some (respond d c)
  listed_containers : ∀ d label, ∃ ids : List ℕ,
    (respond d (.listContainersByLabel label)).2 = .ok ids ∧
    ∀ x ∈ E.containers d, hasLabel x.labels label = true → x.id ∈ ids
  listed_networks : ∀ d label, ∃ names : List String,
    (respond d (.listNetworksByLabel label)).2 = .ok names ∧
    ∀ n ∈ E.networks d, hasLabel n.labels label = true → n.name ∈ names
  listed_volumes : ∀ d label, ∃ names : List String,
    (respond d (.listVolumesByLabel label)).2 = .ok names ∧
    ∀ v ∈ E.volumes d, hasLabel v.labels label = true → v.name ∈ names
  removed_container : ∀ d id, ∀ x ∈ E.containers (respond d (.removeContainer id)).1, x.id ≠ id
  removed_volume : ∀ d name, (∀ x ∈ E.containers d, name ∉ x.volumes) →
    ∀ v ∈ E.volumes (respond d (.removeVolume name)).1, v.name ≠ name
  removed_network : ∀ d name, (∀ x ∈ E.containers d, name ∉ x.networks) →
    ∀ n ∈ E.networks (respond d (.removeNetwork name)).1, n.name ≠ name

namespace Documented

/-- **A container is known by its id.** -/
theorem eq_of_id (hE : Documented E) {x y : Container} (hx : x ∈ E.containers d)
    (hy : y ∈ E.containers d) (hid : x.id = y.id) : x = y :=
  List.inj_on_of_nodup_map (hE.ids d) hx hy hid

theorem eq_of_name (hE : Documented E) {v w : Volume} (hv : v ∈ E.volumes d)
    (hw : w ∈ E.volumes d) (hname : v.name = w.name) : v = w :=
  List.inj_on_of_nodup_map (hE.volumeNames d) hv hw hname

end Documented

/-- A call that creates no container leaves none but those there were. -/
theorem Effect.container_of_old (h : Effect E d c d')
    (hc : ∀ name req, c ≠ .createContainer name req) {x : Container} (hx : x ∈ E.containers d') :
    ∃ y ∈ E.containers d, x.Like y ∧ x.name = y.name := by
  rcases h.container_of x hx with ⟨y, hy, hlike, hname, -⟩ | ⟨hnew, -⟩
  · exact ⟨y, hy, hlike, hname⟩
  · exact absurd hnew (hc _ _)

end Docker
end Mach402
