import Mach402.Agent.Config
import Mach402.Agent.Docker
import Mach402.Library.Routine

/-!
# The sandbox of a lease

`provisionLease` and `startEgressProxy` with the requests they send to Docker, `reapLeaseResources`,
and the sweeps at the start of a node, as programs over one daemon.  Programs of any number of
leases run at once, a node may crash and start again, calls fail or lose their answers, and others
use the same daemon.

* `Settings`: the configuration that a node runs with;
* `leaseContainerRequest`, `egressProxyRequest`: what is asked of Docker;
* `provisionLease`, `reapLeaseResources`, `sweepOrphans`, `sweepLeaseOrphans`: the programs;
* `Allowed`: what others may do to the daemon;
* `sandbox`: all of it as a service.
-/

namespace Mach402
namespace Sandbox

open Docker (CreateContainerRequest HostConfig Engine Labels)

/-- The label of what belongs to a lease. -/
def leaseLabel : String := "cleargate.lease"

/-- The label of what older builds made for batch jobs. -/
def legacyJobLabel : String := "cleargate.job"

/-- Where a lease's container has its volume. -/
def workspaceDir : String := "/workspace"

/-- The port of Jupyter in a lease's container. -/
def jupyterPort : ℕ := 8888

/-- The port of the egress proxy. -/
def egressPort : ℕ := 3128

/-- The configuration of a node, as it is read from `dir`. -/
structure Settings where
  dir : String
  raw : Config.Leases

/-- The part of it that is about leases, with its defaults. -/
def Settings.leases (node : Settings) : Config.Leases := node.raw.applyDefaults node.dir

/-- The fields of a lease that its container is made from. -/
structure Lease where
  id : String
  jupyterToken : String
  /-- In UTC, as RFC 3339 has it. -/
  expiresAt : String
  deriving DecidableEq

/-- Its network, and the name of its container. -/
def leaseName (id : String) : String := "cleargate-lease-" ++ id

/-- The name of its egress proxy. -/
def egressName (id : String) : String := "cleargate-egress-" ++ id

/-- Its volume. -/
def workspaceName (id : String) : String := "cleargate-workspace-" ++ id

/-! ### Requests -/

/-- A product of an `int64`, which wraps around. -/
def int64 (n : ℤ) : ℤ := n.bmod (2 ^ 64)

/-- What `startEgressProxy` asks for. -/
def egressProxyRequest (cfg : Config.Leases) (id : String) (labels : Labels) :
    CreateContainerRequest where
  image := cfg.egress.proxyImage
  env :=
    [s!"EGRESS_LISTEN=:{egressPort}",
      "EGRESS_ALLOWLIST=" ++ ",".intercalate (cfg.egress.allowlist.getD [])]
  workingDir := ""
  labels := labels
  hostConfig :=
    { networkMode := leaseName id
      memory := 256 * 1024 * 1024
      nanoCpus := 1000000000
      pidsLimit := 256
      readonlyRootfs := true
      mounts := []
      deviceRequests := []
      autoRemove := false
      capDrop := ["ALL"]
      capAdd := []
      securityOpt := ["no-new-privileges"] }
  endpointsConfig := [(leaseName id, ⟨["egress"]⟩)]

/-- What `provisionLease` asks for.  `gpu`: the host has one. -/
def leaseContainerRequest (cfg : Config.Leases) (gpu : Bool) (lease : Lease) (caPublicKey : String)
    (labels : Labels) : CreateContainerRequest :=
  let proxy := s!"http://egress:{egressPort}"
  { image := cfg.image
    env :=
      ["JUPYTER_TOKEN=" ++ lease.jupyterToken,
        "SSH_CA_PUBKEY=" ++ caPublicKey,
        "LEASE_PRINCIPAL=" ++ lease.id,
        "LEASE_ID=" ++ lease.id,
        "LEASE_EXPIRES_AT=" ++ lease.expiresAt,
        "HTTP_PROXY=" ++ proxy,
        "HTTPS_PROXY=" ++ proxy,
        "http_proxy=" ++ proxy,
        "https_proxy=" ++ proxy,
        "NO_PROXY=localhost,127.0.0.1,egress",
        "no_proxy=localhost,127.0.0.1,egress"]
    workingDir := workspaceDir
    labels := labels
    hostConfig :=
      { networkMode := leaseName lease.id
        memory := int64 (cfg.limits.memoryMb * 1024 * 1024)
        nanoCpus := int64 (cfg.limits.cpuCores * 1000000000)
        pidsLimit := cfg.limits.pidsLimit
        readonlyRootfs := false
        mounts := [⟨"volume", workspaceName lease.id, workspaceDir⟩]
        -- passed through whenever the host has one
        deviceRequests := if gpu then [⟨"nvidia", -1, [["gpu"]]⟩] else []
        autoRemove := false
        capDrop := ["ALL"]
        capAdd :=
          ["CHOWN", "DAC_OVERRIDE", "FOWNER", "FSETID", "SETGID", "SETUID", "SYS_CHROOT", "KILL",
            "NET_BIND_SERVICE"]
        securityOpt := ["no-new-privileges"] }
    endpointsConfig := [(leaseName lease.id, ⟨[]⟩)] }

/-! ### Programs -/

/-- A call to Docker, an access to a lease under its lock, or a request to a lease's server. -/
inductive Call
  | docker (c : Docker.Call)
  | storeContainer (lease : String) (id : ℕ)
  | storeProxy (lease : String) (id : ℕ)
  | readIDs (lease : String)
  | awaitJupyter (addr : String)

/-- What it returns. -/
def Call.Result : Call → Type
  | .docker c => Except String c.Result
  | .storeContainer .. | .storeProxy .. => Unit
  | .readIDs _ => Option ℕ × Option ℕ
  | .awaitJupyter _ => Except String Unit

/-- A function of the runner that cannot fail. -/
abbrev Prog := Routine Call Call.Result

/-- A function of the runner that can fail. -/
abbrev ProgE (α : Type) := ExceptT String Prog α

/-- A call to Docker. -/
def docker (c : Docker.Call) : ProgE c.Result := ExceptT.mk (Routine.lift (Call.docker c))

/-- A call of which nothing reads the answer. -/
def ignore (c : Docker.Call) : Prog Unit := (Routine.lift (Call.docker c)).bind fun _ => .pure ()

/-- `fmt.Errorf("…: %w", err)`. -/
def wrap {α : Type} (text : String) (p : ProgE α) : ProgE α :=
  ExceptT.mk (p.run.bind fun r => .pure (r.mapError (text ++ ": " ++ ·)))

/-- `CreateContainer`. -/
def createContainer (name : String) (req : CreateContainerRequest) : ProgE ℕ :=
  docker (.createContainer name req)

/-- `ContainerIP`. -/
def containerIP (id : ℕ) (network : String) : ProgE String := docker (.containerIP id network)

/-- The lease is given the id of its proxy. -/
def storeProxy (lease : String) (id : ℕ) : ProgE Unit :=
  ExceptT.lift (Routine.lift (Call.storeProxy lease id))

/-- The lease is given the id of its container. -/
def storeContainer (lease : String) (id : ℕ) : ProgE Unit :=
  ExceptT.lift (Routine.lift (Call.storeContainer lease id))

/-- The ids of the lease's container and of its proxy. -/
def readIDs (lease : String) : Prog (Option ℕ × Option ℕ) := Routine.lift (Call.readIDs lease)

/-- The wait for the lease's own server. -/
def awaitJupyter (addr : String) : ProgE Unit := ExceptT.mk (Routine.lift (Call.awaitJupyter addr))

/-- The proxy is connected to the outside before it is started. -/
def startEgressProxy (cfg : Config.Leases) (lease : Lease) (labels : Labels) : ProgE Unit := do
  let id ← wrap "create the egress proxy"
    (createContainer (egressName lease.id) (egressProxyRequest cfg lease.id labels))
  storeProxy lease.id id
  wrap "give the egress proxy a route out" (docker (.connectNetwork "bridge" id []))
  wrap "start the egress proxy" (docker (.startContainer id))

/-- Everything that a lease has of Docker. -/
def provisionLease (cfg : Config.Leases) (gpu : Bool) (lease : Lease) (caPublicKey : String) :
    ProgE Unit := do
  let labels := [(leaseLabel, lease.id)]
  wrap "create the lease network" (docker (.createNetwork (leaseName lease.id) true labels))
  wrap "create the lease workspace" (docker (.createVolume (workspaceName lease.id) labels))
  startEgressProxy cfg lease labels
  let containerID ← wrap "create the lease container"
    (createContainer (leaseName lease.id)
      (leaseContainerRequest cfg gpu lease caPublicKey labels))
  storeContainer lease.id containerID
  wrap "start the lease container" (docker (.startContainer containerID))
  let ip ← wrap "find the lease container's address"
    (containerIP containerID (leaseName lease.id))
  awaitJupyter s!"{ip}:{jupyterPort}"

/-- The reverse: containers first, for they hold on to the volume and the network. -/
def reapLeaseResources (id : String) : Prog Unit := do
  let (containerID, proxyID) ← readIDs id
  Routine.forEach (fun container : Option ℕ => match container with
    | none => .pure ()
    | some container => do
      ignore (.unpauseContainer container)
      ignore (.removeContainer container)) [containerID, proxyID]
  ignore (.removeVolume (workspaceName id))
  ignore (.removeNetwork (leaseName id))

/-- What `StartLease` does of Docker: what has been provisioned is reaped if the rest fails. -/
def startLease (cfg : Config.Leases) (gpu : Bool) (lease : Lease) (caPublicKey : String) :
    Prog Unit := do
  match ← (provisionLease cfg gpu lease caPublicKey).run with
  | .ok _ => pure ()
  | .error _ => reapLeaseResources lease.id

/-- What `PauseLease` does of Docker. -/
def pauseLease (id : String) : Prog Unit := do
  match ← readIDs id with
  | (none, _) => pure ()
  | (some container, _) => ignore (.pauseContainer container)

/-- What `ResumeLease` does of Docker. -/
def resumeLease (id : String) : Prog Unit := do
  match ← readIDs id with
  | (none, _) => pure ()
  | (some container, _) => ignore (.unpauseContainer container)

/-- What is listed, or nothing if the call fails. -/
def listed {α : Type} (p : ProgE (List α)) : Prog (List α) :=
  p.run.bind fun r => .pure (r.toOption.getD [])

/-- `ListContainersByLabel`. -/
def listContainersByLabel (label : String) : ProgE (List ℕ) :=
  docker (.listContainersByLabel label)

/-- `ListVolumesByLabel`. -/
def listVolumesByLabel (label : String) : ProgE (List String) := docker (.listVolumesByLabel label)

/-- `ListNetworksByLabel`. -/
def listNetworksByLabel (label : String) : ProgE (List String) :=
  docker (.listNetworksByLabel label)

/-- What older builds have left is removed. -/
def sweepOrphans : Prog Unit := do
  let containers ← listed (listContainersByLabel legacyJobLabel)
  Routine.forEach (fun id => ignore (.removeContainer id)) containers
  let volumes ← listed (listVolumesByLabel legacyJobLabel)
  Routine.forEach (fun name => ignore (.removeVolume name)) volumes

/-- What a crash has left of leases is removed. -/
def sweepLeaseOrphans : Prog Unit := do
  let containers ← listed (listContainersByLabel leaseLabel)
  Routine.forEach (fun id => do
    ignore (.unpauseContainer id)
    ignore (.removeContainer id)) containers
  let volumes ← listed (listVolumesByLabel leaseLabel)
  Routine.forEach (fun name => ignore (.removeVolume name)) volumes
  let networks ← listed (listNetworksByLabel leaseLabel)
  Routine.forEach (fun name => ignore (.removeNetwork name)) networks

/-- What `New` does of Docker. -/
def boot (cfg : Config.Leases) : Prog Unit := do
  sweepOrphans
  if cfg.enabled then sweepLeaseOrphans

/-! ### Names -/

/-- The prefixes of the names that leases give. -/
def prefixes : List String := ["cleargate-lease-", "cleargate-egress-", "cleargate-workspace-"]

/-- A name as leases give. -/
def isOurs (name : String) : Bool := prefixes.any fun p => p.toList.isPrefixOf name.toList

section Names

variable {i j : String}

theorem isOurs_append {p : String} (hp : p ∈ prefixes) (i : String) : isOurs (p ++ i) = true := by
  refine List.any_eq_true.2 ⟨p, hp, ?_⟩
  rw [String.toList_append, List.isPrefixOf_iff_prefix]
  exact List.prefix_append _ _

@[simp] theorem isOurs_leaseName (i : String) : isOurs (leaseName i) = true :=
  isOurs_append (.head _) i

@[simp] theorem isOurs_egressName (i : String) : isOurs (egressName i) = true :=
  isOurs_append (.tail _ (.head _)) i

@[simp] theorem isOurs_workspaceName (i : String) : isOurs (workspaceName i) = true :=
  isOurs_append (.tail _ (.tail _ (.head _))) i

theorem ne_of_isOurs {name ours : String} (h : isOurs name = false) (ho : isOurs ours = true) :
    name ≠ ours := by
  rintro rfl
  rw [h] at ho
  cases ho

theorem isOurs_bridge : isOurs "bridge" = false := by decide +kernel

theorem leaseName_inj : leaseName i = leaseName j ↔ i = j := String.append_right_inj _

theorem egressName_inj : egressName i = egressName j ↔ i = j := String.append_right_inj _

theorem workspaceName_inj : workspaceName i = workspaceName j ↔ i = j := String.append_right_inj _

theorem leaseName_ne_egressName : leaseName i ≠ egressName j := by
  intro h
  have hlease : (leaseName i).toList = "cleargate-lease-".toList ++ i.toList :=
    String.toList_append
  have hegress : (egressName j).toList = "cleargate-egress-".toList ++ j.toList :=
    String.toList_append
  have hlist : (leaseName i).toList.take 11 = (egressName j).toList.take 11 := by rw [h]
  rw [hlease, hegress, List.take_append_of_le_length (by decide +kernel),
    List.take_append_of_le_length (by decide +kernel)] at hlist
  revert hlist
  decide +kernel

theorem leaseName_ne_empty : leaseName i ≠ "" := by
  intro h
  have hours := isOurs_leaseName i
  rw [h] at hours
  revert hours
  decide +kernel

/-- A name that a daemon gives is none. -/
theorem isOurs_of_given {name : String} (h : Docker.isGiven name = true) : isOurs name = false := by
  -- the second letter of each prefix is no hexadecimal digit
  have hnot : ∀ p ∈ prefixes, 'l' ∈ p.toList := by decide +kernel
  rw [Docker.isGiven, List.all_eq_true] at h
  by_contra hours
  obtain ⟨p, hp, hprefix⟩ := List.any_eq_true.1 (Bool.eq_true_of_not_eq_false hours)
  have hl := h 'l' ((List.isPrefixOf_iff_prefix.1 hprefix).subset (hnot p hp))
  revert hl
  decide +kernel

end Names

/-! ### Runs -/

variable {E : Engine}

/-- What the programs share. -/
structure World (E : Engine) where
  docker : E.State
  /-- The ids that a lease has, of its container and of its proxy. -/
  ids : String → Option ℕ × Option ℕ

/-- How a call ends: as the daemon has it, or with the error of the lease's own server, if any. -/
inductive Outcome (E : Engine)
  | docker (o : E.Choice)
  | jupyter (err : Option String)

/-- What a call does. -/
def World.serve (w : World E) : (c : Call) → Outcome E → Option (World E × c.Result)
  | .docker c, .docker o => (E.serve w.docker c o).map fun a => ({ w with docker := a.1 }, a.2)
  | .storeContainer lease id, _ =>
    some ({ w with ids := Function.update w.ids lease (some id, (w.ids lease).2) }, ())
  | .storeProxy lease id, _ =>
    some ({ w with ids := Function.update w.ids lease ((w.ids lease).1, some id) }, ())
  | .readIDs lease, _ => some (w, w.ids lease)
  | .awaitJupyter _, .jupyter none => some (w, .ok ())
  | .awaitJupyter _, .jupyter (some text) => some (w, .error text)
  | .docker _, .jupyter _ | .awaitJupyter _, .docker _ => none

/-- What starts a program. -/
inductive Job
  | boot
  | startLease (gpu : Bool) (lease : Lease) (caPublicKey : String)
  | stopLease (id : String)
  | pauseLease (id : String)
  | resumeLease (id : String)

/-- The program that it starts. -/
def Job.program (node : Settings) : Job → Prog Unit
  | .boot => Sandbox.boot node.leases
  | .startLease gpu lease caPublicKey => Sandbox.startLease node.leases gpu lease caPublicKey
  | .stopLease id => reapLeaseResources id
  | .pauseLease id => Sandbox.pauseLease id
  | .resumeLease id => Sandbox.resumeLease id

/-- It has a label that a sweep looks for. -/
def isMarked (labels : Labels) : Bool :=
  Docker.hasLabel labels leaseLabel || Docker.hasLabel labels legacyJobLabel

/-- **What others may do**, at any time, and what happens by itself.  They may stop and remove
anything.  They give nothing of theirs a name or a label that leases have, they connect nothing to a
lease's network and a lease's container to nothing else, and they do not mount its volume. -/
structure Allowed (E : Engine) (d d' : E.State) : Prop where
  issued : ∀ id, E.Issued d id → E.Issued d' id
  containers : ∀ x ∈ E.containers d',
    (∃ y ∈ E.containers d, x.Like y ∧
      (x.name = y.name ∨ isOurs y.name = false ∧ isOurs x.name = false) ∧
      ∀ n ∈ x.networks, n ∈ y.networks ∨ isOurs n = false ∧ ∀ i, y.name ≠ leaseName i) ∨
    (¬ E.Issued d x.id ∧ isOurs x.name = false ∧ isMarked x.labels = false ∧
      (∀ n ∈ x.networks, isOurs n = false) ∧ ∀ n ∈ x.volumes, isOurs n = false)
  networks : ∀ n ∈ E.networks d', n ∈ E.networks d ∨
    isOurs n.name = false ∧ isMarked n.labels = false
  volumes : ∀ v ∈ E.volumes d', v ∈ E.volumes d ∨ isMarked v.labels = false

/-- A change of the daemon that is allowed wherever it happens. -/
structure Others (E : Engine) where
  act : E.State → E.State
  allowed : ∀ d, Allowed E d (act d)

/-- **The leases of a node** and the daemon they share with others. -/
def sandbox (E : Engine) (node : Settings) :
    Service (World E) Call Call.Result (Outcome E) Job (Others E) where
  serve := World.serve
  start w j := some (w, j.program node)
  env w e := some { w with docker := e.act w.docker }
  crash w := { w with ids := fun _ => (none, none) }

/-- The node before its first start. -/
def World.initial (d : E.State) : World E where
  docker := d
  ids := fun _ => (none, none)

/-- The runs of a node, from a state of its daemon. -/
abbrev sandboxSystem (E : Engine) (node : Settings) (d : E.State) :=
  (sandbox E node).system (World.initial d)

/-- A state of its run. -/
abbrev State (E : Engine) := Service.Config (World E) Call Call.Result

end Sandbox
end Mach402
