import Mach402.Agent.Dockerd
import Mach402.Agent.Programs
import Mach402.Library.Routes

/-!
# Leases are isolated, and nobody else is touched

What holds of the daemon in every run of the programs of a node, whatever fails, whenever the node
crashes, and whatever others do on the same daemon.

* `Untouched`: the daemon before the first lease;
* `lease_confined`: nothing leaves a lease's container but through the lease's own proxy;
* `others_untouched`: what is not a lease's stays as it is.
-/

namespace Mach402
namespace Sandbox

open Docker (CreateContainerRequest Documented Engine HostConfig dockerd hasLabel)

variable {E : Engine} {node : Settings} {d : E.State} {c c' : State E}

/-! ### Before the first lease -/

/-- The daemon before the first lease: nothing on it looks like a lease's. -/
structure Untouched (E : Engine) (d : E.State) : Prop where
  containers : ∀ x ∈ E.containers d, isOurs x.name = false ∧ hasLabel x.labels leaseLabel = false ∧
    (∀ n ∈ x.networks, isOurs n = false) ∧ ∀ n ∈ x.volumes, isOurs n = false
  networks : ∀ n ∈ E.networks d, isOurs n.name = false ∧ hasLabel n.labels leaseLabel = false
  volumes : ∀ v ∈ E.volumes d, hasLabel v.labels leaseLabel = false

/-- The volumes that older builds have left. -/
def legacyVolumes (E : Engine) (d : E.State) : List String :=
  ((E.volumes d).filter fun v => hasLabel v.labels legacyJobLabel).map Docker.Volume.name

theorem Untouched.confined (hd : Untouched E d) : Confined E node d where
  internal n hn i hname := absurd hname (ne_of_isOurs (hd.networks n hn).1 (isOurs_leaseName i))
  members x hx i hi :=
    absurd rfl (ne_of_isOurs ((hd.containers x hx).2.2.1 _ hi) (isOurs_leaseName i))
  lease x hx i hi := absurd hi (ne_of_isOurs (hd.containers x hx).1 (isOurs_leaseName i))
  proxy x hx i hi := absurd hi (ne_of_isOurs (hd.containers x hx).1 (isOurs_egressName i))
  workspace x hx i hi :=
    absurd rfl (ne_of_isOurs ((hd.containers x hx).2.2.2 _ hi) (isOurs_workspaceName i))
  labelled x hx i hi := by
    rcases hi with hi | hi
    · exact absurd hi (ne_of_isOurs (hd.containers x hx).1 (isOurs_leaseName i))
    · exact absurd hi (ne_of_isOurs (hd.containers x hx).1 (isOurs_egressName i))

theorem Untouched.marked (hd : Untouched E d) :
    Marked (legacyVolumes E d) (World.initial d) where
  containers x hx hlabel := by
    rw [(hd.containers x hx).2.1] at hlabel
    cases hlabel
  networks n hn := by
    obtain ⟨hname, hlabel⟩ := hd.networks n hn
    rw [hlabel]
    refine ⟨fun h => (nomatch h), fun ⟨i, hi⟩ => ?_⟩
    exact absurd hi (ne_of_isOurs hname (isOurs_leaseName i))
  volumes v hv hlabel := by
    rw [hd.volumes v hv] at hlabel
    cases hlabel
  legacyVolumes v hv hlabel :=
    List.mem_map_of_mem (List.mem_filter.2 ⟨hv, hlabel⟩)
  ids i id hid := by rcases hid with hid | hid <;> cases hid

/-- **In every state of a run** the invariant holds, and what is left of the programs is safe. -/
theorem allSafe_of_reach (hE : Documented E) (hd : Untouched E d)
    (h : (sandboxSystem E node d).Reachable c) :
    c.AllSafe (sandbox E node) (Kept node (legacyVolumes E d)) Changes
      (Spares (legacyVolumes E d)) :=
  (sandbox_keeps hE node _).reach (s := World.initial d) ⟨hd.confined, hd.marked⟩ h

/-! ### Nothing leaves but through the proxy -/

/-- Which containers are on which networks, and which networks lead off the machine. -/
def topology (E : Engine) (d : E.State) : Topology Docker.Container String where
  attached x n := x ∈ E.containers d ∧ n ∈ x.networks
  isOpen n := ∃ network ∈ E.networks d, network.name = n ∧ network.internal = false

/-- A lease's container and its proxy are by themselves. -/
theorem Confined.isSealed (hd : Confined E node d) (i : String) :
    (topology E d).Sealed (fun x => x.name = leaseName i)
      fun x => x.name = egressName i ∧ IsProxyRequest node i x.request := by
  rintro x hx n ⟨hmem, hn⟩
  obtain rfl := (hd.lease x hmem i hx).2 n hn
  refine ⟨?_, ?_⟩
  · rintro ⟨network, hnetwork, hname, hopen⟩
    rw [hd.internal network hnetwork i hname] at hopen
    cases hopen
  · rintro y ⟨hy, hyn⟩
    rcases hd.members y hy i hyn with hname | hname
    · exact Or.inl hname
    · exact Or.inr ⟨hname, hd.proxy y hy i hname⟩

/-- What a lease's container is created with.  A limit above what an `int64` holds is not one. -/
structure Capped (cfg : Config.Leases) (i : String) (host : HostConfig) : Prop where
  memory : cfg.limits.memoryMb < 2 ^ 43 →
    host.memory = cfg.limits.memoryMb * 1024 * 1024 ∧ 0 < host.memory
  cpus : cfg.limits.cpuCores * 1000000000 < 2 ^ 63 →
    host.nanoCpus = cfg.limits.cpuCores * 1000000000 ∧ 0 < host.nanoCpus
  pids : host.pidsLimit = cfg.limits.pidsLimit ∧ 0 < host.pidsLimit
  drop : host.capDrop = ["ALL"]
  add : ∀ capability ∈ host.capAdd, capability ∈ ["CHOWN", "DAC_OVERRIDE", "FOWNER", "FSETID",
    "SETGID", "SETUID", "SYS_CHROOT", "KILL", "NET_BIND_SERVICE"]
  privileges : "no-new-privileges" ∈ host.securityOpt
  mounts : ∀ m ∈ host.mounts, m = ⟨"volume", workspaceName i, workspaceDir⟩

theorem int64_of_lt {n : ℤ} (h0 : 0 < n) (h : n < 2 ^ 63) : int64 n = n := by
  unfold int64
  rw [Int.bmod_eq_of_le_mul_two (by omega) (by omega)]

theorem IsLeaseRequest.capped {i : String} {req : CreateContainerRequest}
    (h : IsLeaseRequest node i req) : Capped node.leases i req.hostConfig := by
  obtain ⟨gpu, lease, caPublicKey, rfl, rfl⟩ := h
  have hdefaulted := Config.defaulted node.dir node.raw
  refine ⟨fun hmemory => ?_, fun hcores => ?_, ⟨rfl, ?_⟩, rfl, fun _ h => h,
    List.mem_singleton_self _, fun m hm => List.mem_singleton.1 hm⟩
  · have hpos : 0 < node.leases.limits.memoryMb := hdefaulted.memory
    have hint : int64 (node.leases.limits.memoryMb * 1024 * 1024) =
        node.leases.limits.memoryMb * 1024 * 1024 := int64_of_lt (by omega) (by omega)
    refine ⟨hint, ?_⟩
    show 0 < int64 (node.leases.limits.memoryMb * 1024 * 1024)
    rw [hint]
    omega
  · have hpos : 0 < node.leases.limits.cpuCores := hdefaulted.cores
    have hint : int64 (node.leases.limits.cpuCores * 1000000000) =
        node.leases.limits.cpuCores * 1000000000 := int64_of_lt (by omega) hcores
    refine ⟨hint, ?_⟩
    show 0 < int64 (node.leases.limits.cpuCores * 1000000000)
    rw [hint]
    omega
  · show 0 < Config.orInt node.raw.limits.pidsLimit Config.defaultLeases.limits.pidsLimit
    exact Config.orInt_pos (by decide)

/-- **A lease is confined.**  In every run, whatever fails or crashes, every way off the machine
from a lease's container passes the lease's own egress proxy before any other container but the
lease's; the container was created with the limits of the configuration; and nobody else has its
workspace. -/
theorem lease_confined (hE : Documented E) (hd : Untouched E d)
    (h : (sandboxSystem E node d).Reachable c) {x : Docker.Container}
    (hx : x ∈ E.containers c.shared.docker) {i : String} (hname : x.name = leaseName i) :
    (∀ l, (topology E c.shared.docker).Route x l → ∃ l₁ g l₂, l = l₁ ++ g :: l₂ ∧
      (∀ k ∈ l₁, k.name = leaseName i) ∧ g.name = egressName i ∧
      IsProxyRequest node i g.request) ∧
    Capped node.leases i x.request.hostConfig ∧
    ∀ y ∈ E.containers c.shared.docker, workspaceName i ∈ y.volumes → y.name = leaseName i := by
  have hconfined := (allSafe_of_reach hE hd h).1.confined
  obtain ⟨hrequest, -⟩ := hconfined.lease x hx i hname
  exact ⟨fun l hl => hl.guarded (hconfined.isSealed i) hname, hrequest.capped,
    fun y hy hyv => hconfined.workspace y hy i hyv⟩

/-- A daemon with nothing but the network it comes with. -/
def emptyDaemon : dockerd.State where
  val := { containers := [], networks := [⟨"bridge", false, []⟩], volumes := [], nextID := 0 }
  property := ⟨by simp, by simp, by simp, by simp⟩

theorem emptyDaemon_untouched : Untouched dockerd emptyDaemon where
  containers x hx := by cases hx
  networks n hn := by
    cases List.mem_singleton.1 hn
    exact ⟨isOurs_bridge, rfl⟩
  volumes v hv := by cases hv

/-- The lease of the examples. -/
def sampleLease : Lease := ⟨"a", "token", "2026-01-01T00:00:00Z"⟩

/-- A node with the default configuration, and leases enabled. -/
def sampleNode : Settings := ⟨"", { Config.defaultLeases with enabled := true }⟩

/-- The calls of a program, all of which succeed. -/
def succeeding (n : ℕ) : List (Service.Label (Outcome dockerd) Job (Others dockerd)) :=
  List.replicate n (.run 0 (.docker (.ok "")))

/-- A lease is provisioned up to the start of its container, and the node crashes. -/
def crashed : List (Service.Label (Outcome dockerd) Job (Others dockerd)) :=
  .start (.startLease true sampleLease "ca") :: succeeding 9 ++ [.crash]

/-- A lease's container with a way out. -/
theorem exists_route :
    ∃ c x g, (sandboxSystem dockerd sampleNode emptyDaemon).Reachable c ∧
      x ∈ dockerd.containers c.shared.docker ∧ x.state = .running ∧ x.name = leaseName "a" ∧
      g.name ≠ leaseName "a" ∧ (topology dockerd c.shared.docker).Route x [g] := by
  obtain ⟨c, hc, hp⟩ := System.exists_reach (S := sandboxSystem dockerd sampleNode emptyDaemon)
    (C := System.Any) (p := fun c => c.shared.docker.1.containers.any fun x =>
      c.shared.docker.1.containers.any fun g =>
        decide (x.state = .running ∧ x.name = leaseName "a" ∧ leaseName "a" ∈ x.networks ∧
          leaseName "a" ∈ g.networks ∧ g.name ≠ leaseName "a" ∧ "bridge" ∈ g.networks ∧
          ⟨"bridge", false, []⟩ ∈ c.shared.docker.1.networks)) crashed (by decide +kernel)
  obtain ⟨x, hx, hp⟩ := List.any_eq_true.1 hp
  obtain ⟨g, hg, hp⟩ := List.any_eq_true.1 hp
  obtain ⟨hstate, hname, hxn, hgn, hother, hgb, hbridge⟩ := of_decide_eq_true hp
  exact ⟨c, x, g, hc, hx, hstate, hname, hother,
    .hop ⟨hx, hxn⟩ ⟨hg, hgn⟩ (.out ⟨hg, hgb⟩ ⟨_, hbridge, rfl, rfl⟩)⟩

/-- What is left of a crash is confined: its way out is the proxy. -/
theorem lease_confined_crashed :
    ∃ c x g, (sandboxSystem dockerd sampleNode emptyDaemon).Reachable c ∧
      x ∈ dockerd.containers c.shared.docker ∧ x.state = .running ∧
      (topology dockerd c.shared.docker).Route x [g] ∧ g.name = egressName "a" ∧
      x.request.hostConfig.memory = 16 * 1024 * 1024 * 1024 := by
  obtain ⟨c, x, g, hc, hx, hstate, hname, hother, hroute⟩ := exists_route
  obtain ⟨hways, hcapped, -⟩ :=
    lease_confined Docker.dockerd_documented emptyDaemon_untouched hc hx hname
  obtain ⟨l₁, g', l₂, hl, hl₁, hg', -⟩ := hways [g] hroute
  refine ⟨c, x, g, hc, hx, hstate, hroute, ?_, (hcapped.memory (by decide)).1.trans (by decide)⟩
  cases l₁ with
  | nil =>
    cases hl
    exact hg'
  | cons k l₁ =>
    obtain ⟨rfl, -⟩ := List.cons.inj hl
    exact absurd (hl₁ g List.mem_cons_self) hother

/-! ### Others -/

/-- **What is others' is left alone.**  Whatever the node does, whatever of it fails, and whenever
it crashes, a container, a network or a volume that is neither a lease's nor left by an older build
is not removed, stopped, frozen or connected. -/
theorem others_untouched (hE : Documented E) (hd : Untouched E d)
    (h : (sandboxSystem E node d).Reachable c)
    (hrun : (sandboxSystem E node d).Run (fun _ l => l.IsOwn) c c') :
    (∀ x ∈ E.containers c.shared.docker, IsOthers x → x ∈ E.containers c'.shared.docker) ∧
    (∀ n ∈ E.networks c.shared.docker, isOurs n.name = false →
      n ∈ E.networks c'.shared.docker) ∧
    ∀ v ∈ E.volumes c.shared.docker, isOurs v.name = false → v.name ∉ legacyVolumes E d →
      IsFree c.shared.docker v.name → v ∈ E.volumes c'.shared.docker := by
  have hsafe := allSafe_of_reach hE hd h
  have hkeeps := sandbox_keeps hE node (legacyVolumes E d)
  refine ⟨fun x hx hothers => ?_, fun n hn hname => ?_, fun v hv hname hlegacy hfree => ?_⟩
  · exact hkeeps.spares (P := fun w => x ∈ E.containers w.docker)
      (fun s t hst hs => hst.containers x hs hothers) hsafe hrun hx
  · exact hkeeps.spares (P := fun w => n ∈ E.networks w.docker)
      (fun s t hst hs => hst.networks n hs hname) hsafe hrun hn
  · -- nothing of the node's comes to hold the volume
    have hboth := hkeeps.spares
      (P := fun w => v ∈ E.volumes w.docker ∧ IsFree (E := E) w.docker v.name)
      (fun s t hst hs => hst.volumes v hs.1 hname hlegacy hs.2) hsafe hrun ⟨hv, hfree⟩
    exact hboth.1

/-- A container of somebody else. -/
def database : Docker.Container where
  id := 0
  name := "database"
  request :=
    { image := "postgres"
      env := []
      workingDir := ""
      labels := []
      hostConfig :=
        { networkMode := ""
          memory := 0
          nanoCpus := 0
          pidsLimit := 0
          readonlyRootfs := false
          mounts := [⟨"volume", "data", "/data"⟩]
          deviceRequests := []
          autoRemove := false
          capDrop := []
          capAdd := []
          securityOpt := [] }
      endpointsConfig := [] }
  labels := []
  networks := ["bridge"]
  volumes := ["data"]
  anonymous := []
  state := .running

/-- A daemon that it is on. -/
def sharedDaemon : dockerd.State where
  val :=
    { containers := [database]
      networks := [⟨"bridge", false, []⟩]
      volumes := [⟨"data", []⟩]
      nextID := 1 }
  property := ⟨by simp [database], by simp, by simp, by simp [database]⟩

theorem sharedDaemon_untouched : Untouched dockerd sharedDaemon where
  containers x hx := by
    cases List.mem_singleton.1 hx
    decide +kernel
  networks n hn := by
    cases List.mem_singleton.1 hn
    exact ⟨isOurs_bridge, rfl⟩
  volumes v hv := by
    cases List.mem_singleton.1 hv
    rfl

instance : (l : Service.Label (Outcome E) Job (Others E)) → Decidable l.IsOwn
  | .env _ => inferInstanceAs (Decidable False)
  | .start _ | .run _ _ | .crash => inferInstanceAs (Decidable True)

/-- A crash, and the sweep at the next start: nothing has to be thawed. -/
def restarted : List (Service.Label (Outcome dockerd) Job (Others dockerd)) :=
  crashed ++ .start .boot :: succeeding 3 ++
    [.run 0 (.docker (.fails "")), .run 0 (.docker (.ok "")), .run 0 (.docker (.fails ""))] ++
    succeeding 5

/-- The database is there before a lease, and after the lease has been swept. -/
theorem others_untouched_database :
    ∃ c, (sandboxSystem dockerd sampleNode sharedDaemon).Run (fun _ l => l.IsOwn)
        (sandboxSystem dockerd sampleNode sharedDaemon).init c ∧
      database ∈ dockerd.containers c.shared.docker ∧
      ⟨"data", []⟩ ∈ dockerd.volumes c.shared.docker ∧
      c.shared.docker.1.containers.length = 1 := by
  have hrun : ((sandboxSystem dockerd sampleNode sharedDaemon).exec (fun _ l => l.IsOwn)
      (sandboxSystem dockerd sampleNode sharedDaemon).init restarted).any
        (fun c => decide (c.shared.docker.1.containers.length = 1)) = true := by decide +kernel
  obtain ⟨c, hc, hp⟩ := (Option.any_eq_true _ _).1 hrun
  have hown := System.run_of_exec hc
  obtain ⟨hcontainers, -, hvolumes⟩ :=
    others_untouched Docker.dockerd_documented sharedDaemon_untouched .init hown
  have hdatabase : database ∈ dockerd.containers sharedDaemon := List.mem_singleton_self _
  have hothers : IsOthers database := ⟨by decide +kernel, rfl⟩
  refine ⟨c, hown, hcontainers database hdatabase hothers,
    hvolumes _ (List.mem_singleton_self _) (by decide +kernel) (by decide +kernel) ?_,
    of_decide_eq_true hp⟩
  intro x hx _
  cases List.mem_singleton.1 hx
  exact hothers

end Sandbox
end Mach402
