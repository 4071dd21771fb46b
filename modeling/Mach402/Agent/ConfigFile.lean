import Mach402.Agent.Config
import Mach402.Library.Paths

/-!
# The configuration file

`config.Config` with its defaults and what `Validate` refuses, and the commands that load and save
it: `setup` writes it, `register` loads it and writes it back, `serve` loads it.

* `Config.applyDefaults`, `Config.validate`, `load`, `setup`, `register`;
* `clean_relative`: `filepath.Clean` of a relative path is the shortest text of it;
* `resolve_iff`, `idempotent_iff`: when a path, and a configuration, can be resolved twice;
* `stable_iff`: when the files that `setup` has created are those that `serve` looks for.

A file is the configuration that decoding it over the defaults gives, and a configuration that is
saved decodes to itself.
-/

set_option linter.dupNamespace false

namespace Mach402
namespace Config

/-- `CORS`: which sites may call the node. -/
structure Cors where
  allowedOrigins : List String
  deriving DecidableEq

/-- `Hedera`: the sidecar that signs for the node. -/
structure Hedera where
  enabled : Bool
  sidecar : String
  operatorKeyPath : String
  operatorAccountId : String
  mirrorUrl : String
  deriving DecidableEq

/-- `HCS`: the topic that the node publishes to. -/
structure Hcs where
  enabled : Bool
  topicId : String
  deriving DecidableEq

/-- `Identity`: the agent that the node is registered as. -/
structure Identity where
  agentId : ℕ
  agentAddress : String
  registryContractId : String
  deriving DecidableEq

/-- `Config`, as the file has it. -/
structure Config where
  nodeId : String
  payTo : String
  asset : String
  network : String
  facilitatorUrl : String
  maxTimeoutSeconds : ℤ
  listenAddr : String
  publicUrl : String
  registryUrl : String
  registryToken : String
  gpuEnabled : Bool
  leases : Leases
  hedera : Hedera
  hcs : Hcs
  identity : Identity
  receiptsPath : String
  dockerHost : String
  cors : Cors
  deriving DecidableEq

/-! ### Defaults -/

/-- Every site may call. -/
def defaultCors : Cors where
  allowedOrigins := ["*"]

/-- The mirror node of the test network. -/
def defaultMirrorUrl : String := "https://testnet.mirrornode.hedera.com"

/-- `DefaultHedera`. -/
def defaultHedera : Hedera where
  enabled := false
  sidecar := "cleargate-hedera"
  operatorKeyPath := "hedera-operator"
  operatorAccountId := ""
  mirrorUrl := defaultMirrorUrl

/-- `Default`: what a file is read over. -/
def defaultConfig : Config where
  nodeId := ""
  payTo := ""
  asset := "0.0.0"
  network := "hedera:testnet"
  facilitatorUrl := "https://api.testnet.blocky402.com"
  maxTimeoutSeconds := 300
  listenAddr := "0.0.0.0:8402"
  publicUrl := ""
  registryUrl := ""
  registryToken := ""
  gpuEnabled := false
  leases := defaultLeases
  hedera := defaultHedera
  hcs := { enabled := false, topicId := "" }
  identity := { agentId := 0, agentAddress := "", registryContractId := "" }
  receiptsPath := "receipts.jsonl"
  dockerHost := "unix:///var/run/docker.sock"
  cors := defaultCors

/-- An empty list is every site. -/
def Cors.applyDefaults (c : Cors) : Cors :=
  if c.allowedOrigins = [] then { allowedOrigins := defaultCors.allowedOrigins } else c

/-- What is not set is set, and the key is looked for beside the file. -/
def Hedera.applyDefaults (configDir : String) (h : Hedera) : Hedera where
  enabled := h.enabled
  sidecar := orString h.sidecar defaultHedera.sidecar
  operatorKeyPath := resolveAgainst (orString configDir ".")
    (orString h.operatorKeyPath defaultHedera.operatorKeyPath)
  operatorAccountId := h.operatorAccountId
  mirrorUrl := orString h.mirrorUrl defaultHedera.mirrorUrl

/-- The defaults of all parts. -/
def Config.applyDefaults (configDir : String) (c : Config) : Config :=
  { c with
    leases := c.leases.applyDefaults configDir
    hedera := c.hedera.applyDefaults configDir
    cors := c.cors.applyDefaults }

/-! ### Validation -/

/-- A shard, a realm and a number. -/
def isHederaAccountId (s : String) : Bool :=
  let parts := (s.toList.splitOn '.').map String.ofList
  parts.length = 3 ∧ ∀ part ∈ parts, (parseUint part).isSome = true

/-- The checks of an enabled sidecar. -/
def Hedera.validate (h : Hedera) : Option Errorf :=
  if !h.enabled then none
  else
    (require (h.sidecar ≠ "") "hedera.sidecar must name the cleargate-hedera command").or <|
    (require (h.operatorKeyPath ≠ "")
      ("hedera.operator_key_path must be set — it is where this node's operator key " ++
        "lives")).or <|
    (require (h.mirrorUrl ≠ "")
      "hedera.mirror_url must be set — the node reads it to verify deposits").or <|
    if h.operatorAccountId ≠ "" ∧ isHederaAccountId h.operatorAccountId = false then
      some ⟨"hedera.operator_account_id %q is not a Hedera account id like 0.0.1234",
        [.quoted h.operatorAccountId]⟩
    else none

/-- An agent's id means nothing without its registry. -/
def Identity.validate (i : Identity) : Option Errorf :=
  require (i.agentId ≠ 0 → i.registryContractId ≠ "")
    ("identity.agent_id is set but identity.registry_contract_id is not; an agent id is " ++
      "meaningless without the registry that issued it")

/-- A listing names where the node is. -/
def Config.validateListing (c : Config) : Option Errorf :=
  if c.registryUrl = "" then none
  else
    (require (c.publicUrl ≠ "")
      ("public_url must be set when registry_url is — the registry has to tell renters where to " ++
        "reach this node")).or <|
    require (c.registryToken ≠ "")
      ("registry_token must be set when registry_url is — re-run \x60cleargate-node setup\x60 " ++
        "to generate one")

/-- The checks that `Validate` and `ValidateForSetup` share. -/
def Config.validateBase (c : Config) : Option Errorf :=
  (if isHederaAccountId c.payTo then none
    else some ⟨"pay_to %q is not a Hedera account id like 0.0.1234", [.quoted c.payTo]⟩).or <|
  (require (c.asset ≠ "") "asset must be \"0.0.0\" for HBAR or an HTS token id").or <|
  (if "hedera:".toList.isPrefixOf c.network.toList then none
    else some ⟨"network %q must be a Hedera CAIP-2 id such as hedera:testnet",
      [.quoted c.network]⟩).or <|
  (require (c.facilitatorUrl ≠ "") "facilitator_url must be set").or <|
  (require (0 < c.maxTimeoutSeconds) "max_timeout_seconds must be positive").or <|
  c.validateListing.or <|
  c.leases.validate.or <|
  c.hedera.validate.or <|
  c.identity.validate.or <|
  require (c.leases.enabled = true → c.hedera.enabled = true ∧ c.hcs.enabled = true)
    ("leases.enabled needs hedera.enabled and hcs.enabled, so the node can publish its " ++
      "refund-owed trail and pay refunds — re-run \x60cleargate-node setup --enable-leases\x60")

/-- A topic may still be missing: setup creates it. -/
def Config.validateForSetup (c : Config) : Option Errorf :=
  c.validateBase.or <|
  require (c.hcs.enabled = true → c.hedera.enabled = true)
    "hcs.enabled needs hedera.enabled — publishing to a topic requires the signing sidecar"

/-- The checks of a configuration that is served. -/
def Config.validate (c : Config) : Option Errorf :=
  c.validateForSetup.or <|
  require (c.hcs.enabled = true → c.hcs.topicId ≠ "")
    ("hcs.enabled is set but hcs.topic_id is empty — re-run \x60cleargate-node setup " ++
      "--enable-hcs\x60 to create one")

/-! ### Loading and saving -/

/-- `filepath.Join` of a directory and a name. -/
def join (dir name : String) : String := clean (dir ++ "/" ++ name)

/-- `filepath.Dir`. -/
def dirOf (path : String) : String :=
  clean (String.ofList (path.toList.reverse.dropWhile (· ≠ '/')).reverse)

/-- `Load`, of a file that can be read. -/
def load (path : String) (file : Config) : Except Errorf Config :=
  let cfg := file.applyDefaults (dirOf path)
  match cfg.validate with
  | some e => .error e
  | none => .ok cfg

/-- What `setup` is told, trimmed. -/
structure SetupOptions where
  configPath : String
  payTo : String
  registryUrl : String
  publicUrl : String
  leasePrice : String
  identityContract : String
  hederaSidecar : String

/-- What `setup` makes up or finds out. -/
structure SetupFindings where
  nodeId : String
  registryToken : String
  operatorAccountId : String
  topicId : String

/-- The configuration before its defaults. -/
def SetupOptions.unresolved (opts : SetupOptions) (found : SetupFindings) : Config :=
  { defaultConfig with
    gpuEnabled := true
    leases := { defaultLeases with
      enabled := true
      priceTinybarsPerMinute := orString opts.leasePrice defaultLeases.priceTinybarsPerMinute
      caKeyPath := join (dirOf opts.configPath) "lease-ca" }
    hedera := { defaultHedera with
      enabled := true
      sidecar := orString opts.hederaSidecar defaultHedera.sidecar
      operatorKeyPath := join (dirOf opts.configPath) "hedera-operator" }
    hcs := { enabled := true, topicId := "" }
    identity := { defaultConfig.identity with registryContractId := opts.identityContract }
    payTo := opts.payTo
    nodeId := found.nodeId
    registryUrl := opts.registryUrl
    publicUrl := opts.publicUrl
    registryToken := if opts.registryUrl = "" then "" else found.registryToken }

/-- What the preflight adds. -/
def Config.funded (c : Config) (found : SetupFindings) : Config :=
  { c with
    hedera := { c.hedera with operatorAccountId := found.operatorAccountId }
    hcs := { c.hcs with topicId := found.topicId } }

/-- The key files of a node: of its certificate authority, and of its operator. -/
structure KeyFiles where
  ca : String
  operator : String
  deriving DecidableEq

/-- The files that a served configuration names. -/
def Config.keyFiles (c : Config) : KeyFiles := ⟨c.leases.caKeyPath, c.hedera.operatorKeyPath⟩

/-- A setup that gets through its preflight: the files that it creates, and what it saves. -/
def setup (opts : SetupOptions) (found : SetupFindings) : Except Errorf (KeyFiles × Config) :=
  if opts.leasePrice ≠ "" ∧ parseUint opts.leasePrice = none then
    .error ⟨"lease price must be a whole number of tinybars per minute: %w", []⟩
  else
    let cfg := (opts.unresolved found).applyDefaults (dirOf opts.configPath)
    match cfg.validateForSetup with
    | some e => .error e
    | none =>
      match (cfg.funded found).validate with
      | some e => .error e
      | none => .ok (cfg.keyFiles, cfg.funded found)

/-- Loaded and saved so many times. -/
def reload (path : String) : ℕ → Config → Except Errorf Config
  | 0, file => .ok file
  | n + 1, file => (load path file).bind (reload path n)

/-- What the sidecar answers. -/
structure Registration where
  agentId : ℕ
  agentAddress : String

/-- `register`, up to where it saves.  Any other failure on the way is `none`. -/
def register (path contract : String) (registration : Option Registration) (file : Config) :
    Option Config :=
  match load path file, registration with
  | .ok cfg, some r =>
    let contract := orString contract cfg.identity.registryContractId
    if cfg.hedera.enabled = false ∨ contract = "" then none
    else some { cfg with
      identity :=
        { agentId := r.agentId, agentAddress := r.agentAddress, registryContractId := contract } }
  | _, _ => none

/-- The file after some registrations. -/
def registered (path : String) (file : Config) (rs : List (String × Option Registration)) :
    Config :=
  rs.foldl (fun file r => (register path r.1 r.2 file).getD file) file

/-! ### Cleaning -/

/-- The path is relative, and goes up as many levels as it goes down. -/
def Balanced (dir : String) : Prop :=
  dir.startsWith "/" = false ∧ (Paths.of dir).ups = (Paths.of dir).names.length

instance (dir : String) : Decidable (Balanced dir) := inferInstanceAs (Decidable (_ ∧ _))

section Clean

variable {dir path : String}

theorem startsWith_iff : path.startsWith "/" = true ↔ path.toList.head? = some '/' := by
  have hslash : "/".toList = ['/'] := rfl
  rw [String.startsWith_string_iff, hslash]
  cases path.toList with
  | nil => simp
  | cons c cs => simp [List.cons_prefix_cons, eq_comm]

theorem not_startsWith (h : path.toList.head? ≠ some '/') : path.startsWith "/" = false := by
  rwa [Bool.eq_false_iff, ne_eq, startsWith_iff]

theorem clean_eq (path : String) (rooted : Bool) (h : path.startsWith "/" = rooted) :
    clean path =
      let body := "/".intercalate ((Paths.split path).foldl (Paths.push rooted) []).reverse
      if rooted then "/" ++ body else if body = "" then "." else body := by
  have hsplit : path.splitOn "/" = Paths.split path := Paths.splitOn_eq path '/'
  unfold clean
  rw [h, hsplit]
  rfl

/-- **A relative path is cleaned** to its shortest text. -/
theorem clean_relative (h : path.startsWith "/" = false) :
    clean path = Paths.text (Paths.of path) := by
  rw [clean_eq path false h, Paths.foldl_push_split, List.reverse_reverse, if_neg (by decide)]
  by_cases hone : Paths.of path = 1
  · rw [hone]
    rfl
  · have htext : Paths.text (Paths.of path) = "/".intercalate (Paths.parts (Paths.of path)) :=
      if_neg hone
    rw [← htext, if_neg (Paths.text_ne_empty _)]

theorem clean_rooted (h : path.startsWith "/" = true) : (clean path).startsWith "/" = true := by
  rw [clean_eq path true h, startsWith_iff]
  simp

theorem clean_not_rooted (h : path.startsWith "/" = false) :
    (clean path).startsWith "/" = false := by
  obtain ⟨c, cs, hcs, hc⟩ := Paths.exists_toList_text (Paths.of path)
  refine not_startsWith ?_
  rw [clean_relative h, hcs, List.head?_cons, ne_eq, Option.some.injEq]
  exact hc

theorem join_startsWith (hdir : dir ≠ "") (name : String) :
    (dir ++ "/" ++ name).startsWith "/" = dir.startsWith "/" := by
  obtain ⟨c, cs, hcs⟩ := List.exists_cons_of_ne_nil
    (fun hnil => hdir (String.toList_eq_nil_iff.1 hnil) : dir.toList ≠ [])
  rw [Bool.eq_iff_iff, startsWith_iff, startsWith_iff]
  simp [hcs]

theorem join_ne_empty (dir name : String) : join dir name ≠ "" := clean_ne_empty _

theorem join_relative (hdir : dir ≠ "") (hd : dir.startsWith "/" = false) (name : String) :
    join dir name = Paths.text (Paths.of dir * Paths.of name) := by
  rw [join, clean_relative ((join_startsWith hdir name).trans hd), Paths.of_join]

theorem resolveAgainst_relative (hpath : path ≠ "") (hp : path.startsWith "/" = false) :
    resolveAgainst dir path = join dir path := if_neg (by simp [hpath, hp])

theorem resolveAgainst_rooted (hp : path.startsWith "/" = true) :
    resolveAgainst dir path = path := if_pos (Or.inr hp)

/-- **When a path can be resolved twice.** -/
theorem resolve_iff (hdir : dir ≠ "") (hpath : path ≠ "") :
    resolveAgainst dir (resolveAgainst dir path) = resolveAgainst dir path ↔
      dir.startsWith "/" = true ∨ path.startsWith "/" = true ∨ Balanced dir := by
  cases hp : path.startsWith "/" with
  | true => simp [resolveAgainst_rooted hp]
  | false =>
    rw [resolveAgainst_relative hpath hp]
    cases hd : dir.startsWith "/" with
    | true =>
      have hr : (join dir path).startsWith "/" = true :=
        clean_rooted ((join_startsWith hdir path).trans hd)
      simp [resolveAgainst_rooted hr]
    | false =>
      have hr : (join dir path).startsWith "/" = false :=
        clean_not_rooted ((join_startsWith hdir path).trans hd)
      rw [resolveAgainst_relative (join_ne_empty dir path) hr,
        join_relative hdir hd (join dir path), join_relative hdir hd path, Paths.of_text,
        Paths.text_injective.eq_iff, Paths.Relative.mul_mul_eq_iff]
      simp [Balanced, hd]

end Clean

/-! ### Resolving twice -/

/-- **The paths stay where they are**: the directory is rooted or balanced, or both paths are
rooted. -/
def Settled (configDir : String) (c : Config) : Prop :=
  configDir.startsWith "/" = true ∨ Balanced configDir ∨
    c.leases.caKeyPath.startsWith "/" = true ∧ c.hedera.operatorKeyPath.startsWith "/" = true

section Resolve

variable {configDir : String} {c : Config}

theorem orString_of_ne {s fallback : String} (h : s ≠ "") : orString s fallback = s := if_neg h

theorem orString_orString {s fallback : String} (h : fallback ≠ "") :
    orString (orString s fallback) fallback = orString s fallback :=
  orString_of_ne (orString_ne_empty h)

theorem orInt_of_pos {n fallback : ℤ} (h : 0 < n) : orInt n fallback = n := if_neg (by omega)

theorem orInt_orInt {n fallback : ℤ} (h : 0 < fallback) :
    orInt (orInt n fallback) fallback = orInt n fallback :=
  orInt_of_pos (orInt_pos h)

/-- Everything but the path is at its default after the first time. -/
theorem Leases.applyDefaults_applyDefaults (configDir : String) (l : Leases) :
    (l.applyDefaults configDir).applyDefaults configDir =
      { l.applyDefaults configDir with
        caKeyPath := resolveAgainst (orString configDir ".")
          (l.applyDefaults configDir).caKeyPath } := by
  have hpath : (l.applyDefaults configDir).caKeyPath ≠ "" :=
    resolveAgainst_ne_empty (orString_ne_empty (by decide))
  have hmax : orInt (orInt l.maxMinutes defaultLeases.maxMinutes) defaultLeases.maxMinutes =
      orInt l.maxMinutes defaultLeases.maxMinutes := orInt_orInt (by decide)
  have hlimits : ((l.applyDefaults configDir).applyDefaults configDir).limits =
      (l.applyDefaults configDir).limits :=
    LeaseLimits.mk.injEq .. ▸ ⟨orInt_orInt (by decide), orInt_orInt (by decide),
      orInt_orInt (by decide), orInt_orInt (by decide)⟩
  have hegress : ((l.applyDefaults configDir).applyDefaults configDir).egress =
      (l.applyDefaults configDir).egress := by
    refine Egress.mk.injEq .. ▸ ⟨orString_orString (by decide), ?_⟩
    show (l.egress.allowlist.or _).or _ = l.egress.allowlist.or _
    cases l.egress.allowlist <;> rfl
  have htunnel : ((l.applyDefaults configDir).applyDefaults configDir).tunnel =
      (l.applyDefaults configDir).tunnel :=
    Tunnel.mk.injEq .. ▸ ⟨orString_orString (by decide), orString_orString (by decide)⟩
  have hmode : ((l.applyDefaults configDir).applyDefaults configDir).paymentMode =
      (l.applyDefaults configDir).paymentMode := by
    have hsession : ∀ m, m ≠ "" →
        (let mode := orString (if m = paymentEscrow then paymentSession else m)
            defaultLeases.paymentMode
          if mode = paymentEscrow then paymentSession else mode) =
          if m = paymentEscrow then paymentSession else m := by
      intro m hm
      by_cases he : m = paymentEscrow
      · rw [if_pos he]
        rfl
      · rw [if_neg he, orString_of_ne hm]
        exact if_neg he
    exact hsession _ (orString_ne_empty (by decide))
  exact Leases.mk.injEq .. ▸ ⟨rfl, orString_orString (by decide), orString_orString (by decide),
    orInt_orInt (by decide), hmax, orInt_orInt (by decide), orInt_orInt (by decide),
    congrArg _ (orString_of_ne hpath), hlimits, hegress, htunnel, hmode, rfl,
    orInt_of_pos (defaulted configDir l).chunk, orInt_orInt (by decide)⟩

theorem Hedera.applyDefaults_applyDefaults (configDir : String) (h : Hedera) :
    (h.applyDefaults configDir).applyDefaults configDir =
      { h.applyDefaults configDir with
        operatorKeyPath := resolveAgainst (orString configDir ".")
          (h.applyDefaults configDir).operatorKeyPath } := by
  have hpath : (h.applyDefaults configDir).operatorKeyPath ≠ "" :=
    resolveAgainst_ne_empty (orString_ne_empty (by decide))
  exact Hedera.mk.injEq .. ▸ ⟨rfl, orString_orString (by decide),
    congrArg _ (orString_of_ne hpath), rfl, orString_orString (by decide)⟩

theorem Cors.applyDefaults_applyDefaults (c : Cors) :
    c.applyDefaults.applyDefaults = c.applyDefaults := by
  unfold Cors.applyDefaults
  split_ifs with h h'
  · rfl
  · rfl
  · rfl

/-- A path with a fallback that is relative. -/
theorem orString_startsWith {s fallback : String} (h : fallback.startsWith "/" = false) :
    (orString s fallback).startsWith "/" = s.startsWith "/" := by
  by_cases hs : s = ""
  · have hempty : "".startsWith "/" = false := by
      rw [Bool.eq_false_iff, ne_eq, startsWith_iff]
      decide
    rw [hs, hempty]
    exact h
  · rw [orString_of_ne hs]

theorem dot_startsWith : ".".startsWith "/" = false := not_startsWith (by decide)

theorem balanced_orString : Balanced (orString configDir ".") ↔ Balanced configDir := by
  unfold Balanced
  rw [orString_startsWith dot_startsWith]
  by_cases hs : configDir = ""
  · rw [hs]
    rfl
  · rw [orString_of_ne hs]

theorem resolve_orString_iff (configDir path : String) {fallback : String}
    (h : fallback.startsWith "/" = false) (hne : fallback ≠ "") :
    resolveAgainst (orString configDir ".")
        (resolveAgainst (orString configDir ".") (orString path fallback)) =
      resolveAgainst (orString configDir ".") (orString path fallback) ↔
      configDir.startsWith "/" = true ∨ path.startsWith "/" = true ∨ Balanced configDir := by
  rw [resolve_iff (orString_ne_empty (by decide)) (orString_ne_empty hne), orString_startsWith h,
    orString_startsWith dot_startsWith, balanced_orString]

/-- **When the key files stay where they are.** -/
theorem keyFiles_iff (configDir : String) (c : Config) :
    ((c.applyDefaults configDir).applyDefaults configDir).keyFiles =
      (c.applyDefaults configDir).keyFiles ↔ Settled configDir c := by
  have hca : defaultLeases.caKeyPath.startsWith "/" = false :=
    not_startsWith (by decide)
  have hop : defaultHedera.operatorKeyPath.startsWith "/" = false :=
    not_startsWith (by decide)
  have hleases := resolve_orString_iff configDir c.leases.caKeyPath hca (by decide)
  have hhedera := resolve_orString_iff configDir c.hedera.operatorKeyPath hop (by decide)
  simp only [Config.keyFiles, Config.applyDefaults, Leases.applyDefaults_applyDefaults,
    Hedera.applyDefaults_applyDefaults, KeyFiles.mk.injEq]
  refine (and_congr hleases hhedera).trans ?_
  rw [← or_and_left, ← and_or_right]
  exact or_congr_right or_comm

/-- **When a configuration can be resolved twice.** -/
theorem idempotent_iff (configDir : String) (c : Config) :
    (c.applyDefaults configDir).applyDefaults configDir = c.applyDefaults configDir ↔
      Settled configDir c := by
  rw [← keyFiles_iff]
  constructor
  · intro h
    rw [h]
  · intro h
    simp only [Config.keyFiles, Config.applyDefaults, Leases.applyDefaults_applyDefaults,
      Hedera.applyDefaults_applyDefaults, KeyFiles.mk.injEq] at h
    simp only [Config.applyDefaults, Leases.applyDefaults_applyDefaults,
      Hedera.applyDefaults_applyDefaults, Cors.applyDefaults_applyDefaults, h.1, h.2]

end Resolve

/-! ### Loading again -/

section Load

variable {path contract : String} {file cfg : Config} {r : Option Registration}
  {opts : SetupOptions} {found : SetupFindings} {created : KeyFiles}

theorem load_eq_ok : load path file = .ok cfg ↔
    file.applyDefaults (dirOf path) = cfg ∧ cfg.validate = none := by
  constructor
  · intro h
    simp only [load] at h
    split at h
    · cases h
    · next hv =>
      cases h
      exact ⟨rfl, hv⟩
  · rintro ⟨rfl, hv⟩
    simp only [load, hv]

/-- A file that stays as it is when it is loaded. -/
structure Fixed (path : String) (file : Config) : Prop where
  resolved : file.applyDefaults (dirOf path) = file
  valid : file.validate = none

theorem Fixed.load (h : Fixed path file) : Config.load path file = .ok file :=
  load_eq_ok.2 ⟨h.resolved, h.valid⟩

theorem validate_eq_none_iff {c : Config} : c.validate = none ↔
    c.validateForSetup = none ∧ (c.hcs.enabled = true → c.hcs.topicId ≠ "") := by
  rw [Config.validate, Option.or_eq_none_iff, require_eq_none]

/-- A registration keeps a file valid. -/
theorem validate_register {agentId : ℕ} {agentAddress : String} (h : cfg.validate = none)
    (hcontract : contract ≠ "") :
    { cfg with identity := ⟨agentId, agentAddress, contract⟩ : Config }.validate = none := by
  have hid : (⟨agentId, agentAddress, contract⟩ : Identity).validate = none :=
    require_eq_none.2 fun _ => hcontract
  simp only [Config.validate, Config.validateForSetup, Config.validateBase, Config.validateListing,
    Option.or_eq_none_iff] at h ⊢
  simp only [h, hid, and_self]

theorem Fixed.register (h : Fixed path file) {file' : Config}
    (hr : Config.register path contract r file = some file') :
    Fixed path file' ∧ file'.keyFiles = file.keyFiles := by
  unfold Config.register at hr
  rw [h.load] at hr
  cases r with
  | none => cases hr
  | some r =>
    simp only at hr
    split_ifs at hr with hbad
    cases hr
    rw [not_or] at hbad
    have hcors := congrArg Config.cors h.resolved
    have hleases := congrArg Config.leases h.resolved
    have hhedera := congrArg Config.hedera h.resolved
    simp only [Config.applyDefaults] at hcors hleases hhedera
    refine ⟨⟨?_, validate_register h.valid hbad.2⟩, rfl⟩
    simp only [Config.applyDefaults, hcors, hleases, hhedera]

theorem Fixed.registered (h : Fixed path file) (rs : List (String × Option Registration)) :
    Fixed path (Config.registered path file rs) ∧
      (Config.registered path file rs).keyFiles = file.keyFiles := by
  induction rs generalizing file with
  | nil => exact ⟨h, rfl⟩
  | cons r rs ih =>
    rw [Config.registered, List.foldl_cons]
    cases hr : Config.register path r.1 r.2 file with
    | none => exact ih h
    | some file' =>
      obtain ⟨hfixed, hkeys⟩ := h.register hr
      obtain ⟨hfixed', hkeys'⟩ := ih hfixed
      exact ⟨hfixed', hkeys'.trans hkeys⟩

theorem keyFiles_funded (c : Config) (found : SetupFindings) :
    (c.funded found).keyFiles = c.keyFiles := rfl

/-- What `setup` saves, it has resolved once. -/
theorem setup_eq_ok (h : setup opts found = .ok (created, file)) :
    file = ((opts.unresolved found).applyDefaults (dirOf opts.configPath)).funded found ∧
      created = file.keyFiles ∧ file.validate = none := by
  simp only [setup] at h
  split_ifs at h with hprice
  split at h
  · cases h
  · split at h
    · cases h
    · next hv =>
      rw [Except.ok.injEq, Prod.mk.injEq] at h
      obtain ⟨hcreated, hfile⟩ := h
      rw [← hfile, ← hcreated, keyFiles_funded]
      exact ⟨rfl, rfl, hv⟩

theorem dirOf_ne_empty (path : String) : dirOf path ≠ "" := clean_ne_empty _

/-- The paths that `setup` puts in are rooted just if the directory is. -/
theorem settled_unresolved_iff (opts : SetupOptions) (found : SetupFindings) :
    Settled (dirOf opts.configPath) (opts.unresolved found) ↔
      (dirOf opts.configPath).startsWith "/" = true ∨ Balanced (dirOf opts.configPath) := by
  have hjoin : ∀ name, (join (dirOf opts.configPath) name).startsWith "/" =
      (dirOf opts.configPath).startsWith "/" := fun name => by
    cases hd : (dirOf opts.configPath).startsWith "/" with
    | true => exact clean_rooted ((join_startsWith (dirOf_ne_empty _) name).trans hd)
    | false => exact clean_not_rooted ((join_startsWith (dirOf_ne_empty _) name).trans hd)
  simp only [Settled, SetupOptions.unresolved, hjoin]
  constructor
  · rintro (h | h | ⟨h, -⟩)
    · exact Or.inl h
    · exact Or.inr h
    · exact Or.inl h
  · rintro (h | h)
    · exact Or.inl h
    · exact Or.inr (Or.inl h)

theorem funded_applyDefaults (configDir : String) (c : Config) (found : SetupFindings) :
    (c.funded found).applyDefaults configDir = (c.applyDefaults configDir).funded found := rfl

theorem reload_eq_ok (h : load path file = .ok file) (n : ℕ) : reload path n file = .ok file := by
  induction n with
  | zero => rfl
  | succ n ih =>
    rw [reload, h]
    exact ih

end Load

/-! ### The key files -/

/-- **Resolving is stable** just if the directory is rooted or balanced, or both paths are rooted:
then defaults can be applied twice, a configuration can be loaded and saved as often as one likes,
and `serve` looks for the very files that `setup` has created. -/
theorem stable_iff (configDir : String) (c : Config) :
    ((c.applyDefaults configDir).applyDefaults configDir = c.applyDefaults configDir ↔
      Settled configDir c) ∧
    (∀ (path : String) (file cfg : Config), load path file = .ok cfg →
      ((∀ n, reload path n cfg = .ok cfg) ↔ Settled (dirOf path) file)) ∧
    ∀ (opts : SetupOptions) (found : SetupFindings) (created : KeyFiles) (file : Config),
      setup opts found = .ok (created, file) →
      ((∀ rs, ∃ cfg, load opts.configPath (registered opts.configPath file rs) = .ok cfg ∧
          cfg.keyFiles = created) ↔
        (dirOf opts.configPath).startsWith "/" = true ∨ Balanced (dirOf opts.configPath)) := by
  refine ⟨idempotent_iff configDir c, fun path file cfg h => ?_,
    fun opts found created file h => ?_⟩
  · obtain ⟨hcfg, hvalid⟩ := load_eq_ok.1 h
    rw [← idempotent_iff, hcfg]
    constructor
    · intro hall
      have hone := hall 1
      rw [reload] at hone
      cases hl : load path cfg with
      | error e =>
        rw [hl] at hone
        cases hone
      | ok cfg' =>
        rw [hl] at hone
        rw [(load_eq_ok.1 hl).1]
        exact Except.ok.inj hone
    · exact fun hres n => reload_eq_ok (load_eq_ok.2 ⟨hres, hvalid⟩) n
  · obtain ⟨hfile, hcreated, hvalid⟩ := setup_eq_ok h
    rw [← settled_unresolved_iff opts found]
    constructor
    · intro hall
      obtain ⟨cfg, hl, hkeys⟩ := hall []
      rw [← keyFiles_iff]
      have hcfg := (load_eq_ok.1 hl).1
      rw [registered, List.foldl_nil, hfile, funded_applyDefaults] at hcfg
      rw [← hcfg, hcreated, hfile, keyFiles_funded, keyFiles_funded] at hkeys
      exact hkeys
    · intro hsettled rs
      have hfixed : Fixed opts.configPath file := by
        refine ⟨?_, hvalid⟩
        rw [hfile, funded_applyDefaults, (idempotent_iff _ _).2 hsettled]
      obtain ⟨hfixed', hkeys⟩ := hfixed.registered rs
      exact ⟨_, hfixed'.load, hkeys.trans hcreated.symm⟩

section Sample

/-- A setup that saves a configuration at a path. -/
def sampleOptions (path : String) : SetupOptions where
  configPath := path
  payTo := "0.0.1234"
  registryUrl := ""
  publicUrl := ""
  leasePrice := ""
  identityContract := ""
  hederaSidecar := ""

/-- What a setup finds and creates in the examples. -/
def sampleFindings : SetupFindings where
  nodeId := "node"
  registryToken := "token"
  operatorAccountId := "0.0.5678"
  topicId := "0.0.9"

/-- Its configuration, with these key files. -/
def sampleFile (keys : KeyFiles) (found : SetupFindings) : Config :=
  { defaultConfig with
    gpuEnabled := true
    leases := { defaultLeases with
      enabled := true, caKeyPath := keys.ca, sessionChunkSeconds := 7200 }
    hedera := { defaultHedera with
      enabled := true
      operatorKeyPath := keys.operator
      operatorAccountId := found.operatorAccountId }
    hcs := { enabled := true, topicId := found.topicId }
    payTo := "0.0.1234"
    nodeId := found.nodeId }

theorem validateForSetup_sample (keys : KeyFiles) (hca : keys.ca ≠ "") (hop : keys.operator ≠ "")
    {account : String} (haccount : account = "" ∨ account = "0.0.5678") (topic : String) :
    (sampleFile keys ⟨"node", "token", account, topic⟩).validateForSetup = none := by
  have hleases : (sampleFile keys ⟨"node", "token", account, topic⟩).leases.validate = none :=
    (validate_eq_none rfl).2
      { image := (by decide : "cleargate/lease-runtime:dev" ≠ "")
        perMinute := (by decide : (parseUint "200000").isSome = true)
        minutes := (by decide : (0 : ℤ) < 5 ∧ (5 : ℤ) ≤ 120)
        maxTotalMinutes := (by decide : (120 : ℤ) ≤ 1440)
        caKeyPath := hca
        tunnel := rfl
        proxyImage := (by decide : "cleargate/lease-egress:dev" ≠ "")
        paymentMode := rfl
        chunk_ge := (by decide : (5 : ℤ) * 60 ≤ 7200)
        chunk_le := (by decide : (7200 : ℤ) ≤ 120 * 60)
        lowCredit := (by decide : (60 : ℤ) < 7200)
        perSecond := Or.inl rfl }
  have hhedera : (sampleFile keys ⟨"node", "token", account, topic⟩).hedera.validate = none := by
    have haccount' : ¬ (account ≠ "" ∧ isHederaAccountId account = false) := by
      rcases haccount with rfl | rfl <;> decide
    have hsidecar : "cleargate-hedera" ≠ "" := by decide
    have hmirror : defaultMirrorUrl ≠ "" := by decide
    simp [Hedera.validate, sampleFile, defaultHedera, Option.or_eq_none_iff, require_eq_none,
      hop, hsidecar, hmirror, haccount']
  simp only [Config.validateForSetup, Config.validateBase, Option.or_eq_none_iff, require_eq_none,
    hleases, hhedera]
  have hpayTo : isHederaAccountId "0.0.1234" = true := by decide
  have hasset : "0.0.0" ≠ "" := by decide
  have hnetwork : "hedera:".toList.isPrefixOf "hedera:testnet".toList = true := by decide
  have hfacilitator : "https://api.testnet.blocky402.com" ≠ "" := by decide
  have htimeout : (0 : ℤ) < 300 := by decide
  exact ⟨⟨if_pos hpayTo, hasset, if_pos hnetwork, hfacilitator, htimeout, rfl, trivial, trivial,
    require_eq_none.2 fun h => absurd rfl h, fun _ => ⟨rfl, rfl⟩⟩, fun _ => rfl⟩

theorem validate_sample (keys : KeyFiles) (hca : keys.ca ≠ "") (hop : keys.operator ≠ "") :
    (sampleFile keys sampleFindings).validate = none :=
  validate_eq_none_iff.2 ⟨validateForSetup_sample keys hca hop (Or.inr rfl) "0.0.9",
    fun _ => (by decide : "0.0.9" ≠ "")⟩

theorem applyDefaults_sample {keys : KeyFiles} (found : SetupFindings) {configDir : String}
    (hdir : configDir ≠ "") (hca : keys.ca ≠ "") (hop : keys.operator ≠ "") :
    (sampleFile keys found).applyDefaults configDir =
      sampleFile ⟨resolveAgainst configDir keys.ca, resolveAgainst configDir keys.operator⟩
        found := by
  have hleases : (sampleFile keys found).leases.applyDefaults configDir =
      { (sampleFile keys found).leases with caKeyPath := resolveAgainst configDir keys.ca } := by
    simp only [Leases.applyDefaults, sampleFile, orString_of_ne hdir, orString_of_ne hca]
    rfl
  have hhedera : (sampleFile keys found).hedera.applyDefaults configDir =
      { (sampleFile keys found).hedera with
        operatorKeyPath := resolveAgainst configDir keys.operator } := by
    simp only [Hedera.applyDefaults, sampleFile, orString_of_ne hdir, orString_of_ne hop]
    rfl
  rw [Config.applyDefaults, hleases, hhedera]
  rfl

/-- What `setup` saves. -/
theorem setup_sample (path : String) :
    ∃ keys : KeyFiles,
      keys = ⟨resolveAgainst (dirOf path) (join (dirOf path) "lease-ca"),
        resolveAgainst (dirOf path) (join (dirOf path) "hedera-operator")⟩ ∧
      setup (sampleOptions path) sampleFindings = .ok (keys, sampleFile keys sampleFindings) := by
  have hdir : dirOf path ≠ "" := dirOf_ne_empty path
  have hca := join_ne_empty (dirOf path) "lease-ca"
  have hop := join_ne_empty (dirOf path) "hedera-operator"
  refine ⟨_, rfl, ?_⟩
  have hcfg : ((sampleOptions path).unresolved sampleFindings).applyDefaults (dirOf path) =
      sampleFile ⟨resolveAgainst (dirOf path) (join (dirOf path) "lease-ca"),
        resolveAgainst (dirOf path) (join (dirOf path) "hedera-operator")⟩
        ⟨"node", "token", "", ""⟩ := by
    have hleases : ((sampleOptions path).unresolved sampleFindings).leases.applyDefaults
        (dirOf path) = { defaultLeases with
          enabled := true
          caKeyPath := resolveAgainst (dirOf path) (join (dirOf path) "lease-ca")
          sessionChunkSeconds := 7200 } := by
      simp only [Leases.applyDefaults, SetupOptions.unresolved, sampleOptions, orString_of_ne hdir,
        orString_of_ne hca]
      rfl
    have hhedera : ((sampleOptions path).unresolved sampleFindings).hedera.applyDefaults
        (dirOf path) = { defaultHedera with
          enabled := true
          operatorKeyPath :=
            resolveAgainst (dirOf path) (join (dirOf path) "hedera-operator") } := by
      simp only [Hedera.applyDefaults, SetupOptions.unresolved, sampleOptions, orString_of_ne hdir,
        orString_of_ne hop]
      rfl
    rw [Config.applyDefaults, hleases, hhedera]
    generalize resolveAgainst (dirOf path) (join (dirOf path) "lease-ca") = ca
    generalize resolveAgainst (dirOf path) (join (dirOf path) "hedera-operator") = op
    simp only [SetupOptions.unresolved, sampleOptions, sampleFindings, sampleFile, if_true]
    rfl
  have hca' : resolveAgainst (dirOf path) (join (dirOf path) "lease-ca") ≠ "" :=
    resolveAgainst_ne_empty hca
  have hop' : resolveAgainst (dirOf path) (join (dirOf path) "hedera-operator") ≠ "" :=
    resolveAgainst_ne_empty hop
  generalize resolveAgainst (dirOf path) (join (dirOf path) "lease-ca") = ca at hcfg hca' ⊢
  generalize resolveAgainst (dirOf path) (join (dirOf path) "hedera-operator") = op
    at hcfg hop' ⊢
  have hset := validateForSetup_sample ⟨ca, op⟩ hca' hop' (Or.inl rfl) ""
  have hval := validate_sample ⟨ca, op⟩ hca' hop'
  have hfunded : (sampleFile ⟨ca, op⟩ ⟨"node", "token", "", ""⟩).funded sampleFindings =
      sampleFile ⟨ca, op⟩ sampleFindings := rfl
  have hpath : (sampleOptions path).configPath = path := rfl
  simp only [setup, hpath, hcfg, hset, hfunded, hval]
  exact if_neg fun h => h.1 rfl

/-- What becomes of the key files in a directory below. -/
theorem not_stable :
    ∃ created file cfg, setup (sampleOptions "conf/config.yaml") sampleFindings =
        .ok (created, file) ∧ created = ⟨"conf/conf/lease-ca", "conf/conf/hedera-operator"⟩ ∧
      load "conf/config.yaml" file = .ok cfg ∧
      cfg.keyFiles = ⟨"conf/conf/conf/lease-ca", "conf/conf/conf/hedera-operator"⟩ ∧
      reload "conf/config.yaml" 1 file ≠ .ok file := by
  have hdir : dirOf "conf/config.yaml" = "conf" := by
    rw [dirOf, clean_relative (not_startsWith (by decide +kernel))]
    decide +kernel
  have hconf : "conf".startsWith "/" = false := not_startsWith (by decide)
  have hjoin : ∀ {a b : String}, a ≠ "" → a.toList.head? ≠ some '/' →
      Paths.text (Paths.of "conf" * Paths.of a) = b → resolveAgainst "conf" a = b :=
    fun hne hstart h => (resolveAgainst_relative hne (not_startsWith hstart)).trans
      ((join_relative (by decide) hconf _).trans h)
  have hca : join "conf" "lease-ca" = "conf/lease-ca" :=
    (join_relative (by decide) hconf _).trans (by decide +kernel)
  have hop : join "conf" "hedera-operator" = "conf/hedera-operator" :=
    (join_relative (by decide) hconf _).trans (by decide +kernel)
  obtain ⟨keys, hkeys, hsetup⟩ := setup_sample "conf/config.yaml"
  rw [hdir, hca, hop, hjoin (by decide) (by decide) (by decide +kernel :
      Paths.text (Paths.of "conf" * Paths.of "conf/lease-ca") = "conf/conf/lease-ca"),
    hjoin (by decide) (by decide) (by decide +kernel :
      Paths.text (Paths.of "conf" * Paths.of "conf/hedera-operator") =
        "conf/conf/hedera-operator")] at hkeys
  subst hkeys
  have hload : load "conf/config.yaml"
      (sampleFile ⟨"conf/conf/lease-ca", "conf/conf/hedera-operator"⟩ sampleFindings) =
      .ok (sampleFile ⟨"conf/conf/conf/lease-ca", "conf/conf/conf/hedera-operator"⟩
        sampleFindings) := by
    refine load_eq_ok.2 ⟨?_, validate_sample _ (by decide) (by decide)⟩
    rw [hdir, applyDefaults_sample _ (by decide) (by decide) (by decide),
      hjoin (by decide) (by decide) (by decide +kernel :
        Paths.text (Paths.of "conf" * Paths.of "conf/conf/lease-ca") =
          "conf/conf/conf/lease-ca"),
      hjoin (by decide) (by decide) (by decide +kernel :
        Paths.text (Paths.of "conf" * Paths.of "conf/conf/hedera-operator") =
          "conf/conf/conf/hedera-operator")]
  refine ⟨_, _, _, hsetup, rfl, hload, rfl, fun h => ?_⟩
  rw [reload, hload] at h
  have hkeys := congrArg Config.keyFiles (Except.ok.inj h)
  exact absurd (congrArg KeyFiles.ca hkeys)
    (by decide : "conf/conf/conf/lease-ca" ≠ "conf/conf/lease-ca")

/-- A configuration in the working directory. -/
theorem stable_here :
    (defaultConfig.applyDefaults ".").applyDefaults "." = defaultConfig.applyDefaults "." ∧
    ∃ created file, setup (sampleOptions "config.yaml") sampleFindings = .ok (created, file) ∧
      created = ⟨"lease-ca", "hedera-operator"⟩ ∧
      (∀ n, reload "config.yaml" n file = .ok file) ∧
      ∀ rs, ∃ cfg, load "config.yaml" (registered "config.yaml" file rs) = .ok cfg ∧
        cfg.keyFiles = created := by
  have hdir : dirOf "config.yaml" = "." := by
    rw [dirOf, clean_relative (not_startsWith (by decide +kernel))]
    decide +kernel
  have hjoin : ∀ {a b : String}, Paths.text (Paths.of "." * Paths.of a) = b → join "." a = b :=
    fun h => (join_relative (by decide) dot_startsWith _).trans h
  have hca : join "." "lease-ca" = "lease-ca" := hjoin (by decide +kernel)
  have hop : join "." "hedera-operator" = "hedera-operator" := hjoin (by decide +kernel)
  have hca' : resolveAgainst "." "lease-ca" = "lease-ca" :=
    (resolveAgainst_relative (by decide) (not_startsWith (by decide))).trans hca
  have hop' : resolveAgainst "." "hedera-operator" = "hedera-operator" :=
    (resolveAgainst_relative (by decide) (not_startsWith (by decide))).trans hop
  have hbalanced : Balanced "." := ⟨dot_startsWith, by decide +kernel⟩
  obtain ⟨hidempotent, hreload, hserve⟩ := stable_iff "." defaultConfig
  obtain ⟨keys, hkeys, hsetup⟩ := setup_sample "config.yaml"
  rw [hdir, hca, hop, hca', hop'] at hkeys
  subst hkeys
  have hload : load "config.yaml" (sampleFile ⟨"lease-ca", "hedera-operator"⟩ sampleFindings) =
      .ok (sampleFile ⟨"lease-ca", "hedera-operator"⟩ sampleFindings) := by
    refine load_eq_ok.2 ⟨?_, validate_sample _ (by decide) (by decide)⟩
    rw [hdir, applyDefaults_sample _ (by decide) (by decide) (by decide), hca', hop']
  refine ⟨hidempotent.2 (Or.inr (Or.inl hbalanced)), _, _, hsetup, rfl,
    (hreload "config.yaml" _ _ hload).2 ?_, (hserve _ _ _ _ hsetup).2 ?_⟩
  · rw [hdir]
    exact Or.inr (Or.inl hbalanced)
  · show (dirOf "config.yaml").startsWith "/" = true ∨ Balanced (dirOf "config.yaml")
    rw [hdir]
    exact Or.inr hbalanced

end Sample

end Config
end Mach402
