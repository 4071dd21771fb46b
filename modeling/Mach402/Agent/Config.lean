import Mach402.Agent.Terms
import Mach402.Library.Decimal

/-!
# The configuration of a node's leases

`config.Leases` as it is read from a file, the defaults that `applyDefaults` puts in, and what
`validate` refuses.

* `Leases.Valid`, `validate_eq_none`: what a validated configuration satisfies;
* `Leases.Defaulted`, `defaulted`: what the defaults see to;
* `Leases.terms`: a validated configuration, as the session handlers read it.

An `int` is an integer: minutes are far below where their seconds overflow.
-/

namespace Mach402
namespace Config

/-- `LeaseLimits`: what one lease may use of the machine. -/
structure LeaseLimits where
  memoryMb : ℤ
  cpuCores : ℤ
  pidsLimit : ℤ
  workspaceGb : ℤ
  deriving DecidableEq

/-- `Egress`: what leases may reach. -/
structure Egress where
  proxyImage : String
  /-- `nil` is `none`. -/
  allowlist : Option (List String)
  deriving DecidableEq

/-- `Tunnel`: how leases are published. -/
structure Tunnel where
  mode : String
  binary : String
  deriving DecidableEq

/-- `Leases`, as the file has it. -/
structure Leases where
  enabled : Bool
  image : String
  priceTinybarsPerMinute : String
  minMinutes : ℤ
  maxMinutes : ℤ
  maxTotalMinutes : ℤ
  graceMinutes : ℤ
  caKeyPath : String
  limits : LeaseLimits
  egress : Egress
  tunnel : Tunnel
  paymentMode : String
  priceTinybarsPerSecond : String
  sessionChunkSeconds : ℤ
  lowCreditThresholdSeconds : ℤ
  deriving DecidableEq

/-- Interactive time that is metered, and of which the rest is paid back. -/
def paymentSession : String := "session"

/-- The old spelling. -/
def paymentEscrow : String := "escrow"

/-- A tunnel with a hostname of its own for every lease. -/
def tunnelQuick : String := "quick"

/-- `DefaultLeases`. -/
def defaultLeases : Leases where
  enabled := false
  image := "cleargate/lease-runtime:dev"
  priceTinybarsPerMinute := "200000"
  minMinutes := 5
  maxMinutes := 120
  maxTotalMinutes := 1440
  graceMinutes := 10
  caKeyPath := "lease-ca"
  limits := { memoryMb := 16384, cpuCores := 4, pidsLimit := 4096, workspaceGb := 50 }
  egress :=
    { proxyImage := "cleargate/lease-egress:dev"
      allowlist := some
        ["pypi.org", "files.pythonhosted.org", "pypi.python.org",
          "anaconda.org", "repo.anaconda.com", "conda.anaconda.org",
          "registry.npmjs.org",
          "github.com", "codeload.github.com", "raw.githubusercontent.com",
          "objects.githubusercontent.com", "release-assets.githubusercontent.com",
          "huggingface.co", "cdn-lfs.huggingface.co", "cdn-lfs-us-1.hf.co",
          "download.pytorch.org",
          "deb.debian.org", "security.debian.org",
          "archive.ubuntu.com", "security.ubuntu.com",
          "storage.googleapis.com"] }
  tunnel := { mode := tunnelQuick, binary := "cloudflared" }
  paymentMode := paymentSession
  priceTinybarsPerSecond := ""
  -- as much as the node sells
  sessionChunkSeconds := 0
  lowCreditThresholdSeconds := 60

/-! ### Paths -/

/-- `filepath.Clean`. -/
def clean (path : String) : String :=
  let rooted := path.startsWith "/"
  let parts := (path.splitOn "/").foldl
    (fun parts part =>
      if part = "" ∨ part = "." then parts
      else if part ≠ ".." then part :: parts
      else match parts with
        | [] => if rooted then [] else [".."]
        | last :: rest => if last = ".." then ".." :: parts else rest) []
  let body := "/".intercalate parts.reverse
  if rooted then "/" ++ body else if body = "" then "." else body

theorem clean_ne_empty (path : String) : clean path ≠ "" := by
  unfold clean
  extract_lets
  split_ifs with h h'
  · simp
  · decide
  · exact h'

/-- A relative path is taken from a directory. -/
def resolveAgainst (dir path : String) : String :=
  if path = "" ∨ path.startsWith "/" then path else clean (dir ++ "/" ++ path)

theorem resolveAgainst_ne_empty {dir path : String} (h : path ≠ "") :
    resolveAgainst dir path ≠ "" := by
  unfold resolveAgainst
  split_ifs
  · exact h
  · exact clean_ne_empty _

/-! ### Defaults -/

/-- A string, unless it is empty. -/
def orString (s fallback : String) : String := if s = "" then fallback else s

/-- An integer, unless it is not positive. -/
def orInt (n fallback : ℤ) : ℤ := if n ≤ 0 then fallback else n

theorem orString_ne_empty {s fallback : String} (h : fallback ≠ "") :
    orString s fallback ≠ "" := by
  unfold orString
  split_ifs with hs
  · exact h
  · exact hs

theorem orInt_pos {n fallback : ℤ} (h : 0 < fallback) : 0 < orInt n fallback := by
  unfold orInt
  split_ifs <;> omega

/-- What is not set is set.  `configDir` is where the file is. -/
def Leases.applyDefaults (configDir : String) (l : Leases) : Leases where
  enabled := l.enabled
  image := orString l.image defaultLeases.image
  priceTinybarsPerMinute :=
    orString l.priceTinybarsPerMinute defaultLeases.priceTinybarsPerMinute
  minMinutes := orInt l.minMinutes defaultLeases.minMinutes
  maxMinutes := orInt l.maxMinutes defaultLeases.maxMinutes
  maxTotalMinutes := orInt l.maxTotalMinutes defaultLeases.maxTotalMinutes
  graceMinutes := orInt l.graceMinutes defaultLeases.graceMinutes
  caKeyPath :=
    resolveAgainst (orString configDir ".") (orString l.caKeyPath defaultLeases.caKeyPath)
  limits :=
    { memoryMb := orInt l.limits.memoryMb defaultLeases.limits.memoryMb
      cpuCores := orInt l.limits.cpuCores defaultLeases.limits.cpuCores
      pidsLimit := orInt l.limits.pidsLimit defaultLeases.limits.pidsLimit
      workspaceGb := orInt l.limits.workspaceGb defaultLeases.limits.workspaceGb }
  egress :=
    { proxyImage := orString l.egress.proxyImage defaultLeases.egress.proxyImage
      allowlist := l.egress.allowlist.or defaultLeases.egress.allowlist }
  tunnel :=
    { mode := orString l.tunnel.mode defaultLeases.tunnel.mode
      binary := orString l.tunnel.binary defaultLeases.tunnel.binary }
  paymentMode :=
    let mode := orString l.paymentMode defaultLeases.paymentMode
    if mode = paymentEscrow then paymentSession else mode
  priceTinybarsPerSecond := l.priceTinybarsPerSecond
  -- a chunk as long as the longest session
  sessionChunkSeconds :=
    orInt l.sessionChunkSeconds (orInt l.maxMinutes defaultLeases.maxMinutes * 60)
  lowCreditThresholdSeconds :=
    orInt l.lowCreditThresholdSeconds defaultLeases.lowCreditThresholdSeconds

/-- **What the defaults see to.** -/
structure Leases.Defaulted (l : Leases) : Prop where
  minMinutes : 0 < l.minMinutes
  maxMinutes : 0 < l.maxMinutes
  maxTotalMinutes : 0 < l.maxTotalMinutes
  memory : 0 < l.limits.memoryMb
  cores : 0 < l.limits.cpuCores
  workspace : 0 < l.limits.workspaceGb
  allowlist : l.egress.allowlist.isSome = true
  chunk : 0 < l.sessionChunkSeconds

theorem defaulted (configDir : String) (l : Leases) : (l.applyDefaults configDir).Defaulted where
  minMinutes := orInt_pos (by decide)
  maxMinutes := orInt_pos (by decide)
  maxTotalMinutes := orInt_pos (by decide)
  memory := orInt_pos (by decide)
  cores := orInt_pos (by decide)
  workspace := orInt_pos (by decide)
  allowlist := by
    show (l.egress.allowlist.or defaultLeases.egress.allowlist).isSome = true
    cases l.egress.allowlist <;> rfl
  chunk := orInt_pos (mul_pos (orInt_pos (by decide)) (by decide))

/-! ### Validation -/

/-- An argument of a format: quoted by `%q`, or a number. -/
inductive Arg
  | quoted (s : String)
  | number (n : ℤ)
  deriving DecidableEq

/-- `fmt.Errorf`, by its format and its arguments. -/
structure Errorf where
  format : String
  args : List Arg
  deriving DecidableEq

/-- `strconv.ParseUint(s, 10, 64)`. -/
def parseUint (s : String) : Option ℕ := (Decimal.digits s.toList).filter (· < 2 ^ 64)

/-- The check of a price. -/
def validatePrice (format price : String) : Option Errorf :=
  if (parseUint price).isSome then none else some ⟨format, [.quoted price]⟩

/-- The check of a tunnel's mode: the removed ones are named. -/
def validateTunnel (mode : String) : Option Errorf :=
  if mode = tunnelQuick then none
  else if mode = "named" ∨ mode = "off" then
    some ⟨"leases.tunnel.mode %q has been removed — leases are published only through a " ++
      "Cloudflare quick tunnel; set leases.tunnel.mode to %q", [.quoted mode, .quoted tunnelQuick]⟩
  else some ⟨"leases.tunnel.mode %q must be %q", [.quoted mode, .quoted tunnelQuick]⟩

/-- The checks of a payment mode, and of the chunk that is sold in it. -/
def Leases.validatePayment (l : Leases) : Option Errorf :=
  if l.paymentMode = "direct" then
    some ⟨"leases.payment_mode %q has been removed — interactive time is sold only as metered " ++
      "sessions that refund unused credit; set leases.payment_mode to %q and re-run " ++
      "\x60cleargate-node setup --enable-leases\x60 so the node has a key to publish and pay " ++
      "refunds with", [.quoted l.paymentMode, .quoted paymentSession]⟩
  else if l.paymentMode ≠ paymentSession then
    some ⟨"leases.payment_mode %q must be %q", [.quoted l.paymentMode, .quoted paymentSession]⟩
  else if l.sessionChunkSeconds < l.minMinutes * 60 then
    some ⟨"leases.session_chunk_seconds (%d) must be at least leases.min_minutes (%d minutes)",
      [.number l.sessionChunkSeconds, .number l.minMinutes]⟩
  else if l.maxMinutes * 60 < l.sessionChunkSeconds then
    some ⟨"leases.session_chunk_seconds (%d) must not exceed leases.max_minutes (%d minutes)",
      [.number l.sessionChunkSeconds, .number l.maxMinutes]⟩
  else if l.sessionChunkSeconds ≤ l.lowCreditThresholdSeconds then
    some ⟨"leases.low_credit_threshold_seconds (%d) must be less than " ++
      "leases.session_chunk_seconds (%d), or every session would be low on credit the moment it " ++
      "opened", [.number l.lowCreditThresholdSeconds, .number l.sessionChunkSeconds]⟩
  else none

/-- A check that is not about a value. -/
def require (p : Prop) [Decidable p] (format : String) : Option Errorf :=
  if p then none else some ⟨format, []⟩

/-- The first error, if any. -/
def Leases.validate (l : Leases) : Option Errorf :=
  if !l.enabled then none
  else
    (require (l.image ≠ "")
      ("leases.image must name the lease runtime image — run \x60make lease-image\x60 to build " ++
        "it")).or <|
    (validatePrice
      "leases.price_tinybars_per_minute %q must be a whole number of tinybars, as a string"
      l.priceTinybarsPerMinute).or <|
    (require (0 < l.minMinutes ∧ l.minMinutes ≤ l.maxMinutes)
      "leases.min_minutes must be positive and no larger than leases.max_minutes").or <|
    (require (l.maxMinutes ≤ l.maxTotalMinutes)
      ("leases.max_total_minutes must be at least leases.max_minutes, or no session could reach " ++
        "its own maximum")).or <|
    (require (l.caKeyPath ≠ "")
      ("leases.ca_key_path must be set — it is where this node's SSH certificate authority " ++
        "lives")).or <|
    (validateTunnel l.tunnel.mode).or <|
    (require (l.egress.proxyImage ≠ "")
      ("leases.egress.proxy_image must be set — lease containers reach the network only through " ++
        "it")).or <|
    l.validatePayment.or <|
    if l.priceTinybarsPerSecond = "" then none
    else validatePrice
      "leases.price_tinybars_per_second %q must be a whole number of tinybars, as a string"
      l.priceTinybarsPerSecond

section Validate

variable {format price : String} {p : Prop} [Decidable p] {l : Leases}

theorem require_eq_none : require p format = none ↔ p := by
  unfold require
  split_ifs with h <;> simp [h]

theorem validatePrice_eq_none :
    validatePrice format price = none ↔ (parseUint price).isSome = true := by
  unfold validatePrice
  split_ifs with h <;> simp [h]

theorem validateTunnel_eq_none {mode : String} :
    validateTunnel mode = none ↔ mode = tunnelQuick := by
  unfold validateTunnel
  split_ifs with h <;> simp [h]

/-- **What a validated configuration satisfies.** -/
structure Leases.Valid (l : Leases) : Prop where
  image : l.image ≠ ""
  perMinute : (parseUint l.priceTinybarsPerMinute).isSome = true
  minutes : 0 < l.minMinutes ∧ l.minMinutes ≤ l.maxMinutes
  maxTotalMinutes : l.maxMinutes ≤ l.maxTotalMinutes
  caKeyPath : l.caKeyPath ≠ ""
  tunnel : l.tunnel.mode = tunnelQuick
  proxyImage : l.egress.proxyImage ≠ ""
  paymentMode : l.paymentMode = paymentSession
  chunk_ge : l.minMinutes * 60 ≤ l.sessionChunkSeconds
  chunk_le : l.sessionChunkSeconds ≤ l.maxMinutes * 60
  lowCredit : l.lowCreditThresholdSeconds < l.sessionChunkSeconds
  perSecond : l.priceTinybarsPerSecond = "" ∨ (parseUint l.priceTinybarsPerSecond).isSome = true

theorem validatePayment_eq_none : l.validatePayment = none ↔ l.paymentMode = paymentSession ∧
    l.minMinutes * 60 ≤ l.sessionChunkSeconds ∧ l.sessionChunkSeconds ≤ l.maxMinutes * 60 ∧
      l.lowCreditThresholdSeconds < l.sessionChunkSeconds := by
  have hdirect : "direct" ≠ paymentSession := by decide
  unfold Leases.validatePayment
  split_ifs with h1 h2 h3 h4 h5
  · simp [h1, hdirect]
  · simp [h2]
  · simp only [false_iff]
    omega
  · simp only [false_iff]
    omega
  · simp only [false_iff]
    omega
  · simp only [true_iff]
    exact ⟨not_not.1 h2, by omega⟩

theorem validate_eq_none (henabled : l.enabled = true) : l.validate = none ↔ l.Valid := by
  have hper : (if l.priceTinybarsPerSecond = "" then none else validatePrice
      "leases.price_tinybars_per_second %q must be a whole number of tinybars, as a string"
      l.priceTinybarsPerSecond) = none ↔
      l.priceTinybarsPerSecond = "" ∨ (parseUint l.priceTinybarsPerSecond).isSome = true := by
    split_ifs with h
    · simp [h]
    · simp [h, validatePrice_eq_none]
  simp only [Leases.validate, henabled, Bool.not_true, Bool.false_eq_true, if_false,
    Option.or_eq_none_iff, require_eq_none, validatePrice_eq_none, validateTunnel_eq_none,
    validatePayment_eq_none, hper]
  constructor
  · rintro ⟨h1, h2, h3, h4, h5, h6, h7, ⟨h8, h9, h10, h11⟩, h12⟩
    exact ⟨h1, h2, h3, h4, h5, h6, h7, h8, h9, h10, h11, h12⟩
  · rintro ⟨h1, h2, h3, h4, h5, h6, h7, h8, h9, h10, h11, h12⟩
    exact ⟨h1, h2, h3, h4, h5, h6, h7, ⟨h8, h9, h10, h11⟩, h12⟩

end Validate

/-- A validated configuration, as the session handlers read it. -/
def Leases.terms (l : Leases) (h : l.Valid) : Mach402.Leases where
  priceTinybarsPerMinute := (parseUint l.priceTinybarsPerMinute).getD 0
  priceTinybarsPerSecond := parseUint l.priceTinybarsPerSecond
  minMinutes := l.minMinutes
  maxMinutes := l.maxMinutes
  maxTotalMinutes := l.maxTotalMinutes
  graceMinutes := l.graceMinutes
  sessionChunkSeconds := l.sessionChunkSeconds
  lowCreditThresholdSeconds := l.lowCreditThresholdSeconds
  minMinutes_pos := h.minutes.1
  minMinutes_le := h.minutes.2
  maxMinutes_le := h.maxTotalMinutes
  chunk_ge := h.chunk_ge
  chunk_le := h.chunk_le
  lowCredit_lt := h.lowCredit

end Config
end Mach402
