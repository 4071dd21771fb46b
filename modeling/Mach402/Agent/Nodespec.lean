import Mach402.Agent.Config
import Mach402.Registry.Validate

/-!
# What a node says of its leases

The part of `nodespec.Build` that describes what the node sells, and the registry's answer to it.

* `sessionPrice_eq`: the rate that is advertised is the one that the session handlers charge;
* `accepted_iff`: the registry accepts what a validated configuration advertises, within the bounds
  of its schema, just if a chunk is at most a day.
-/

namespace Mach402
namespace Nodespec

open Config (Errorf parseUint)

/-- `LeaseOffer`: what a node sells. -/
structure LeaseOffer where
  priceTinybarsPerMinute : String
  minMinutes : ℤ
  maxMinutes : ℤ
  maxTotalMinutes : ℤ
  ssh : Bool
  jupyter : Bool
  gpu : Bool
  memoryMb : ℤ
  cpuCores : ℤ
  workspaceGb : ℤ
  /-- `nil` is `none`. -/
  egressAllowlist : Option (List String)
  paymentMode : String
  priceTinybarsPerSecond : String
  chunkSeconds : ℤ
  deriving DecidableEq

/-- `escrow.PricePerSecond`, of a numeral. -/
def pricePerSecond (tinybarsPerMinute : String) : Except Errorf ℤ :=
  match Decimal.parse tinybarsPerMinute with
  | none => .error ⟨"not an integer tinybar price: %q", [.quoted tinybarsPerMinute]⟩
  | some perMinute =>
    if perMinute ≤ 0 then .error ⟨"lease price must be positive", []⟩
    else
      let perSecond := perMinute.tdiv 60 + if perMinute.tmod 60 ≠ 0 then 1 else 0
      .ok (if perSecond = 0 then 1 else perSecond)

/-- The rate that a node advertises, or nothing. -/
def sessionPrice (leases : Config.Leases) : String :=
  if leases.priceTinybarsPerSecond ≠ "" then leases.priceTinybarsPerSecond
  else
    match pricePerSecond leases.priceTinybarsPerMinute with
    | .error _ => ""
    | .ok price => toString price

/-- `Build`, as far as leases go. -/
def buildLeases (leases : Config.Leases) (leaseGpu : Bool) : Option LeaseOffer :=
  if leases.enabled then
    some
      { priceTinybarsPerMinute := leases.priceTinybarsPerMinute
        minMinutes := leases.minMinutes
        maxMinutes := leases.maxMinutes
        maxTotalMinutes := leases.maxTotalMinutes
        -- a quick tunnel carries no TCP
        ssh := false
        jupyter := true
        gpu := leaseGpu
        memoryMb := leases.limits.memoryMb
        cpuCores := leases.limits.cpuCores
        workspaceGb := leases.limits.workspaceGb
        egressAllowlist := leases.egress.allowlist
        paymentMode := Config.paymentSession
        priceTinybarsPerSecond := sessionPrice leases
        chunkSeconds := leases.sessionChunkSeconds }
  else none

/-- `omitempty`. -/
def omitEmpty {α : Type} [DecidableEq α] (zero a : α) : Option α :=
  if a = zero then none else some a

/-- The offer in the body of a heartbeat. -/
def LeaseOffer.json (o : LeaseOffer) : Registry.LeaseBody where
  priceTinybarsPerMinute := o.priceTinybarsPerMinute
  minMinutes := o.minMinutes
  maxMinutes := o.maxMinutes
  maxTotalMinutes := o.maxTotalMinutes
  ssh := o.ssh
  jupyter := o.jupyter
  gpu := o.gpu
  memoryMb := o.memoryMb
  cpuCores := o.cpuCores
  workspaceGb := o.workspaceGb
  egressAllowlist := o.egressAllowlist
  paymentMode := omitEmpty "" o.paymentMode
  chunkSeconds := omitEmpty 0 o.chunkSeconds
  priceTinybarsPerSecond := omitEmpty "" o.priceTinybarsPerSecond

/-! ### The rate -/

section Rate

variable {s : String} {n : ℕ} {l : Config.Leases}

theorem parseUint_eq_some :
    parseUint s = some n ↔ Decimal.digits s.toList = some n ∧ n < 2 ^ 64 := by
  simp [parseUint, Option.filter_eq_some_iff]

/-- A rate is rounded up. -/
theorem pricePerSecond_ok (h : parseUint s = some n) (hn : 0 < n) :
    pricePerSecond s = .ok ((n + 59) / 60 : ℕ) := by
  have hparse := Decimal.parse_of_digits (parseUint_eq_some.1 h).1
  have hdiv : (n : ℤ).tdiv 60 = (n / 60 : ℕ) := rfl
  have hmod : (n : ℤ).tmod 60 = (n % 60 : ℕ) := rfl
  simp only [pricePerSecond, hparse, hdiv, hmod]
  rw [if_neg (by omega)]
  congr 1
  split_ifs <;> omega

theorem pricePerSecond_zero (h : parseUint s = some 0) :
    pricePerSecond s = .error ⟨"lease price must be positive", []⟩ := by
  have hparse := Decimal.parse_of_digits (parseUint_eq_some.1 h).1
  simp only [pricePerSecond, hparse]
  rfl

/-- What the session handlers compute from the number. -/
theorem pricePerSecond_terms (n : ℕ) :
    (Mach402.pricePerSecond n).toOption = if n = 0 then none else some ((n + 59) / 60) := by
  unfold Mach402.pricePerSecond
  by_cases hn : n = 0
  · rw [if_pos hn, if_pos hn]
    rfl
  · rw [if_neg hn, if_neg hn]
    have hup : (if n % 60 ≠ 0 then n / 60 + 1 else n / 60) = (n + 59) / 60 := by
      split_ifs <;> omega
    simp only [hup, Except.toOption, Option.some.injEq]
    split_ifs <;> omega

theorem parseUint_empty : parseUint "" = none := by decide

theorem parseUint_repr (h : n < 2 ^ 64) : parseUint n.repr = some n := by
  rw [parseUint_eq_some, Nat.toList_repr]
  exact ⟨Decimal.digits_toDigits n, h⟩

/-- **The rate that is advertised** is the one that the session handlers charge, if there is any. -/
theorem sessionPrice_eq (h : l.Valid) :
    parseUint (sessionPrice l) = (l.terms h).sessionPricePerSecond.toOption := by
  have hterms : (l.terms h).priceTinybarsPerSecond = parseUint l.priceTinybarsPerSecond := rfl
  obtain ⟨n, hn⟩ := Option.isSome_iff_exists.1 h.perMinute
  have hminute : (l.terms h).priceTinybarsPerMinute = n := by
    show (parseUint l.priceTinybarsPerMinute).getD 0 = n
    rw [hn, Option.getD_some]
  unfold sessionPrice Mach402.Leases.sessionPricePerSecond
  rw [hterms, hminute]
  split_ifs with hs
  · obtain ⟨p, hp⟩ := Option.isSome_iff_exists.1 (h.perSecond.resolve_left hs)
    simp only [hp, Except.toOption]
  · rw [not_not.1 hs, parseUint_empty]
    have hcharged := pricePerSecond_terms n
    rcases Nat.eq_zero_or_pos n with rfl | hpos
    · rw [pricePerSecond_zero hn]
      exact parseUint_empty
    · have hlt := (parseUint_eq_some.1 hn).2
      rw [if_neg hpos.ne'] at hcharged
      rw [pricePerSecond_ok hn hpos]
      cases hprice : Mach402.pricePerSecond n with
      | error e =>
        rw [hprice] at hcharged
        cases hcharged
      | ok price =>
        rw [hprice] at hcharged
        cases hcharged
        exact parseUint_repr (by omega)

/-- A price that `ParseUint` accepts is one for the registry, unless it is too long. -/
theorem isTinybars_of_parseUint (h : parseUint s = some n) (hlen : s.length ≤ 20) :
    Registry.isTinybars s = true := by
  have hdigits := (parseUint_eq_some.1 h).1
  unfold Decimal.digits at hdigits
  split_ifs at hdigits with hs
  have hpos : 1 ≤ s.length := by
    rw [← String.length_toList]
    exact List.length_pos_iff.2 hs.1
  simp only [Registry.isTinybars, hpos, hlen, hs.2, decide_true, Bool.and_self]

/-- What is advertised is a price for the registry, or left out. -/
theorem sessionPrice_fits (h : l.Valid) (hlen : l.priceTinybarsPerSecond.length ≤ 20) :
    sessionPrice l = "" ∨ Registry.isTinybars (sessionPrice l) = true := by
  unfold sessionPrice
  split_ifs with hs
  · obtain ⟨p, hp⟩ := Option.isSome_iff_exists.1 (h.perSecond.resolve_left hs)
    exact Or.inr (isTinybars_of_parseUint hp hlen)
  · obtain ⟨n, hn⟩ := Option.isSome_iff_exists.1 h.perMinute
    have hlt := (parseUint_eq_some.1 hn).2
    rcases Nat.eq_zero_or_pos n with rfl | hpos
    · exact Or.inl (by rw [pricePerSecond_zero hn])
    · have hlen' : ((n + 59) / 60).repr.length ≤ 20 := by
        rw [← String.length_toList, Nat.toList_repr,
          Nat.length_toDigits_le_iff (by omega) (by omega)]
        omega
      rw [pricePerSecond_ok hn hpos]
      exact Or.inr (isTinybars_of_parseUint (parseUint_repr (by omega)) hlen')

end Rate

/-! ### The registry's answer -/

/-- **Within the bounds of the registry's schema**, as far as it has them for what a configuration
sets. -/
structure WithinRegistry (l : Config.Leases) : Prop where
  perMinute : l.priceTinybarsPerMinute.length ≤ 20
  perSecond : l.priceTinybarsPerSecond.length ≤ 20
  minMinutes : l.minMinutes ≤ 10080
  maxMinutes : l.maxMinutes ≤ 10080
  maxTotalMinutes : l.maxTotalMinutes ≤ 525600
  memory : l.limits.memoryMb ≤ 10000000
  cores : l.limits.cpuCores ≤ 1024
  workspace : l.limits.workspaceGb ≤ 1000000
  allowlist : (l.egress.allowlist.getD []).length ≤ 256 ∧
    ∀ h ∈ l.egress.allowlist.getD [], Registry.isShortText h = true

/-- **A chunk is at most a day**: the one that is set, or else the longest session. -/
def ShortChunk (l : Config.Leases) : Prop :=
  if 0 < l.sessionChunkSeconds then l.sessionChunkSeconds ≤ 86400 else l.maxMinutes ≤ 1440

section Accepted

variable {l : Config.Leases} {configDir : String} {leaseGpu : Bool} {o : LeaseOffer}

theorem chunkSeconds_le_iff (configDir : String) (l : Config.Leases) :
    (l.applyDefaults configDir).sessionChunkSeconds ≤ 86400 ↔ ShortChunk l := by
  show Config.orInt l.sessionChunkSeconds (Config.orInt l.maxMinutes 120 * 60) ≤ 86400 ↔ _
  unfold ShortChunk Config.orInt
  split_ifs <;> omega

theorem omitEmpty_eq_some {α : Type} [DecidableEq α] {zero a b : α} :
    omitEmpty zero a = some b ↔ a ≠ zero ∧ a = b := by
  unfold omitEmpty
  split_ifs with h <;> simp [h]

/-- Everything but the chunk fits. -/
theorem json_fits (hvalid : l.Valid) (hdef : l.Defaulted) (hbounds : WithinRegistry l)
    (hbuild : buildLeases l leaseGpu = some o) :
    o.json.Fits ↔ l.sessionChunkSeconds ≤ 86400 := by
  unfold buildLeases at hbuild
  split_ifs at hbuild with henabled
  cases hbuild
  have hchunk := hdef.chunk
  constructor
  · intro h
    exact (h.chunk _ (omitEmpty_eq_some.2 ⟨hchunk.ne', rfl⟩)).2
  · intro hle
    obtain ⟨n, hn⟩ := Option.isSome_iff_exists.1 hvalid.perMinute
    obtain ⟨hosts, hhosts⟩ := Option.isSome_iff_exists.1 hdef.allowlist
    have hallowlist := hbounds.allowlist
    rw [hhosts, Option.getD_some] at hallowlist
    exact
      { perMinute := isTinybars_of_parseUint hn hbounds.perMinute
        minMinutes := ⟨hdef.minMinutes, hbounds.minMinutes⟩
        maxMinutes := ⟨hdef.maxMinutes, hbounds.maxMinutes⟩
        maxTotalMinutes := ⟨hdef.maxTotalMinutes, hbounds.maxTotalMinutes⟩
        memory := ⟨hdef.memory, hbounds.memory⟩
        cores := ⟨hdef.cores, hbounds.cores⟩
        workspace := ⟨hdef.workspace.le, hbounds.workspace⟩
        allowlist := ⟨hosts, hhosts, hallowlist⟩
        paymentMode := fun m hm => by
          cases hm
          rfl
        chunk := fun c hc => by
          obtain ⟨-, heq⟩ := omitEmpty_eq_some.1 hc
          rw [← heq]
          exact ⟨hchunk, hle⟩
        perSecond := fun s hs => by
          obtain ⟨hne, heq⟩ := omitEmpty_eq_some.1 hs
          rw [← heq]
          exact (sessionPrice_fits hvalid hbounds.perSecond).resolve_left hne }

/-- **The registry accepts a valid node** within the bounds of its schema just if its chunk is at
most a day. -/
theorem accepted_iff (henabled : l.enabled = true)
    (hvalid : (l.applyDefaults configDir).validate = none)
    (hbounds : WithinRegistry (l.applyDefaults configDir)) :
    (∃ o, buildLeases (l.applyDefaults configDir) leaseGpu = some o ∧
      (Registry.parseLeases o.json).isOk = true) ↔ ShortChunk l := by
  have hdef := Config.defaulted configDir l
  have hvalid' : (l.applyDefaults configDir).Valid :=
    (Config.validate_eq_none (l := l.applyDefaults configDir) henabled).1 hvalid
  obtain ⟨o, ho⟩ : ∃ o, buildLeases (l.applyDefaults configDir) leaseGpu = some o :=
    ⟨_, if_pos henabled⟩
  have hfits := json_fits hvalid' hdef hbounds ho
  rw [← chunkSeconds_le_iff configDir, ← hfits, ← Registry.leaseIssues_eq_nil,
    ← Registry.parseLeases_isOk]
  constructor
  · rintro ⟨o', ho', hok⟩
    rw [ho, Option.some.injEq] at ho'
    rwa [ho']
  · intro hok
    exact ⟨o, ho, hok⟩

end Accepted

/-- Sessions up to a length in minutes, each of them bought outright. -/
def outright (minutes : ℤ) : Config.Leases :=
  { Config.defaultLeases with enabled := true, maxMinutes := minutes, maxTotalMinutes := minutes }

theorem outright_valid {minutes : ℤ} (h : 5 ≤ minutes) :
    ((outright minutes).applyDefaults "").validate = none := by
  have hmax : Config.orInt minutes 120 = minutes := if_neg (by omega)
  have htotal : Config.orInt minutes 1440 = minutes := if_neg (by omega)
  have hchunk : Config.orInt 0 (minutes * 60) = minutes * 60 := rfl
  refine (Config.validate_eq_none rfl).2
    { image := (by decide : "cleargate/lease-runtime:dev" ≠ "")
      perMinute := (by decide : (parseUint "200000").isSome = true)
      minutes := ?_
      maxTotalMinutes := ?_
      caKeyPath := Config.resolveAgainst_ne_empty (Config.orString_ne_empty (by decide))
      tunnel := rfl
      proxyImage := (by decide : "cleargate/lease-egress:dev" ≠ "")
      paymentMode := rfl
      chunk_ge := ?_
      chunk_le := ?_
      lowCredit := ?_
      perSecond := Or.inl rfl }
  all_goals simp only [Config.Leases.applyDefaults, outright, Config.defaultLeases, hmax, htotal,
    hchunk]
  · exact ⟨by decide, h⟩
  · exact le_rfl
  · exact mul_le_mul_of_nonneg_right h (by decide)
  · exact le_rfl
  · show (60 : ℤ) < minutes * 60
    omega

theorem outright_within {minutes : ℤ} (h : 5 ≤ minutes) (h' : minutes ≤ 10080) :
    WithinRegistry ((outright minutes).applyDefaults "") where
  perMinute := (by decide : "200000".length ≤ 20)
  perSecond := (by decide : "".length ≤ 20)
  minMinutes := (by decide : (5 : ℤ) ≤ 10080)
  maxMinutes := (if_neg (by omega) : Config.orInt minutes 120 = minutes).trans_le h'
  maxTotalMinutes :=
    (if_neg (by omega) : Config.orInt minutes 1440 = minutes).trans_le (by omega)
  memory := (by decide : (16384 : ℤ) ≤ 10000000)
  cores := (by decide : (4 : ℤ) ≤ 1024)
  workspace := (by decide : (50 : ℤ) ≤ 1000000)
  allowlist := (by decide : (Config.defaultLeases.egress.allowlist.getD []).length ≤ 256 ∧
    ∀ h ∈ Config.defaultLeases.egress.allowlist.getD [], Registry.isShortText h = true)

theorem two_days_refused :
    (outright 2880).enabled = true ∧ ((outright 2880).applyDefaults "").validate = none ∧
      WithinRegistry ((outright 2880).applyDefaults "") ∧
      ∃ o, buildLeases ((outright 2880).applyDefaults "") true = some o ∧
        Registry.leaseIssues o.json = [⟨"leases.chunk_seconds", none⟩] ∧
        ¬ (Registry.parseLeases o.json).isOk = true := by
  have hrefused : ∀ (b : Registry.LeaseBody) (i : Registry.Issue), Registry.leaseIssues b = [i] →
      Registry.leaseIssues b = [i] ∧ ¬ (Registry.parseLeases b).isOk = true := by
    refine fun b i h => ⟨h, fun hok => ?_⟩
    rw [Registry.parseLeases_isOk.1 hok] at h
    cases h
  exact ⟨rfl, outright_valid (by decide), outright_within (by decide) (by decide), _, rfl,
    hrefused _ _ (by decide)⟩

theorem one_day_accepted :
    ∃ o, buildLeases ((outright 1440).applyDefaults "") true = some o ∧
      (Registry.parseLeases o.json).isOk = true :=
  (accepted_iff rfl (outright_valid (by decide)) (outright_within (by decide) (by decide))).2 (by
    rw [ShortChunk, if_neg (by decide)]
    decide)

end Nodespec
end Mach402
