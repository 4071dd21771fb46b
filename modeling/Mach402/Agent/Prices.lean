import Mach402.Agent.Nodespec
import Mach402.Agent.ConfigFile
import Mathlib.Order.Bounds.Defs

/-!
# The price of a session

The rate of a session is set, or derived from the price of a minute.  The session handlers, the
listing and `setup` each decide that on their own.

* `sessionPricePerSecond`, `Nodespec.sessionPrice`, `sessionChunkCost`: the three of them;
* `pricePerSecond_isLeast`: what is derived is the least rate that pays for a minute;
* `payable_iff`: a valid configuration has one price, and it is positive, just if the figure that
  counts is not zero.
-/

namespace Mach402
namespace Prices

open Config (Errorf parseUint)
open Nodespec (sessionPrice)

/-- The rate that a session's credit burns at. -/
def sessionPricePerSecond (leases : Config.Leases) : Except Errorf ℤ :=
  if leases.priceTinybarsPerSecond ≠ "" then
    match Decimal.parse leases.priceTinybarsPerSecond with
    | none => .error ⟨"this node's per-second session price is misconfigured", []⟩
    | some price => .ok price
  else
    match Nodespec.pricePerSecond leases.priceTinybarsPerMinute with
    | .error e => .error ⟨"this node's lease price is misconfigured: " ++ e.format, e.args⟩
    | .ok price => .ok price

/-- What one chunk of metered time costs. -/
def sessionChunkCost (leases : Config.Leases) : Except Errorf ℤ :=
  if leases.priceTinybarsPerSecond = "" then
    match Nodespec.pricePerSecond leases.priceTinybarsPerMinute with
    | .error e => .error ⟨"the lease price is misconfigured: " ++ e.format, e.args⟩
    | .ok perSecond => .ok (perSecond * leases.sessionChunkSeconds)
  else
    match Decimal.parse leases.priceTinybarsPerSecond with
    | none => .error ⟨"leases.price_tinybars_per_second is not a whole number of tinybars", []⟩
    | some perSecond => .ok (perSecond * leases.sessionChunkSeconds)

/-- The figure that counts. -/
def figure (leases : Config.Leases) : String :=
  if leases.priceTinybarsPerSecond = "" then leases.priceTinybarsPerMinute
  else leases.priceTinybarsPerSecond

/-- **One price** for the handlers, the listing and `setup`. -/
structure Payable (leases : Config.Leases) (p : ℤ) : Prop where
  pos : 0 < p
  charged : sessionPricePerSecond leases = .ok p
  advertised : Decimal.parse (sessionPrice leases) = some p
  chunk : sessionChunkCost leases = .ok (p * leases.sessionChunkSeconds)
  /-- A derived rate pays for a minute, and no lower one does. -/
  derived : leases.priceTinybarsPerSecond = "" → ∀ perMinute : ℤ,
    Decimal.parse leases.priceTinybarsPerMinute = some perMinute →
      IsLeast {q : ℤ | perMinute ≤ 60 * q} p ∧ 60 * p ≤ perMinute + 59

section Price

variable {l : Config.Leases} {n : ℕ} {s : String}

theorem pricePerSecond_isLeast (n : ℕ) :
    IsLeast {q : ℤ | (n : ℤ) ≤ 60 * q} ((n + 59) / 60 : ℕ) := by
  constructor
  · show (n : ℤ) ≤ 60 * ((n + 59) / 60 : ℕ)
    omega
  · intro q hq
    change (n : ℤ) ≤ 60 * q at hq
    omega

/-- The figure that counts is a numeral. -/
theorem figure_isSome (h : l.Valid) : (parseUint (figure l)).isSome = true := by
  unfold figure
  split_ifs with hs
  · exact h.perMinute
  · exact h.perSecond.resolve_left hs

theorem parse_of_parseUint (h : parseUint s = some n) : Decimal.parse s = some (n : ℤ) :=
  Decimal.parse_of_digits (Nodespec.parseUint_eq_some.1 h).1

/-- A rate that is set. -/
theorem payable_explicit (hs : l.priceTinybarsPerSecond ≠ "")
    (hn : parseUint l.priceTinybarsPerSecond = some n) (hpos : 0 < n) : Payable l n where
  pos := by exact_mod_cast hpos
  charged := by
    simp only [sessionPricePerSecond, if_pos hs, parse_of_parseUint hn]
  advertised := by
    rw [sessionPrice, if_pos hs, parse_of_parseUint hn]
  chunk := by
    simp only [sessionChunkCost, if_neg hs, parse_of_parseUint hn]
  derived h := absurd h hs

/-- A rate that is derived. -/
theorem payable_derived (hs : l.priceTinybarsPerSecond = "")
    (hn : parseUint l.priceTinybarsPerMinute = some n) (hpos : 0 < n) :
    Payable l ((n + 59) / 60 : ℕ) where
  pos := by omega
  charged := by
    simp only [sessionPricePerSecond, if_neg (not_not.2 hs), Nodespec.pricePerSecond_ok hn hpos]
  advertised := by
    simp only [sessionPrice, if_neg (not_not.2 hs), Nodespec.pricePerSecond_ok hn hpos]
    exact Decimal.parse_toString _
  chunk := by
    simp only [sessionChunkCost, if_pos hs, Nodespec.pricePerSecond_ok hn hpos]
  derived _ perMinute hm := by
    rw [parse_of_parseUint hn, Option.some.injEq] at hm
    rw [← hm]
    exact ⟨pricePerSecond_isLeast n, by omega⟩

/-- **A price is payable** just if the figure that counts is not zero. -/
theorem exists_payable_iff (h : l.Valid) :
    (∃ p, Payable l p) ↔ parseUint (figure l) ≠ some 0 := by
  obtain ⟨n, hn⟩ := Option.isSome_iff_exists.1 (figure_isSome h)
  rw [hn, ne_eq, Option.some.injEq]
  by_cases hs : l.priceTinybarsPerSecond = ""
  · rw [figure, if_pos hs] at hn
    constructor
    · rintro ⟨p, hp⟩ rfl
      have hcharged := hp.charged
      simp only [sessionPricePerSecond, if_neg (not_not.2 hs),
        Nodespec.pricePerSecond_zero hn] at hcharged
      cases hcharged
    · exact fun hpos => ⟨_, payable_derived hs hn (Nat.pos_of_ne_zero hpos)⟩
  · rw [figure, if_neg hs] at hn
    constructor
    · rintro ⟨p, hp⟩ rfl
      have hcharged := hp.charged
      simp only [sessionPricePerSecond, if_pos hs, parse_of_parseUint hn] at hcharged
      cases hcharged
      exact absurd hp.pos (by decide)
    · exact fun hpos => ⟨_, payable_explicit hs hn (Nat.pos_of_ne_zero hpos)⟩

/-- The handlers' own model of the rate. -/
theorem sessionPricePerSecond_terms (h : l.Valid) :
    (sessionPricePerSecond l).toOption =
      (l.terms h).sessionPricePerSecond.toOption.map Nat.cast := by
  rw [← Nodespec.sessionPrice_eq h]
  by_cases hs : l.priceTinybarsPerSecond = ""
  · obtain ⟨n, hn⟩ := Option.isSome_iff_exists.1 h.perMinute
    rcases Nat.eq_zero_or_pos n with rfl | hpos
    · simp only [sessionPricePerSecond, sessionPrice, if_neg (not_not.2 hs),
        Nodespec.pricePerSecond_zero hn, Nodespec.parseUint_empty]
      rfl
    · have hlt := (Nodespec.parseUint_eq_some.1 hn).2
      have hrepr : parseUint (toString (((n + 59) / 60 : ℕ) : ℤ)) = some ((n + 59) / 60) :=
        Nodespec.parseUint_repr (by omega)
      simp only [sessionPricePerSecond, sessionPrice, if_neg (not_not.2 hs),
        Nodespec.pricePerSecond_ok hn hpos, hrepr]
      rfl
  · obtain ⟨n, hn⟩ := Option.isSome_iff_exists.1 (h.perSecond.resolve_left hs)
    simp only [sessionPricePerSecond, sessionPrice, if_pos hs, parse_of_parseUint hn, hn]
    rfl

end Price

/-! ### Valid configurations -/

/-- What a valid configuration says of its leases. -/
theorem leases_valid {c : Config.Config} (h : c.validate = none)
    (henabled : c.leases.enabled = true) : c.leases.Valid := by
  simp only [Config.Config.validate, Config.Config.validateForSetup, Config.Config.validateBase,
    Option.or_eq_none_iff] at h
  exact (Config.validate_eq_none henabled).1 h.1.1.2.2.2.2.2.2.1

/-- **A valid configuration has one price**, which can be paid, just if the figure that counts is
not zero. -/
theorem payable_iff (c : Config.Config) (hvalid : c.validate = none)
    (henabled : c.leases.enabled = true) :
    (∃ p, Payable c.leases p) ↔ parseUint (figure c.leases) ≠ some 0 :=
  exists_payable_iff (leases_valid hvalid henabled)

/-- A valid configuration with these prices. -/
def priced (perMinute perSecond : String) : Config.Config :=
  { Config.sampleFile ⟨"lease-ca", "hedera-operator"⟩ Config.sampleFindings with
    leases := { Config.defaultLeases with
      enabled := true
      priceTinybarsPerMinute := perMinute
      priceTinybarsPerSecond := perSecond
      sessionChunkSeconds := 7200 } }

/-- A price of nothing is valid: a minute for nothing has no rate, and a second for nothing is
sold. -/
theorem not_payable :
    ((priced "0" "").validate = none ∧ (priced "0" "").leases.enabled = true ∧
      sessionPricePerSecond (priced "0" "").leases =
        .error ⟨"this node's lease price is misconfigured: lease price must be positive", []⟩ ∧
      sessionPrice (priced "0" "").leases = "") ∧
    (priced "200000" "0").validate = none ∧ (priced "200000" "0").leases.enabled = true ∧
      sessionPricePerSecond (priced "200000" "0").leases = .ok 0 ∧
      sessionPrice (priced "200000" "0").leases = "0" :=
  ⟨⟨by decide +kernel, rfl, by rfl, by decide +kernel⟩, by decide +kernel, rfl, by rfl, rfl⟩

/-- The default price of a minute, and a rate with a leading zero. -/
theorem payable_sample :
    (∃ p, Payable (priced "200000" "").leases p) ∧
      ∃ p, Payable (priced "200000" "07").leases p :=
  ⟨(payable_iff (priced "200000" "") (by decide +kernel) rfl).2 (by decide +kernel),
    (payable_iff (priced "200000" "07") (by decide +kernel) rfl).2 (by decide +kernel)⟩

end Prices
end Mach402
