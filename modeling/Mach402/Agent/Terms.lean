import Mathlib.Tactic

/-!
# What the node sells, and for how much

The part of a node's configuration the session handlers read, as `Leases.validate` lets it pass: the
bounds it checks are fields.  Prices are the naturals that `strconv.ParseUint` accepts.

* `sessionPricePerSecond`: the rate a session's credit burns at;
* `validateSessionSeconds`, `sessionChunk`, `secondsToMinutes`: the length of a session, of the
  chunk one payment buys, and of the lease behind it.
-/

namespace Mach402

/-- `config.Leases`, validated. -/
structure Leases where
  priceTinybarsPerMinute : ℕ
  /-- `none` is the empty string: no figure of its own. -/
  priceTinybarsPerSecond : Option ℕ
  minMinutes : ℤ
  maxMinutes : ℤ
  maxTotalMinutes : ℤ
  graceMinutes : ℤ
  sessionChunkSeconds : ℤ
  lowCreditThresholdSeconds : ℤ
  minMinutes_pos : 0 < minMinutes
  minMinutes_le : minMinutes ≤ maxMinutes
  maxMinutes_le : maxMinutes ≤ maxTotalMinutes
  chunk_ge : minMinutes * 60 ≤ sessionChunkSeconds
  chunk_le : sessionChunkSeconds ≤ maxMinutes * 60
  lowCredit_lt : lowCreditThresholdSeconds < sessionChunkSeconds

/-- `escrow.PricePerSecond`: rounds up. -/
def pricePerSecond (perMinute : ℕ) : Except String ℕ :=
  if perMinute = 0 then .error "lease price must be positive"
  else
    let perSecond := if perMinute % 60 ≠ 0 then perMinute / 60 + 1 else perMinute / 60
    .ok (if perSecond = 0 then 1 else perSecond)

namespace Leases

variable (leases : Leases)

/-- The rate a session's credit burns at. -/
def sessionPricePerSecond : Except String ℕ :=
  match leases.priceTinybarsPerSecond with
  | some explicit => .ok explicit
  | none =>
    match pricePerSecond leases.priceTinybarsPerMinute with
    | .ok price => .ok price
    | .error e => .error ("this node's lease price is misconfigured: " ++ e)

/-- What is wrong with the length a renter asks for. -/
def validateSessionSeconds (seconds : ℤ) : Option String :=
  if seconds < leases.minMinutes * 60 then
    some ("this node's minimum session is " ++ toString (leases.minMinutes * 60) ++ " seconds")
  else if leases.maxMinutes * 60 < seconds then
    some ("this node's maximum session is " ++ toString (leases.maxMinutes * 60) ++ " seconds")
  else none

/-- How many seconds one payment buys. -/
def sessionChunk (requested : ℤ) : ℤ :=
  if 0 < requested ∧ requested < leases.sessionChunkSeconds then requested
  else leases.sessionChunkSeconds

/-- What is wrong with the length of the lease behind a session. -/
def validateMinutes (minutes : ℤ) : Option String :=
  if minutes < leases.minMinutes ∨ leases.maxMinutes < minutes then
    some ("minutes must be between " ++ toString leases.minMinutes ++ " and " ++
      toString leases.maxMinutes ++ " on this node")
  else none

theorem chunk_pos : 0 < leases.sessionChunkSeconds := by
  have := leases.minMinutes_pos
  have := leases.chunk_ge
  omega

theorem sessionChunk_pos (requested : ℤ) : 0 < leases.sessionChunk requested := by
  have := leases.chunk_pos
  unfold sessionChunk
  split_ifs <;> omega

theorem sessionChunk_le (requested : ℤ) :
    leases.sessionChunk requested ≤ leases.sessionChunkSeconds := by
  unfold sessionChunk
  split_ifs <;> omega

/-- One payment buys the length asked for, or a chunk of it. -/
theorem sessionChunk_of_validate {requested : ℤ}
    (h : leases.validateSessionSeconds requested = none) :
    leases.sessionChunk requested = min requested leases.sessionChunkSeconds := by
  have := leases.minMinutes_pos
  unfold validateSessionSeconds at h
  unfold sessionChunk
  split_ifs at h
  split_ifs <;> omega

end Leases

/-- Rounds up, and to a minute at least. -/
def secondsToMinutes (seconds : ℤ) : ℤ :=
  let minutes := if seconds.tmod 60 ≠ 0 then seconds.tdiv 60 + 1 else seconds.tdiv 60
  if minutes < 1 then 1 else minutes

end Mach402
