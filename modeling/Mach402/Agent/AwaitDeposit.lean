import Mach402.Library.Retry
import Mach402.Agent.Deposit
import Mach402.Contracts.Records

/-!
# Waiting for a deposit

A mirror node lags behind.  `AwaitDeposit` and `AwaitTopUp` ask it again, a bounded number of times,
while the contract goes on.

* `awaitDeposit`, `awaitTopUp`: the two loops;
* `Follows`: what the mirror node shows at each attempt is the contract between two transactions of
  one run;
* `awaitDeposit_secured`, `awaitTopUp_secured`: a session that is returned is secured for good, and
  one that is shown in time is returned.
-/

namespace Mach402
namespace Deposit

open Bytes
open SessionEscrow (World Pc escrowSystem Chain Secured)

/-! ### The loops -/

/-- How often a deposit is looked for. -/
def attempts : ℕ := 6

/-- In milliseconds. -/
def firstDelay : ℕ := 500

/-- The wait doubles, up to four seconds. -/
def nextDelay (delay : ℕ) : ℕ := if delay < 4000 then delay * 2 else delay

/-- They are all waited for eleven seconds and a half. -/
example : (List.range (attempts - 1)).map (nextDelay^[·] firstDelay) =
    [500, 1000, 2000, 4000, 4000] := by decide

/-- Why `AwaitDeposit` ends without a session. -/
inductive AwaitFailure
  | rejection (reason : String)
  /-- `ctx.Err()`. -/
  | context (text : String)
  | other (text : String)
  deriving DecidableEq

/-- `Error` of what `VerifyDeposit` returns. -/
def Failure.text : Failure → String
  | .notYetVisible => "deposit not yet visible on the mirror node"
  | .rejection reason => reason
  | .other text => text

/-- One look at the deposit.  A rejection is not tried again. -/
def depositAttempt (u : Unicode) (v : Verifier) (txID : String) (quote : Quote) :
    Attempt (Except AwaitFailure Session) Failure :=
  match v.verifyDeposit u txID quote with
  | .ok session => .done (.ok session)
  | .error (.rejection reason) => .done (.error (.rejection reason))
  | .error e => .again e

/-- `AwaitDeposit`.  `v i` is the verifier with what the mirror node answers at the `i`th attempt;
`done` tells whether the context is over before a wait is. -/
def awaitDeposit (u : Unicode) (v : ℕ → Verifier) (done : ℕ → ℕ → Option String) (txID : String)
    (quote : Quote) : Except AwaitFailure Session :=
  match retry (fun i => depositAttempt u (v i) txID quote)
      (fun i delay => (done i delay).map fun e => .error (.context e)) nextDelay (attempts - 1) 0
      firstDelay with
  | .inl result => result
  | .inr lastErr =>
    .error (.other ("deposit " ++ txID ++ " never became visible: " ++ lastErr.text))

/-- Why `AwaitTopUp` ends without a session. -/
inductive TopUpFailure
  | rejection (reason : String)
  | context (text : String)
  | noAdditionalTime
  | other (text : String)
  deriving DecidableEq

/-- One look at the time that is paid for.  An error is not tried again. -/
def topUpAttempt (v : Verifier) (sessionID : String) (afterSeconds : Int64) :
    Attempt (Option Session × Option TopUpFailure) Session :=
  match v.session sessionID with
  | .error e => .done (none, some (.other e))
  | .ok session =>
    if session.settled then
      .done (some session, some (.rejection "that session has already been settled"))
    else if afterSeconds < Int64.ofNat session.duration then .done (some session, none)
    else .again session

/-- The attempts of `AwaitTopUp`. -/
def topUpAttempts (v : ℕ → Verifier) (done : ℕ → ℕ → Option String) (sessionID : String)
    (afterSeconds : Int64) : (Option Session × Option TopUpFailure) ⊕ Session :=
  retry (fun i => topUpAttempt (v i) sessionID afterSeconds)
    (fun i delay => (done i delay).map fun e => (none, some (.context e))) nextDelay (attempts - 1)
    0 firstDelay

/-- `AwaitTopUp`, which may return a session beside an error. -/
def awaitTopUp (v : ℕ → Verifier) (done : ℕ → ℕ → Option String) (sessionID : String)
    (afterSeconds : Int64) : Option Session × Option TopUpFailure :=
  match topUpAttempts v done sessionID afterSeconds with
  | .inl result => result
  | .inr last => (some last, some .noAdditionalTime)

/-- No context is over before the `i`th attempt. -/
def Waits (done : ℕ → ℕ → Option String) (i : ℕ) : Prop :=
  ∀ j < i, done j (nextDelay^[j] firstDelay) = none

/-! ### What the mirror node shows -/

/-- **The mirror node follows the chain.**  At each attempt, if it answers, it returns what the
contract has stored at a point between two transactions, later and later ones in one run. -/
structure Follows (chain : Chain) (c : ℕ → Program.Config World Pc) (v : ℕ → Verifier)
    (sessions : ℕ → SessionId → Stored) : Prop where
  start : (escrowSystem chain).Reachable (c 0)
  run : ∀ i, (escrowSystem chain).Run System.Any (c i) (c (i + 1))
  committed : ∀ i, (c i).stack = []
  stored : ∀ i id, (sessions i id).1 = (c i).state.sessions id
  shows : ∀ i, (v i).Shows (sessions i)
  /-- There are `5 * 10 ^ 18` tinybars. -/
  supply : chain.supply < 2 ^ 63

section Loops

variable {u : Unicode} {v : ℕ → Verifier} {done : ℕ → ℕ → Option String} {txID sessionID : String}
  {quote : Quote} {session : Session} {afterSeconds : Int64} {i : ℕ} {e : Failure}

theorem depositAttempt_ok_iff {w : Verifier} :
    depositAttempt u w txID quote = .done (.ok session) ↔
      w.verifyDeposit u txID quote = .ok session := by
  rw [depositAttempt]
  cases w.verifyDeposit u txID quote with
  | ok s => simp
  | error e => cases e <;> simp

theorem depositAttempt_again_iff {w : Verifier} :
    (∃ e, depositAttempt u w txID quote = .again e) ↔
      ∃ e, w.verifyDeposit u txID quote = .error e ∧ ∀ reason, e ≠ .rejection reason := by
  rw [depositAttempt]
  cases w.verifyDeposit u txID quote with
  | ok s => simp
  | error e => cases e <;> simp

/-- A deposit is returned at the first attempt that verifies it, unless something else stops the
waiting first. -/
theorem awaitDeposit_ok_iff :
    awaitDeposit u v done txID quote = .ok session ↔
      ∃ i < attempts, (v i).verifyDeposit u txID quote = .ok session ∧ Waits done i ∧
        ∀ j < i, ∃ e, (v j).verifyDeposit u txID quote = .error e ∧
          ∀ reason, e ≠ .rejection reason := by
  have hgoal : awaitDeposit u v done txID quote = .ok session ↔
      retry (fun i => depositAttempt u (v i) txID quote)
        (fun i delay => (done i delay).map fun e => .error (.context e)) nextDelay (attempts - 1) 0
        firstDelay = .inl (.ok session) := by
    rw [awaitDeposit]
    split
    next result hresult => rw [hresult, Sum.inl.injEq]
    next lastErr hlast => simp [hlast]
  rw [hgoal, retry_eq_inl_iff]
  simp only [SettledAt, Passed, Nat.zero_add, Option.map_eq_none_iff, depositAttempt_ok_iff,
    depositAttempt_again_iff, Option.map_eq_some_iff, reduceCtorEq, and_false, exists_false,
    or_false]
  constructor
  · rintro ⟨i, hi, hpassed, hok⟩
    exact ⟨i, by simp only [attempts] at hi ⊢; omega, hok, fun j hj => (hpassed j hj).2,
      fun j hj => (hpassed j hj).1⟩
  · rintro ⟨i, hi, hok, hwaits, hagain⟩
    exact ⟨i, by simp only [attempts] at hi ⊢; omega, fun j hj => ⟨hagain j hj, hwaits j hj⟩, hok⟩

/-- What an attempt that reads an unsettled session finds. -/
theorem topUpAttempt_of_read {w : Verifier} (hs : w.session sessionID = .ok session)
    (hf : session.settled = false) :
    topUpAttempt w sessionID afterSeconds =
      if afterSeconds < Int64.ofNat session.duration then .done (some session, none)
      else .again session := by
  rw [topUpAttempt, hs]
  simp only [hf, Bool.false_eq_true, if_false]

/-- Any other attempt ends the waiting with an error. -/
theorem topUpAttempt_cases (w : Verifier) (sessionID : String) (afterSeconds : Int64) :
    (∃ session e, topUpAttempt w sessionID afterSeconds = .done (session, some e)) ∨
      ∃ session, w.session sessionID = .ok session ∧ session.settled = false ∧
        topUpAttempt w sessionID afterSeconds =
          if afterSeconds < Int64.ofNat session.duration then .done (some session, none)
          else .again session := by
  cases hs : w.session sessionID with
  | error e => exact Or.inl ⟨none, _, by rw [topUpAttempt, hs]⟩
  | ok s =>
    cases hf : s.settled with
    | true =>
      refine Or.inl ⟨some s, .rejection "that session has already been settled", ?_⟩
      rw [topUpAttempt, hs]
      exact if_pos hf
    | false => exact Or.inr ⟨s, rfl, hf, topUpAttempt_of_read hs hf⟩

theorem topUpAttempt_ok_iff {w : Verifier} :
    topUpAttempt w sessionID afterSeconds = .done (some session, none) ↔
      w.session sessionID = .ok session ∧ session.settled = false ∧
        afterSeconds < Int64.ofNat session.duration := by
  constructor
  · intro h
    rcases topUpAttempt_cases w sessionID afterSeconds with ⟨_, _, hfails⟩ | ⟨s, hs, hf, hread⟩
    · rw [hfails] at h
      cases h
    · rw [hread] at h
      split_ifs at h with hlt
      cases h
      exact ⟨hs, hf, hlt⟩
  · rintro ⟨hs, hf, hlt⟩
    rw [topUpAttempt_of_read hs hf, if_pos hlt]

theorem topUpAttempt_again_iff {w : Verifier} :
    topUpAttempt w sessionID afterSeconds = .again session ↔
      w.session sessionID = .ok session ∧ session.settled = false ∧
        ¬ afterSeconds < Int64.ofNat session.duration := by
  constructor
  · intro h
    rcases topUpAttempt_cases w sessionID afterSeconds with ⟨_, _, hfails⟩ | ⟨s, hs, hf, hread⟩
    · rw [hfails] at h
      cases h
    · rw [hread] at h
      split_ifs at h with hlt
      cases h
      exact ⟨hs, hf, hlt⟩
  · rintro ⟨hs, hf, hlt⟩
    rw [topUpAttempt_of_read hs hf, if_neg hlt]

/-- Time is returned at the first attempt that finds more of it. -/
theorem awaitTopUp_ok_iff :
    awaitTopUp v done sessionID afterSeconds = (some session, none) ↔
      ∃ i < attempts, topUpAttempt (v i) sessionID afterSeconds = .done (some session, none) ∧
        Waits done i ∧ ∀ j < i, ∃ s, topUpAttempt (v j) sessionID afterSeconds = .again s := by
  have hgoal : awaitTopUp v done sessionID afterSeconds = (some session, none) ↔
      topUpAttempts v done sessionID afterSeconds = .inl (some session, none) := by
    unfold awaitTopUp
    cases topUpAttempts v done sessionID afterSeconds with
    | inl result => rw [Sum.inl.injEq]
    | inr last => simp
  rw [hgoal, topUpAttempts, retry_eq_inl_iff]
  simp only [SettledAt, Passed, Nat.zero_add, Option.map_eq_none_iff, Option.map_eq_some_iff,
    Prod.mk.injEq, reduceCtorEq, and_false, exists_false, or_false]
  constructor
  · rintro ⟨i, hi, hpassed, hok⟩
    exact ⟨i, by simp only [attempts] at hi ⊢; omega, hok, fun j hj => (hpassed j hj).2,
      fun j hj => (hpassed j hj).1⟩
  · rintro ⟨i, hi, hok, hwaits, hagain⟩
    exact ⟨i, by simp only [attempts] at hi ⊢; omega, fun j hj => ⟨hagain j hj, hwaits j hj⟩, hok⟩

/-- It is given up when the last attempt has found no more. -/
theorem awaitTopUp_noAdditionalTime
    (h : awaitTopUp v done sessionID afterSeconds = (some session, some .noAdditionalTime)) :
    topUpAttempt (v (attempts - 1)) sessionID afterSeconds = .again session := by
  unfold awaitTopUp at h
  cases hloop : topUpAttempts v done sessionID afterSeconds with
  | inl result =>
    -- no attempt, and no wait, says so
    rw [hloop] at h
    obtain rfl : result = (some session, some .noAdditionalTime) := h
    obtain ⟨i, -, -, hdone | ⟨-, -, hcut⟩⟩ := retry_eq_inl_iff.mp hloop
    · unfold topUpAttempt at hdone
      dsimp only at hdone
      split at hdone
      · cases hdone
      · split_ifs at hdone <;> cases hdone
    · obtain ⟨e, -, he⟩ := Option.map_eq_some_iff.mp hcut
      cases he
  | inr last =>
    rw [hloop] at h
    cases h
    have hgiven := (retry_eq_inr_iff.mp hloop).2
    rw [Nat.zero_add] at hgiven
    exact hgiven

end Loops

section Chain

variable {chain : Chain} {c : ℕ → Program.Config World Pc} {v : ℕ → Verifier}
  {sessions : ℕ → SessionId → Stored} {u : Unicode} {quote : Quote} {id : SessionId} {i j : ℕ}
  {txID path : String}

theorem Follows.reachable (h : Follows chain c v sessions) (i : ℕ) :
    (escrowSystem chain).Reachable (c i) := by
  induction i with
  | zero => exact h.start
  | succ i ih => exact Relation.ReflTransGen.trans ih (h.run i)

theorem Follows.later (h : Follows chain c v sessions) (hij : i ≤ j) :
    (escrowSystem chain).Run System.Any (c i) (c j) := by
  induction hij with
  | refl => exact Relation.ReflTransGen.refl
  | step _ ih => exact Relation.ReflTransGen.trans ih (h.run _)

/-- From any attempt on it follows the chain. -/
theorem Follows.drop (h : Follows chain c v sessions) (k : ℕ) :
    Follows chain (fun i => c (i + k)) (fun i => v (i + k)) fun i => sessions (i + k) where
  start := h.reachable _
  run i := by
    rw [Nat.add_right_comm]
    exact h.run _
  committed _ := h.committed _
  stored _ := h.stored _
  shows _ := h.shows _
  supply := h.supply

/-- An id that has a deposit has been opened. -/
theorem Follows.opened (h : Follows chain c v sessions) (hd : 0 < (sessions i id).1.deposited) :
    ((c i).state.sessions id).renter ≠ 0 := by
  intro hr
  have hzero := (SessionEscrow.recorded_of_reachable (h.reachable i) id).1 hr
  rw [h.stored, hzero] at hd
  exact absurd hd (Nat.lt_irrefl 0)

/-- The contract has priced every session, and there is not more money than there is. -/
theorem Follows.paid (h : Follows chain c v sessions) (i : ℕ) (id : SessionId) :
    (sessions i id).Paid := by
  have hsupply := h.supply
  obtain ⟨hzero, hle⟩ := SessionEscrow.recorded_of_reachable (h.reachable i) id
  rw [Stored.Paid, h.stored]
  refine ⟨?_, by omega⟩
  by_cases hr : ((c i).state.sessions id).renter = 0
  · rw [hzero hr]
    rfl
  · exact (SessionEscrow.priced_of_reachable (h.reachable i) id hr).1

/-- A price is paid for each second, so that no session has more seconds than there is money. -/
theorem Follows.duration_lt (h : Follows chain c v sessions)
    (hd : 0 < (sessions i id).1.deposited) : (sessions i id).1.duration < 2 ^ 63 := by
  obtain ⟨hpaid, hlt⟩ := h.paid i id
  have hprice : 0 < (sessions i id).1.pricePerSecond := by
    by_contra hzero
    rw [Nat.eq_zero_of_not_pos hzero, Nat.zero_mul] at hpaid
    omega
  have hle : (sessions i id).1.duration ≤ (sessions i id).1.deposited := by
    rw [hpaid]
    exact Nat.le_mul_of_pos_left _ hprice
  omega

/-- An attempt at which the transaction or the session cannot be read, or is not there yet, is no
rejection. -/
theorem Follows.not_rejected (h : Follows chain c v sessions) (hid : quote.Names id)
    (hpath : LooksUp txID path)
    (hnot : (∃ e, (v j).mirror.contractsResults path = .error e) ∨
      (∃ r, (v j).mirror.contractsResults path = .ok r ∧ Opens u (v j) r) ∧
        ((v j).Fails id ∨ (c j).state.sessions id = .zero)) :
    ∃ e, (v j).verifyDeposit u txID quote = .error e ∧ ∀ reason, e ≠ .rejection reason := by
  simp only [← contractResultByTransaction_eq (u := u) hpath] at hnot
  rcases hnot with ⟨e, he⟩ | ⟨⟨r, hr, hopens⟩, hsession⟩
  · cases e with
    | notFound path =>
      exact ⟨.notYetVisible, by rw [Verifier.verifyDeposit, he], fun _ hr => by cases hr⟩
    | other text => exact ⟨_, by rw [Verifier.verifyDeposit, he], fun _ hr => by cases hr⟩
  · have hfails : (v j).Fails id →
        ∃ e, (v j).verifyDeposit u txID quote = .error e ∧ ∀ reason, e ≠ .rejection reason := by
      intro hfails
      obtain ⟨text, htext⟩ := verifyDeposit_of_fails hfails hid hr hopens
      exact ⟨_, htext, fun _ hr => by cases hr⟩
    rcases hsession with hsession | hzero
    · exact hfails hsession
    · rcases h.shows j id with hread | hsession
      · rw [← h.stored] at hzero
        have htext := verifyDeposit_of_zero hread hid hzero hr hopens
        exact ⟨.notYetVisible, htext, fun _ hr => by cases hr⟩
      · exact hfails hsession

/-- **A deposit that is returned is secured.**  While the contract goes on, `AwaitDeposit` returns a
session just as some attempt shows it, as it was quoted; from then on, in every later state, the
deposit is with the node's account at the quoted price, and is split as it should be.  A deposit
that is shown at some attempt as it was quoted is returned, if before that the transaction or the
session could not be read, or was not there yet. -/
theorem awaitDeposit_secured (h : Follows chain c v sessions) (u : Unicode)
    (done : ℕ → ℕ → Option String) (txID : String) (quote : Quote) :
    (∀ session, awaitDeposit u v done txID quote = .ok session →
      ∃ i < attempts, ∃ id, quote.Names id ∧ session = (sessions i id).view ∧
        Meets u quote ((c i).state.sessions id) ∧
        ∀ d, (escrowSystem chain).Run System.Any (c i) d →
          Secured chain ((c i).state.sessions id) id d) ∧
    ∀ i < attempts, ∀ id path r, quote.Names id → LooksUp txID path →
      (v i).mirror.contractsResults path = .ok r → Opens u (v i) r →
      (v i).Reads id (sessions i id) → Meets u quote ((c i).state.sessions id) → Waits done i →
      (∀ j < i, (∃ e, (v j).mirror.contractsResults path = .error e) ∨
        (∃ r, (v j).mirror.contractsResults path = .ok r ∧ Opens u (v j) r) ∧
          ((v j).Fails id ∨ (c j).state.sessions id = .zero)) →
      awaitDeposit u v done txID quote = .ok (sessions i id).view := by
  constructor
  · intro session hok
    obtain ⟨i, hi, hverify, -, -⟩ := awaitDeposit_ok_iff.mp hok
    obtain ⟨-, -, id, -, -, -, hid, -, hmeets, hsession⟩ :=
      (verifyDeposit_iff (h.shows i) fun id _ => h.paid i id).mp hverify
    rw [h.stored] at hmeets
    refine ⟨i, hi, id, hid, hsession, hmeets, fun d hd => ?_⟩
    have hopened : ((c i).state.sessions id).renter ≠ 0 := by
      refine h.opened ?_
      rw [h.stored]
      exact hmeets.deposited
    exact SessionEscrow.secured_of_run (h.reachable i) (h.committed i) hopened hd
  · intro i hi id path r hid hpath hresult hopens hread hmeets hwaits hbefore
    rw [← h.stored] at hmeets
    refine awaitDeposit_ok_iff.mpr ⟨i, hi, ?_, hwaits, fun j hj => ?_⟩
    · exact (verifyDeposit_iff (h.shows i) fun id _ => h.paid i id).mpr
        ⟨path, r, id, hpath, hresult, hopens, hid, hread, hmeets, rfl⟩
    · exact h.not_rejected hid hpath (hbefore j hj)

/-- What a look at the time finds of an id with a deposit. -/
theorem Follows.topUpAttempt (h : Follows chain c v sessions) (afterSeconds : Int64)
    (hid : quote.Names id) (hd : 0 < (sessions i id).1.deposited) :
    (∀ session, Deposit.topUpAttempt (v i) quote.sessionID afterSeconds =
        .done (some session, none) ↔
      (v i).Reads id (sessions i id) ∧ session = (sessions i id).view ∧
        ((c i).state.sessions id).settled = false ∧
        afterSeconds.toInt < ((c i).state.sessions id).duration) ∧
    ((∃ s, Deposit.topUpAttempt (v i) quote.sessionID afterSeconds = .again s) ↔
      (v i).Reads id (sessions i id) ∧ ((c i).state.sessions id).settled = false ∧
        ((c i).state.sessions id).duration ≤ afterSeconds.toInt) := by
  have hread : ∀ session, (v i).session quote.sessionID = .ok session ↔
      (v i).Reads id (sessions i id) ∧ session = (sessions i id).view :=
    fun _ => session_ok_iff (h.shows i) hid
  have hshort := h.duration_lt hd
  have hlt : afterSeconds < Int64.ofNat (sessions i id).view.duration ↔
      afterSeconds.toInt < (sessions i id).1.duration := by
    rw [Int64.lt_iff_toInt_lt]
    show _ < (Int64.ofNat (sessions i id).1.duration).toInt ↔ _
    rw [Int64.toInt_ofNat_of_lt hshort]
  rw [← h.stored]
  constructor
  · intro session
    rw [topUpAttempt_ok_iff, hread]
    constructor
    · rintro ⟨⟨hr, rfl⟩, hs, hmore⟩
      exact ⟨hr, rfl, hs, hlt.mp hmore⟩
    · rintro ⟨hr, rfl, hs, hmore⟩
      exact ⟨⟨hr, rfl⟩, hs, hlt.mpr hmore⟩
  · simp only [topUpAttempt_again_iff, hread]
    constructor
    · rintro ⟨s, ⟨hr, rfl⟩, hs, hle⟩
      rw [hlt] at hle
      exact ⟨hr, hs, not_lt.mp hle⟩
    · rintro ⟨hr, hs, hle⟩
      exact ⟨_, ⟨hr, rfl⟩, hs, fun hmore => not_lt.mpr hle (hlt.mp hmore)⟩

/-- A deposit stays one, and its time only grows. -/
theorem Follows.grows (h : Follows chain c v sessions)
    (hd : 0 < ((c 0).state.sessions id).deposited) (hij : i ≤ j) :
    0 < (sessions i id).1.deposited ∧
      ((c i).state.sessions id).Kept ((c j).state.sessions id) := by
  have hopened : ((c 0).state.sessions id).renter ≠ 0 := by
    rw [← h.stored] at hd
    exact h.opened hd
  have hfirst := SessionEscrow.secured_of_run (h.reachable 0) (h.committed 0) hopened
    (h.later (Nat.zero_le i))
  have hkept := hfirst.kept
  have hpaid := (SessionEscrow.priced_of_reachable (h.reachable 0) id hopened).1
  have hpositive : 0 < ((c i).state.sessions id).deposited := by
    rw [hfirst.paid, hkept.pricePerSecond]
    refine lt_of_lt_of_le hd ?_
    rw [hpaid]
    exact Nat.mul_le_mul_left _ hkept.duration
  rw [← h.stored i id] at hpositive
  exact ⟨hpositive, SessionEscrow.kept_of_run (h.committed i) (h.opened hpositive) (h.later hij)⟩

/-- **Time that is returned is paid for.**  While the contract goes on, `AwaitTopUp` returns a
session just if some attempt, with every read up to it answered, shows it unsettled with more time
than the node has; all of the time it returns is then secured.  It finds no additional time only if
there is none at any attempt. -/
theorem awaitTopUp_secured (h : Follows chain c v sessions) (done : ℕ → ℕ → Option String)
    (quote : Quote) (afterSeconds : Int64) (id : SessionId) (hid : quote.Names id)
    (hd : 0 < ((c 0).state.sessions id).deposited) :
    ((∃ session, awaitTopUp v done quote.sessionID afterSeconds = (some session, none)) ↔
      ∃ i < attempts, Waits done i ∧ (∀ j ≤ i, (v j).Reads id (sessions j id)) ∧
        ((c i).state.sessions id).settled = false ∧
        afterSeconds.toInt < ((c i).state.sessions id).duration) ∧
    (∀ session, awaitTopUp v done quote.sessionID afterSeconds = (some session, none) →
      ∃ i < attempts, session = (sessions i id).view ∧
        afterSeconds.toInt < ((c i).state.sessions id).duration ∧
        ∀ d, (escrowSystem chain).Run System.Any (c i) d →
          Secured chain ((c i).state.sessions id) id d) ∧
    ∀ session, awaitTopUp v done quote.sessionID afterSeconds =
        (some session, some .noAdditionalTime) →
      ∀ i < attempts, ((c i).state.sessions id).duration ≤ afterSeconds.toInt := by
  have hlook := fun i => h.topUpAttempt afterSeconds hid (h.grows hd (le_refl i)).1
  have hreturned : ∀ session,
      awaitTopUp v done quote.sessionID afterSeconds = (some session, none) →
      ∃ i < attempts, session = (sessions i id).view ∧ Waits done i ∧
        (∀ j ≤ i, (v j).Reads id (sessions j id)) ∧
        ((c i).state.sessions id).settled = false ∧
        afterSeconds.toInt < ((c i).state.sessions id).duration := by
    intro session hok
    obtain ⟨i, hi, hfound, hwaits, hbefore⟩ := awaitTopUp_ok_iff.mp hok
    obtain ⟨hread, rfl, hs, hmore⟩ := ((hlook i).1 session).mp hfound
    refine ⟨i, hi, rfl, hwaits, fun j hj => ?_, hs, hmore⟩
    rcases Nat.lt_or_eq_of_le hj with hlt | rfl
    · exact ((hlook j).2.mp (hbefore j hlt)).1
    · exact hread
  refine ⟨⟨?_, ?_⟩, ?_, ?_⟩
  · rintro ⟨session, hok⟩
    obtain ⟨i, hi, -, hfound⟩ := hreturned session hok
    exact ⟨i, hi, hfound⟩
  · intro hexists
    -- the first attempt that shows more time
    classical
    let i := Nat.find hexists
    obtain ⟨hi, hwaits, hreads, hs, hmore⟩ : i < attempts ∧ Waits done i ∧
        (∀ j ≤ i, (v j).Reads id (sessions j id)) ∧ ((c i).state.sessions id).settled = false ∧
        afterSeconds.toInt < ((c i).state.sessions id).duration := Nat.find_spec hexists
    have hfound := ((hlook i).1 _).mpr ⟨hreads i le_rfl, rfl, hs, hmore⟩
    refine ⟨_, awaitTopUp_ok_iff.mpr ⟨i, hi, hfound, hwaits, fun j hj => (hlook j).2.mpr ?_⟩⟩
    have hlive : ((c j).state.sessions id).settled = false := by
      by_contra hsettled
      rw [Bool.not_eq_false] at hsettled
      rw [(h.grows hd (Nat.le_of_lt hj)).2.settled hsettled, hsettled] at hs
      cases hs
    refine ⟨hreads j (Nat.le_of_lt hj), hlive, ?_⟩
    by_contra hless
    exact Nat.find_min hexists hj ⟨hj.trans hi, fun k hk => hwaits k (hk.trans hj),
      fun k hk => hreads k (hk.trans (Nat.le_of_lt hj)), hlive, not_le.mp hless⟩
  · intro session hok
    obtain ⟨i, hi, hsession, -, -, -, hmore⟩ := hreturned session hok
    exact ⟨i, hi, hsession, hmore, fun d hd' => SessionEscrow.secured_of_run (h.reachable i)
      (h.committed i) (h.opened (h.grows hd le_rfl).1) hd'⟩
  · intro session hnone i hi
    obtain ⟨-, -, hlast⟩ :=
      (hlook (attempts - 1)).2.mp ⟨session, awaitTopUp_noAdditionalTime hnone⟩
    have hgrows := (h.grows hd (show i ≤ attempts - 1 by omega)).2.duration
    omega

end Chain

/-! ### Ten minutes -/

/-- A chain of one hundred HBAR. -/
def hundredHbar : Chain where
  self := 0xd583d91742f8888f5b106c3f3c854eacd7db7143
  supply := 10 ^ 10
  supply_lt := by norm_num [SessionEscrow.wordSize]

/-- The session of the examples. -/
def tenMinutesId : SessionId :=
  (0x1111111111111111111111111111111111111111111111111111111111111111 : SessionId)

/-- Ten minutes have been paid for. -/
def tenMinutesOpened : World :=
  { World.initial hundredHbar with
    sessions := Function.update (fun _ => .zero) tenMinutesId tenMinutes.1
    log := [.sessionOpened tenMinutesId tenMinutes.1.renter tenMinutes.1.provider 3334 600 2000400
      1757600000]
    balance := 2000400
    elsewhere := 10 ^ 10 - 2000400
    timestamp := 1757600000 }

theorem tenMinutesOpened_reachable :
    (escrowSystem hundredHbar).Reachable ⟨tenMinutesOpened, []⟩ := by
  have hexec : (escrowSystem hundredHbar).exec System.Any ⟨World.initial hundredHbar, []⟩
      [.env (.advance 1757600000),
        .call ⟨tenMinutes.1.renter, 2000400,
          .openSession tenMinutesId tenMinutes.1.provider 3334 600⟩, .run] =
      some ⟨tenMinutesOpened, []⟩ := by rfl
  exact System.run_of_exec hexec

/-- The session before it is opened. -/
def Stored.zero : Stored where
  val := .zero
  property := by simp [SessionEscrow.Session.zero]

/-- Five minutes more. -/
def fifteenMinutes : Stored where
  val := { tenMinutes.1 with duration := 900, deposited := 3000600 }
  property := by norm_num [tenMinutes]

/-- They have been paid for too. -/
def fifteenMinutesPaid : World :=
  { tenMinutesOpened with
    sessions := Function.update tenMinutesOpened.sessions tenMinutesId fifteenMinutes.1
    log := tenMinutesOpened.log ++ [.sessionToppedUp tenMinutesId 300 900 3000600]
    balance := 3000600
    elsewhere := 10 ^ 10 - 3000600 }

/-- The contract at each attempt. -/
def minutesWorld : ℕ → World
  | 0 => World.initial hundredHbar
  | 1 => tenMinutesOpened
  | _ => fifteenMinutesPaid

/-- What it has stored. -/
def minutesStored : ℕ → Stored
  | 0 => .zero
  | 1 => tenMinutes
  | _ => fifteenMinutes

/-- At the first attempt the mirror node has nothing, and cannot be asked for the session. -/
def lateMinutes (i : ℕ) : Verifier where
  contract := servesTenMinutes.contract
  mirror := {
    contractsResults := fun path =>
      if i = 0 then .error (.notFound path) else servesTenMinutes.mirror.contractsResults path
    contractsCall := fun request =>
      let s := if request = servesTenMinutes.getSession tenMinutesId then minutesStored i else .zero
      if i = 0 then .error (.other "timeout")
      else .ok ("0x" ++ String.ofList (encodeHex (Form.bare.encode s))) }

/-- The bytes of an id are its own. -/
theorem idBytes_injective : Function.Injective fun id : SessionId => bigEndian 32 id.val := by
  intro a b h
  have hbound : ∀ id : SessionId, id.val < 256 ^ 32 :=
    fun id => lt_of_lt_of_eq id.isLt (by norm_num)
  exact Fin.ext ((bigEndian_inj (hbound a) (hbound b)).mp h)

theorem getSession_injective (v : Verifier) : Function.Injective v.getSession := by
  intro a b h
  have hdata := congrArg (fun r : CallRequest => r.data.toList) h
  simp only [Verifier.getSession, String.toList_append, String.toList_ofList,
    List.append_cancel_left_eq] at hdata
  exact idBytes_injective (encodeHex_injective hdata)

theorem follows_minutes : Follows hundredHbar (fun i => ⟨minutesWorld i, []⟩) lateMinutes
    fun i => Function.update (fun _ => .zero) tenMinutesId (minutesStored i) where
  start := Relation.ReflTransGen.refl
  run
    | 0 => tenMinutesOpened_reachable
    | 1 => by
      have hexec : (escrowSystem hundredHbar).exec System.Any ⟨tenMinutesOpened, []⟩
          [.call ⟨tenMinutes.1.renter, 1000200, .topUp tenMinutesId 300⟩, .run] =
          some ⟨fifteenMinutesPaid, []⟩ := by rfl
      exact System.run_of_exec hexec
    | _ + 2 => Relation.ReflTransGen.refl
  committed _ := rfl
  stored i id := by
    by_cases hid : id = tenMinutesId
    · subst hid
      match i with
      | 0 => rfl
      | 1 => rfl
      | _ + 2 => rfl
    · rw [Function.update_of_ne hid]
      match i with
      | 0 => rfl
      | 1 =>
        simp only [minutesWorld, tenMinutesOpened, Function.update_of_ne hid]
        rfl
      | _ + 2 =>
        simp only [minutesWorld, fifteenMinutesPaid, tenMinutesOpened, Function.update_of_ne hid]
        rfl
  shows i id := by
    by_cases hi : i = 0
    · exact .inr ⟨.other "timeout", by simp only [lateMinutes, if_pos hi]⟩
    · have hsame : (lateMinutes i).getSession id = servesTenMinutes.getSession tenMinutesId ↔
          id = tenMinutesId := (getSession_injective servesTenMinutes).eq_iff
      refine .inl ⟨.bare, ?_⟩
      show (if i = 0 then .error (MirrorError.other "timeout") else Except.ok ("0x" ++ String.ofList
        (encodeHex (Form.bare.encode (if (lateMinutes i).getSession id =
          servesTenMinutes.getSession tenMinutesId then minutesStored i else .zero))))) = _
      rw [if_neg hi, if_congr hsame rfl rfl, Function.update_apply]
  supply := by decide

/-- A quote names one session. -/
theorem names_inj {quote : Quote} {a b : SessionId} (ha : quote.Names a) (hb : quote.Names b) :
    a = b :=
  idBytes_injective (Except.ok.inj (ha.symm.trans hb))

theorem meets_tenMinutes : Meets .ascii quoteTenMinutes (tenMinutesOpened.sessions tenMinutesId) :=
  ⟨by decide, spells_iff.mpr (by decide +kernel), rfl, by decide, rfl⟩

theorem opens_tenMinutes : Opens .ascii (lateMinutes 1)
    ⟨"SUCCESS", "0.0.5005", "0xD583D91742F8888F5B106C3F3C854EACD7DB7143", "0x5ea02ad0", ""⟩ := by
  refine ⟨rfl, .inl ?_, [], rfl⟩
  constructor <;> decide +kernel

theorem reads_minutes {i : ℕ} (hi : i ≠ 0) :
    (lateMinutes i).Reads tenMinutesId
      (Function.update (fun _ => Stored.zero) tenMinutesId (minutesStored i) tenMinutesId) := by
  rcases follows_minutes.shows i tenMinutesId with hread | ⟨e, he⟩
  · exact hread
  · simp only [lateMinutes, if_neg hi] at he
    cases he

/-- The second attempt finds them, and they are secured. -/
theorem awaitDeposit_secured_tenMinutes :
    awaitDeposit .ascii lateMinutes (fun _ _ => none) "0.0.1@1757600000.5" quoteTenMinutes =
        .ok tenMinutes.view ∧
      ∃ i, Secured hundredHbar ((minutesWorld i).sessions tenMinutesId) tenMinutesId
        ⟨minutesWorld i, []⟩ := by
  have hid : quoteTenMinutes.Names tenMinutesId := rfl
  have hboth := awaitDeposit_secured follows_minutes .ascii (fun _ _ => none)
    "0.0.1@1757600000.5" quoteTenMinutes
  have hok := hboth.2 1 (by decide) tenMinutesId _ _ hid looksUp_tenMinutes rfl opens_tenMinutes
    (reads_minutes one_ne_zero) meets_tenMinutes (fun _ _ => rfl) fun j hj => by
      obtain rfl : j = 0 := by omega
      exact .inl ⟨_, rfl⟩
  have hview : (Function.update (fun _ => Stored.zero) tenMinutesId (minutesStored 1)
      tenMinutesId).view = tenMinutes.view := by
    rw [Function.update_self]
    rfl
  rw [hview] at hok
  obtain ⟨i, -, id, hnames, -, -, hsecured⟩ := hboth.1 _ hok
  obtain rfl : tenMinutesId = id := names_inj hid hnames
  exact ⟨hok, i, hsecured _ Relation.ReflTransGen.refl⟩

/-- A node that knows of ten minutes asks too early, and then learns of fifteen. -/
theorem awaitTopUp_secured_tenMinutes :
    ∃ session, awaitTopUp (fun i => lateMinutes (i + 1)) (fun _ _ => none)
      quoteTenMinutes.sessionID 600 = (some session, none) := by
  refine (awaitTopUp_secured (follows_minutes.drop 1) (fun _ _ => none) quoteTenMinutes 600
    tenMinutesId rfl (by decide)).1.mpr ⟨1, by decide, fun _ _ => rfl,
      fun j _ => reads_minutes (Nat.succ_ne_zero j), rfl, by decide⟩

end Deposit
end Mach402
