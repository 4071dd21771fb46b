import Mach402.Library.Threads
import Mach402.Agent.CreateSession

/-!
# The facilitator's fee payer

Every challenge names the account that the facilitator pays its fees with, as the facilitator
advertises it.  `Supported` keeps an answer for five minutes, for any number of requests at once,
and falls back on an old one while the facilitator cannot be reached.

* `Cache`, `act`: `Supported`, from one lock to the next;
* `SupportedResponse.kind`, `challenge`: `Kind` and `BuildChallenge`, on what it returns;
* `Timely`: an answer is kept within some time of its being given.  An older answer may replace a
  newer one, and this is how much older it can be;
* `challenge_current`: what a challenge names was advertised shortly before.
-/

namespace Mach402
namespace Facilitator

/-! ### Answers -/

/-- A value of a `map[string]any`. -/
inductive Any
  | text (s : String)
  | other
  deriving DecidableEq

/-- `SupportedKind`: a way to pay that the facilitator settles. -/
structure SupportedKind where
  scheme : String
  network : String
  extra : List (String × Any)
  deriving DecidableEq

/-- `SupportedResponse`. -/
structure SupportedResponse where
  kinds : List SupportedKind
  deriving DecidableEq

/-- `FeePayer`: an empty text is none. -/
def SupportedKind.feePayer (k : SupportedKind) : Option String :=
  match k.extra.lookup "feePayer" with
  | some (.text feePayer) => if feePayer = "" then none else some feePayer
  | _ => none

/-- `Kind`, once `Supported` has returned. -/
def SupportedResponse.kind (r : SupportedResponse) (baseURL scheme network : String) :
    Except String SupportedKind :=
  match r.kinds.find? fun k => k.scheme = scheme ∧ k.network = network with
  | some k => .ok k
  | none =>
    let seen := r.kinds.map fun k => k.scheme ++ "/" ++ k.network
    .error ("facilitator " ++ baseURL ++ " does not support " ++ scheme ++ "/" ++ network ++
      " (advertises: " ++ ", ".intercalate seen ++ ")")

/-- The fee payer of a challenge, or why there is none. -/
def challengeFeePayer (baseURL network : String) (supported : Except String SupportedResponse) :
    Except String String :=
  match supported with
  | .error err => .error ("facilitator /supported: " ++ err)
  | .ok r =>
    match r.kind baseURL "exact" network with
    | .error err => .error err
    | .ok k =>
      match k.feePayer with
      | none => .error ("facilitator advertises exact/" ++ network ++ " without extra.feePayer")
      | some feePayer => .ok feePayer

/-- `BuildChallenge`, once `Supported` has returned. -/
def challenge (cfg : PaymentConfig) (baseURL : String) (q : CreateRequest)
    (supported : Except String SupportedResponse) (reason amount description : String) :
    Option PaymentRequired :=
  buildChallenge cfg q (challengeFeePayer baseURL cfg.network supported).toOption reason amount
    description

/-! ### The cache -/

/-- Five minutes. -/
def supportedTTL : ℕ := 300000000000

/-- An answer that is kept, when it was stored, and when it had been given. -/
structure Entry where
  body : SupportedResponse
  cachedAt : ℕ
  answeredAt : ℕ
  deriving DecidableEq

/-- What is cached, the clock, and a record of the answers and of what has been stored. -/
structure Cache where
  cached : Option Entry
  now : ℕ
  answers : List (SupportedResponse × ℕ)
  stored : List Entry

/-- Nothing has been asked yet. -/
def Cache.initial (now : ℕ) : Cache := ⟨none, now, [], []⟩

/-- What a call does to the cache, in one locked section or in none. -/
inductive Op
  | idle
  | answer (body : SupportedResponse)
  | store (body : SupportedResponse) (answeredAt : ℕ)
  deriving DecidableEq

/-- What it does. -/
def Cache.apply (s : Cache) : Op → Cache
  | .idle => s
  | .answer body => { s with answers := s.answers ++ [(body, s.now)] }
  | .store body answeredAt =>
    let e : Entry := ⟨body, s.now, answeredAt⟩
    { s with cached := some e, stored := s.stored ++ [e] }

/-- Where a call of `Supported` is.  `fetching` is outside of the lock. -/
inductive Pc
  | supported
  | fetching
  | failed (err : String)
  | fetched (body : SupportedResponse) (answeredAt : ℕ)
  /-- What it returns, when, and whether it has failed to ask. -/
  | done (result : Except String SupportedResponse) (returnedAt : ℕ) (stale : Bool)
  deriving DecidableEq

/-- The next step of a call.  The outcome is the facilitator's answer. -/
def act (s : Cache) : Pc → Except String SupportedResponse → Option (Op × Pc)
  | .supported, _ =>
    match s.cached with
    | some e =>
      if s.now - e.cachedAt < supportedTTL then some (.idle, .done (.ok e.body) s.now false)
      else some (.idle, .fetching)
    | none => some (.idle, .fetching)
  | .fetching, .ok body => some (.answer body, .fetched body s.now)
  | .fetching, .error err => some (.idle, .failed err)
  | .failed err, _ =>
    match s.cached with
    | some e => some (.idle, .done (.ok e.body) s.now true)
    | none => some (.idle, .done (.error err) s.now true)
  | .fetched body answeredAt, _ => some (.store body answeredAt, .done (.ok body) s.now false)
  | .done .., _ => none

/-- **Any number of calls.**  The environment lets time pass. -/
def facilitator : Machine Cache Op Pc (Except String SupportedResponse) Unit ℕ where
  act := act
  apply := Cache.apply
  start _ := .supported
  env s ns := { s with now := s.now + ns }

/-- The runs of any number of calls at once. -/
abbrev facilitatorSystem (now : ℕ) := facilitator.system (Cache.initial now)

/-- The cache and the calls under way. -/
abbrev Config := Machine.Config Cache Pc

/-- An answer is stored within `lag` of its being given. -/
def Pc.timely (lag : ℕ) (s : Cache) : Pc → Bool
  | .fetched _ answeredAt => s.now ≤ answeredAt + lag
  | _ => true

/-- Answers are stored within `lag`. -/
abbrev Timely (lag : ℕ) : Config → Machine.Label (Except String SupportedResponse) Unit ℕ → Prop :=
  Machine.Guard fun c _ p _ => p.timely lag c.shared

/-! ### What is kept -/

/-- The facilitator has given the answer. -/
def Cache.Said (s : Cache) (body : SupportedResponse) (t : ℕ) : Prop :=
  (body, t) ∈ s.answers ∧ t ≤ s.now

/-- What is stored are answers, none of them too late, and the last one is cached. -/
structure Cache.Sound (lag : ℕ) (s : Cache) : Prop where
  last : s.cached = s.stored.getLast?
  stored : ∀ e ∈ s.stored, s.Said e.body e.answeredAt ∧ e.cachedAt ≤ s.now ∧
    e.cachedAt ≤ e.answeredAt + lag

/-- What a call knows. -/
def Pc.Knows (lag : ℕ) (s : Cache) : Pc → Prop
  | .fetched body answeredAt => s.Said body answeredAt
  | .done (.ok body) returnedAt stale => ∃ t, s.Said body t ∧ t ≤ returnedAt ∧
      (stale = false → returnedAt < t + supportedTTL + lag)
  | .done (.error _) returnedAt stale => stale = true ∧ returnedAt ≤ s.now ∧
      ∀ e ∈ s.stored, returnedAt ≤ e.cachedAt
  | _ => True

section Facilitator

variable {lag : ℕ} {s : Cache} {op : Op} {p p' : Pc} {o : Except String SupportedResponse}
  {body : SupportedResponse} {t : ℕ} {c : Config}

/-- What a step does. -/
inductive Acts (s : Cache) : Pc → Op → Pc → Prop
  | fresh {e : Entry} (he : s.cached = some e) (hlt : s.now - e.cachedAt < supportedTTL) :
    Acts s .supported .idle (.done (.ok e.body) s.now false)
  | ask : Acts s .supported .idle .fetching
  | answered {body : SupportedResponse} : Acts s .fetching (.answer body) (.fetched body s.now)
  | unreachable {err : String} : Acts s .fetching .idle (.failed err)
  | stale {err : String} {e : Entry} (he : s.cached = some e) :
    Acts s (.failed err) .idle (.done (.ok e.body) s.now true)
  | nothing {err : String} (hnone : s.cached = none) :
    Acts s (.failed err) .idle (.done (.error err) s.now true)
  | store {body : SupportedResponse} {answeredAt : ℕ} :
    Acts s (.fetched body answeredAt) (.store body answeredAt) (.done (.ok body) s.now false)

theorem acts_of_act (ha : act s p o = some (op, p')) : Acts s p op p' := by
  cases p with
  | supported =>
    cases he : s.cached with
    | none =>
      simp only [act, he] at ha
      cases ha
      exact .ask
    | some e =>
      simp only [act, he] at ha
      split_ifs at ha with hlt
      · cases ha
        exact .fresh he hlt
      · cases ha
        exact .ask
  | fetching =>
    cases o with
    | ok body => cases ha; exact .answered
    | error err => cases ha; exact .unreachable
  | failed err =>
    cases he : s.cached with
    | none =>
      simp only [act, he] at ha
      cases ha
      exact .nothing he
    | some e =>
      simp only [act, he] at ha
      cases ha
      exact .stale he
  | fetched body answeredAt => cases ha; exact .store
  | done => cases ha

theorem Cache.Said.apply (h : s.Said body t) (op : Op) : (s.apply op).Said body t := by
  cases op with
  | idle | store => exact h
  | answer body' => exact ⟨List.mem_append_left _ h.1, h.2⟩

theorem Cache.Said.later (h : s.Said body t) (ns : ℕ) :
    Cache.Said { s with now := s.now + ns } body t :=
  ⟨h.1, h.2.trans (Nat.le_add_right _ _)⟩

theorem Cache.said_answer (s : Cache) (body : SupportedResponse) :
    (s.apply (.answer body)).Said body s.now :=
  ⟨List.mem_append_right _ List.mem_cons_self, le_rfl⟩

theorem Cache.Sound.cached (h : s.Sound lag) {e : Entry} (he : s.cached = some e) :
    s.Said e.body e.answeredAt ∧ e.cachedAt ≤ s.now ∧ e.cachedAt ≤ e.answeredAt + lag := by
  rw [h.last] at he
  exact h.stored e (List.mem_of_getLast? he)

/-- What is stored later is stored no earlier. -/
theorem Pc.Knows.apply (h : p.Knows lag s) (op : Op) : p.Knows lag (s.apply op) := by
  cases p with
  | supported | fetching | failed => trivial
  | fetched body answeredAt => exact Cache.Said.apply h op
  | done result returnedAt stale =>
    cases result with
    | ok body =>
      obtain ⟨t, hsaid, hle, hfresh⟩ := h
      exact ⟨t, hsaid.apply op, hle, hfresh⟩
    | error err =>
      obtain ⟨hstale, hnow, hbefore⟩ := h
      cases op with
      | idle | answer => exact ⟨hstale, hnow, hbefore⟩
      | store body answeredAt =>
        refine ⟨hstale, hnow, fun e he => ?_⟩
        rcases List.mem_append.mp he with he | he
        · exact hbefore e he
        · rw [List.mem_singleton.mp he]
          exact hnow

/-- **Every step** keeps the cache sound, and tells its call what it needs. -/
theorem Acts.sound (ha : Acts s p op p') (hI : s.Sound lag) (hp : p.Knows lag s)
    (htime : p.timely lag s = true) : (s.apply op).Sound lag ∧ p'.Knows lag (s.apply op) := by
  cases ha with
  | ask | unreachable => exact ⟨hI, trivial⟩
  | fresh he hlt =>
    obtain ⟨hsaid, hnow, hlag⟩ := hI.cached he
    refine ⟨hI, _, hsaid, hsaid.2, fun _ => ?_⟩
    omega
  | stale he =>
    obtain ⟨hsaid, -, -⟩ := hI.cached he
    exact ⟨hI, _, hsaid, hsaid.2, nofun⟩
  | nothing hnone =>
    refine ⟨hI, rfl, le_rfl, fun e he => ?_⟩
    rw [hI.last, List.getLast?_eq_none_iff] at hnone
    have hmem : e ∈ s.stored := he
    rw [hnone] at hmem
    cases hmem
  | @answered body =>
    refine ⟨⟨hI.last, fun e he => ?_⟩, s.said_answer body⟩
    obtain ⟨hsaid, hrest⟩ := hI.stored e he
    exact ⟨hsaid.apply _, hrest⟩
  | @store body answeredAt =>
    have hlag : s.now ≤ answeredAt + lag := of_decide_eq_true htime
    have hsaid : s.Said body answeredAt := hp
    refine ⟨⟨(List.getLast?_concat ..).symm, fun e he => ?_⟩, answeredAt, hsaid, hsaid.2,
      fun _ => ?_⟩
    · rcases List.mem_append.mp he with he | he
      · exact hI.stored e he
      · rw [List.mem_singleton.mp he]
        exact ⟨hsaid, le_rfl, hlag⟩
    · have : 0 < supportedTTL := by decide
      omega

/-- The cache is sound, and every call knows what it returns. -/
def cacheOutline (lag now : ℕ) :
    Machine.Outline facilitator (Cache.initial now) (Timely lag) where
  I := Cache.Sound lag
  A s p := p.Knows lag s
  X _ _ := True
  init := ⟨rfl, nofun⟩
  symm _ _ _ := trivial
  start _ _ := trivial
  apart _ _ := trivial
  envI s ns h := by
    refine ⟨h.last, fun e he => ?_⟩
    obtain ⟨hsaid, hnow, hlag⟩ := h.stored e he
    exact ⟨hsaid.later ns, hnow.trans (Nat.le_add_right _ _), hlag⟩
  envA s ns p h := by
    cases p with
    | supported | fetching | failed => trivial
    | fetched => exact Cache.Said.later h ns
    | done result returnedAt stale =>
      cases result with
      | ok body =>
        obtain ⟨t, hsaid, hle, hfresh⟩ := h
        exact ⟨t, hsaid.later ns, hle, hfresh⟩
      | error err => exact ⟨h.1, h.2.1.trans (Nat.le_add_right _ _), h.2.2⟩
  act _ _ _ _ _ _ _ hp hC hI hA ha := (acts_of_act ha).sound hI hA (hC.run hp)
  free _ _ _ _ _ _ op _ _ _ _ _ _ _ _ hq _ _ := ⟨hq.apply op, trivial⟩

/-! ### Challenges -/

/-- A kind that is found is the first one of its scheme and network. -/
theorem SupportedResponse.kind_ok {r : SupportedResponse} {baseURL scheme network : String}
    {k : SupportedKind} (h : r.kind baseURL scheme network = .ok k) :
    k ∈ r.kinds ∧ k.scheme = scheme ∧ k.network = network := by
  unfold SupportedResponse.kind at h
  split at h
  · rename_i k' hfind
    cases h
    have hk := List.find?_some hfind
    simp only [decide_eq_true_eq] at hk
    exact ⟨List.mem_of_find?_eq_some hfind, hk⟩
  · cases h

theorem challengeFeePayer_ok {baseURL network feePayer : String}
    {supported : Except String SupportedResponse}
    (h : challengeFeePayer baseURL network supported = .ok feePayer) :
    ∃ r k, supported = .ok r ∧ k ∈ r.kinds ∧ k.scheme = "exact" ∧ k.network = network ∧
      k.feePayer = some feePayer := by
  unfold challengeFeePayer at h
  split at h
  · cases h
  · rename_i r
    split at h
    · cases h
    · rename_i k hkind
      split at h
      · cases h
      · rename_i payer hpayer
        cases h
        obtain ⟨hmem, hscheme, hnetwork⟩ := SupportedResponse.kind_ok hkind
        exact ⟨r, k, rfl, hmem, hscheme, hnetwork, hpayer⟩

end Facilitator

/-- **A challenge is current.**  In every run in which answers are stored within `lag` of their
being given, whatever requests come at once: a challenge asks for this node's own terms, and names a
fee payer that the facilitator has advertised for them, at most five minutes and `lag` before,
unless it could not be reached.  `Supported` fails only if it could not be reached, and nothing has
been stored before then. -/
theorem challenge_current {lag now : ℕ} {c : Config}
    (h : (facilitatorSystem now).Reach (Timely lag) c) {i : ℕ}
    {supported : Except String SupportedResponse} {returnedAt : ℕ} {stale : Bool}
    (hp : c.threads[i]? = some (.done supported returnedAt stale)) :
    (∀ cfg baseURL q reason amount description ch,
      challenge cfg baseURL q supported reason amount description = some ch →
      ∃ r k feePayer t, (r, t) ∈ c.shared.answers ∧ k ∈ r.kinds ∧ k.scheme = "exact" ∧
        k.network = cfg.network ∧ k.feePayer = some feePayer ∧
        ch.accepts = [ownRequirements cfg amount feePayer] ∧ t ≤ returnedAt ∧
        (stale = false → returnedAt < t + supportedTTL + lag)) ∧
    ∀ err, supported = .error err → stale = true ∧ ∀ e ∈ c.shared.stored,
      returnedAt ≤ e.cachedAt := by
  have hknows := ((cacheOutline lag now).holds h).annot i _ hp
  constructor
  · intro cfg baseURL q reason amount description ch hch
    obtain ⟨feePayer, hpayer, rfl⟩ := Option.map_eq_some_iff.mp hch
    cases hfee : challengeFeePayer baseURL cfg.network supported with
    | error err =>
      rw [hfee] at hpayer
      cases hpayer
    | ok payer =>
      rw [hfee] at hpayer
      cases hpayer
      obtain ⟨r, k, rfl, hk, hscheme, hnetwork, hkp⟩ := challengeFeePayer_ok hfee
      obtain ⟨t, hsaid, hle, hfresh⟩ := hknows
      exact ⟨r, k, feePayer, t, hsaid.1, hk, hscheme, hnetwork, hkp, rfl, hle, hfresh⟩
  · rintro err rfl
    exact ⟨hknows.1, hknows.2.2⟩

/-! ### A rotation -/

/-- What is advertised with this fee payer. -/
def advertises (feePayer : String) : SupportedResponse where
  kinds := [⟨"exact", "hedera:testnet", [("feePayer", .text feePayer)]⟩]

/-- Two requests ask at once.  The first is answered before the fee payer changes and the second one
after it; the first answer is stored last, and a third request is served it. -/
def overtaken : List (Machine.Label (Except String SupportedResponse) Unit ℕ) :=
  [.start (), .start (), .run 0 (.error ""), .run 1 (.error ""),
    .run 0 (.ok (advertises "0.0.7162784")), .env 1000, .run 1 (.ok (advertises "0.0.7162785")),
    .run 1 (.error ""), .run 0 (.error ""), .start (), .env 500, .run 2 (.error "")]

/-- The third request is given the older answer, which is still current. -/
theorem challenge_current_overtaken : ∃ c, (facilitatorSystem 0).Reach (Timely 1000) c ∧
    c.threads[2]? = some (.done (.ok (advertises "0.0.7162784")) 1500 false) ∧
    ∀ cfg baseURL q reason amount description ch,
      challenge cfg baseURL q (.ok (advertises "0.0.7162784")) reason amount description = some ch →
      ∃ r k feePayer t, (r, t) ∈ c.shared.answers ∧ k ∈ r.kinds ∧ k.feePayer = some feePayer ∧
        ch.accepts = [ownRequirements cfg amount feePayer] ∧
        1500 < t + supportedTTL + 1000 := by
  obtain ⟨c, hc, hp⟩ := System.exists_reach (S := facilitatorSystem 0) (C := Timely 1000)
    (p := fun c : Config => decide (c.threads[2]? =
      some (Pc.done (.ok (advertises "0.0.7162784")) 1500 false))) overtaken (by decide +kernel)
  have hdone := of_decide_eq_true hp
  refine ⟨c, hc, hdone, fun cfg baseURL q reason amount description ch hch => ?_⟩
  obtain ⟨r, k, feePayer, t, hsaid, hk, -, -, hpayer, haccepts, -, hfresh⟩ :=
    (challenge_current hc hdone).1 cfg baseURL q reason amount description ch hch
  exact ⟨r, k, feePayer, t, hsaid, hk, hpayer, haccepts, hfresh rfl⟩

end Facilitator
end Mach402
