import Mach402.Agent.NodeInvariant
import Mach402.Agent.Resources
import Mach402.Library.Decimal

/-!
# Opening a session

`handleCreateSession` by itself, from the request to the answer: the payment is verified, the lease
is provisioned and published, and only then is the payment settled.  The calls to the outside are
recorded, and their outcomes are free.

* `PaymentRequirements`, `VerifyRequest`, `Call`: what the facilitator is asked;
* `Outside`: the outcomes of the calls;
* `collectPayment`, `startLease`, `publishLease`, `settleOpening`, `handleCreateSession`;
* `create_all_or_nothing`: what is settled is what was verified, once the session answers; and a
  request that is not answered with a session has settled nothing and holds no slot.
-/

namespace Mach402

/-! ### The facilitator -/

/-- `x402.ResourceInfo`, as a challenge fills it in. -/
structure ResourceInfo where
  url : String
  description : String
  mimeType : String
  serviceName : String
  deriving DecidableEq, Repr

/-- `x402.PaymentRequirements`; its `extra` is the fee payer. -/
structure PaymentRequirements where
  scheme : String
  network : String
  amount : String
  asset : String
  payTo : String
  maxTimeoutSeconds : ℤ
  feePayer : String
  deriving DecidableEq, Repr

/-- `x402.PaymentRequired`. -/
structure PaymentRequired where
  x402Version : ℕ
  error : String
  resource : ResourceInfo
  accepts : List PaymentRequirements
  deriving DecidableEq, Repr

/-- `x402.PaymentPayload`: what the client sends, its signed transfer among it. -/
structure PaymentPayload where
  x402Version : ℕ
  accepted : PaymentRequirements
  payload : String
  deriving DecidableEq, Repr

/-- `x402.VerifyRequest`, and `x402.SettleRequest`. -/
structure VerifyRequest where
  x402Version : ℕ
  paymentPayload : PaymentPayload
  paymentRequirements : PaymentRequirements
  deriving DecidableEq, Repr

/-- `x402.VerifyResponse`. -/
structure VerifyResponse where
  isValid : Bool
  invalidReason : String
  invalidMessage : String
  deriving DecidableEq, Repr

/-- `x402.SettleResponse`. -/
structure SettleResponse where
  success : Bool
  errorReason : String
  errorMessage : String
  payer : String
  transaction : String
  deriving DecidableEq, Repr

/-- A call to the outside, with how it ended. -/
inductive Call
  | verify (request : VerifyRequest) (valid : Bool)
  | provision (k : ProvisionStep) (ok : Bool)
  | sign (ok : Bool)
  | pointAt (ok : Bool)
  | reachable (ok : Bool)
  | settle (request : VerifyRequest) (success : Bool)
  | reap
  | clear
  deriving DecidableEq, Repr

/-! ### The request -/

/-- What the handler reads of the configuration. -/
structure PaymentConfig extends NodeConfig where
  payTo : String
  asset : String
  network : String
  maxTimeoutSeconds : ℤ
  nodeID : String

/-- The request: its body, its payment header, and the absolute URL it is for. -/
structure CreateRequest where
  /-- The length asked for, or what is wrong with the body. -/
  seconds : Except String ℤ
  /-- What `DecodePaymentHeader` returns. -/
  payment : Except String (Option PaymentPayload)
  url : String

/-- How the calls to the outside end; `none` is no error, except for what is returned. -/
structure Outside where
  /-- `ValidateLeaseSpec` reads the key, the GPU and the images, once before the payment, and once
  in `StartLease`. -/
  checkSpec : Outcome
  recheckSpec : Outcome
  /-- The fee payer that `fac.Kind` advertises, for the requirements and for a challenge. -/
  feePayer : Option String
  challengeFeePayer : Option String
  verify : VerifyRequest → Except String VerifyResponse
  sessionNonce : Option String
  accessToken : String
  mintJupyterToken : Option String
  claimedAt : ℤ
  provision : ProvisionStep → Option String
  containerID : String
  sign : Option String
  pointAt : Option String
  reachable : Option String
  settle : VerifyRequest → Except String SettleResponse
  meteredAt : ℤ

/-- How the request is answered. -/
inductive Reply
  | response (r : Response)
  | challenge (c : PaymentRequired)
  | created (amountTinybars : String) (session : SessionCreated)
  deriving DecidableEq, Repr

/-- The node, and the calls made so far. -/
structure Run where
  node : Node
  calls : List Call

/-- A call is made. -/
def Run.call (r : Run) (c : Call) : Run := { r with calls := r.calls ++ [c] }

/-- The node is changed. -/
def Run.apply (r : Run) (op : Op) : Run := { r with node := r.node.apply op }

@[simp] theorem Run.node_apply (r : Run) (op : Op) : (r.apply op).node = r.node.apply op := rfl

/-! ### `collectPayment` -/

/-- `x402.Version`. -/
def x402Version : ℕ := 2

/-- `sessionDescription`. -/
def sessionDescription (cfg : PaymentConfig) (seconds : ℤ) : String :=
  toString seconds ++ " seconds of metered, refundable GPU time on MACH402 node " ++ cfg.nodeID

/-- The requirements of the node, from its own configuration. -/
def ownRequirements (cfg : PaymentConfig) (amount feePayer : String) : PaymentRequirements where
  scheme := "exact"
  network := cfg.network
  amount
  asset := cfg.asset
  payTo := cfg.payTo
  maxTimeoutSeconds := cfg.maxTimeoutSeconds
  feePayer

/-- `buildChallenge`. -/
def buildChallenge (cfg : PaymentConfig) (q : CreateRequest) (feePayer : Option String)
    (reason amount description : String) : Option PaymentRequired :=
  feePayer.map fun feePayer =>
    { x402Version
      error := reason
      resource :=
        { url := q.url, description, mimeType := "application/json", serviceName := "MACH402" }
      accepts := [ownRequirements cfg amount feePayer] }

/-- `respondWithChallengeFor`. -/
def challengeFor (cfg : PaymentConfig) (q : CreateRequest) (w : Outside)
    (reason amount description : String) : Reply :=
  match buildChallenge cfg q w.challengeFeePayer reason amount description with
  | some c => .challenge c
  | none => .response .unreachable

/-- `requirements`. -/
def requirements (cfg : PaymentConfig) (q : CreateRequest) (w : Outside)
    (amount description : String) : Option PaymentRequirements :=
  (buildChallenge cfg q w.feePayer "" amount description).bind fun c => c.accepts.head?

/-- Why a payment is invalid. -/
def VerifyResponse.reason (v : VerifyResponse) : String :=
  if v.invalidMessage ≠ "" then v.invalidReason ++ ": " ++ v.invalidMessage else v.invalidReason

/-- `collectPayment`: the payload and the requirements it was verified against, or an answer. -/
def collectPayment (cfg : PaymentConfig) (q : CreateRequest) (w : Outside)
    (amount description : String) (r : Run) :
    Except Reply (PaymentPayload × PaymentRequirements) × Run :=
  match q.payment with
  | .error err =>
    (.error (challengeFor cfg q w ("malformed payment header: " ++ err) amount description), r)
  | .ok none => (.error (challengeFor cfg q w "Payment required" amount description), r)
  | .ok (some payload) =>
    match requirements cfg q w amount description with
    | none => (.error (.response .unreachable), r)
    | some reqs =>
      let request := { x402Version, paymentPayload := payload, paymentRequirements := reqs }
      match w.verify request with
      | .error err =>
        (.error (challengeFor cfg q w ("payment verification failed: " ++ err) amount description),
          r.call (.verify request false))
      | .ok v =>
        if v.isValid then (.ok (payload, reqs), r.call (.verify request true))
        else
          (.error (challengeFor cfg q w ("payment invalid: " ++ v.reason) amount description),
            r.call (.verify request false))

/-! ### `StartLease` -/

/-- The steps of `provisionLease` in their order. -/
def ProvisionStep.all : List ProvisionStep :=
  [.createNetwork, .createVolume, .createProxy, .storeProxy, .connectProxy, .startProxy,
    .createContainer, .storeContainer, .startContainer, .containerIP, .awaitJupyter]

/-- The error of a step. -/
def ProvisionStep.error (err : String) : ProvisionStep → String
  | createNetwork => "create the lease network: " ++ err
  | createVolume => "create the lease workspace: " ++ err
  | createProxy => "create the egress proxy: " ++ err
  | connectProxy => "give the egress proxy a route out: " ++ err
  | startProxy => "start the egress proxy: " ++ err
  | createContainer => "create the lease container: " ++ err
  | startContainer => "start the lease container: " ++ err
  | containerIP => "find the lease container's address: " ++ err
  | storeProxy | storeContainer | awaitJupyter => err

/-- `provisionLease`, from some step on: its error if it fails. -/
def provisionLease (w : Outside) (id : LeaseId) : List ProvisionStep → Run → Option String × Run
  | [], r => (none, r)
  | k :: ks, r =>
    if k = .storeContainer then
      provisionLease w id ks (r.apply (.lease id (.setContainer w.containerID)))
    else if k.isLocal then provisionLease w id ks r
    else
      match w.provision k with
      | some err => (some (k.error err), r.call (.provision k false))
      | none => provisionLease w id ks (r.call (.provision k true))

/-- `reapLeaseResources`, which thaws the container first, then `releaseLeaseSlot`. -/
def Run.reap (r : Run) (id : LeaseId) : Run :=
  ((r.call .reap).apply (.thaw id)).apply (.release id)

/-- `StartLease`: its error if it fails. -/
def startLease (cfg : PaymentConfig) (w : Outside) (o : Opening) (r : Run) :
    Option String × Run :=
  match validateLeaseSpec cfg.toNodeConfig r.node o.chunk w.recheckSpec with
  | some err => (some err, r)
  | none =>
    match w.mintJupyterToken with
    | some err => (some ("mint a Jupyter token: " ++ err), r)
    | none =>
      if r.node.busy then
        (some "this node already has an active lease; it rents to one renter at a time", r)
      else
        let minutes := secondsToMinutes o.chunk
        let expiresAt := w.claimedAt + Duration.ofSeconds (minutes * 60)
        match provisionLease w o.id ProvisionStep.all
          (r.apply (.claim o.id (.provisioning o.token expiresAt minutes))) with
        | (some err, r) => (some err, (r.apply (.lease o.id (.fail err))).reap o.id)
        | (none, r) => (none, r.apply (.lease o.id (.setStatus .active)))

/-! ### `publishLease` -/

/-- `publishLease`: its error if it fails. -/
def publishLease (w : Outside) (id : LeaseId) (r : Run) : Option String × Run :=
  match w.sign with
  | some err => (some ("sign the lease certificate: " ++ err), r.call (.sign false))
  | none =>
    let r := r.call (.sign true)
    match w.pointAt with
    | some err => (some ("publish the lease: " ++ err), (r.call (.pointAt false)).apply .unpoint)
    | none =>
      let r := (r.call (.pointAt true)).apply (.point id)
      match w.reachable with
      | some err => (some err, r.call (.reachable false))
      | none => (none, r.call (.reachable true))

/-- `StopLease`, then `tunnel.Clear`. -/
def Run.stopLease (r : Run) (id : LeaseId) (status : LeaseStatus) : Run :=
  let r := if (r.node.lease id).status.isTerminal then r
    else (r.apply (.lease id (.stop status))).reap id
  (r.call .clear).apply .unpoint

/-! ### The settlement -/

/-- `settlementFailureMessage`. -/
def settlementFailureMessage : Except String SettleResponse → String
  | .error err => "settlement failed: " ++ err
  | .ok st =>
    if st.errorReason = "" then "settlement failed"
    else
      let message := "settlement failed: " ++ st.errorReason ++
        if st.errorMessage = "" then "" else " (" ++ st.errorMessage ++ ")"
      let unassociated := "TOKEN_NOT_ASSOCIATED_TO_ACCOUNT".toList
      if unassociated <:+: st.errorReason.toList ∨ unassociated <:+: st.errorMessage.toList then
        message ++ " — this node's account has not associated the settlement token; " ++
          "the provider must associate it before it can be paid"
      else message

/-- `MarkMetered`, `SetSessionLength` and `recordSessionPayment`. -/
def fundSession (cfg : PaymentConfig) (w : Outside) (o : Opening) (st : SettleResponse)
    (credit : ℤ) (r : Run) : Run :=
  let r := (r.apply (.settle o.id credit)).apply
    (.lease o.id (.markMetered w.meteredAt o.sessionID st.payer o.price credit))
  let r := r.apply (.lease o.id (.setSessionLength o.seconds))
  let r := r.apply (publishAudit cfg.toNodeConfig
    { kind := .lease, jobID := o.id, transaction := st.transaction, payer := st.payer
      amountTinybars := credit })
  let l := r.node.lease o.id
  r.apply (publishAudit cfg.toNodeConfig
    { kind := .sessionOpen, jobID := o.id, sessionID := l.sessionID
      transaction := st.transaction, payer := st.payer, amountTinybars := credit
      pricePerSecond := some l.pricePerSecond, durationSecs := l.secondsRemaining
      refundTinybars := some l.credit })

/-- The opening payment is settled, and the session metered. -/
def settleOpening (cfg : PaymentConfig) (q : CreateRequest) (w : Outside) (o : Opening)
    (payload : PaymentPayload) (reqs : PaymentRequirements) (r : Run) : Reply × Run :=
  let request := { x402Version, paymentPayload := payload, paymentRequirements := reqs }
  let refuse (answer : Except String SettleResponse) : Reply × Run :=
    (challengeFor cfg q w (settlementFailureMessage answer) (toString o.amount)
      (sessionDescription cfg o.chunk), (r.call (.settle request false)).stopLease o.id .failed)
  match w.settle request with
  | .error err => refuse (.error err)
  | .ok st =>
    if st.success then
      let r := r.call (.settle request true)
      match Decimal.parse reqs.amount with
      | none =>
        (.response (.error 500
          "this node settled a payment it cannot meter; contact the provider"),
          r.stopLease o.id .failed)
      | some credit =>
        let r := fundSession cfg w o st credit r
        (.created reqs.amount (sessionCreated cfg.toNodeConfig (r.node.lease o.id) o
          { id := o.id, amount := credit, payer := st.payer, transaction := st.transaction
            opening := some o }), r)
    else refuse (.ok st)

/-! ### The handler -/

/-- `handleCreateSession`, once the payment is verified. -/
def openSessionFor (cfg : PaymentConfig) (q : CreateRequest) (w : Outside) (seconds chunk : ℤ)
    (price : ℕ) (payload : PaymentPayload) (reqs : PaymentRequirements) (r : Run) : Reply × Run :=
  match w.sessionNonce with
  | none => (.response (.error 500 "could not mint a session id"), r)
  | some nonce =>
    let o : Opening :=
      { id := r.node.nextLease, seconds, chunk, price, sessionID := "0x" ++ nonce
        token := w.accessToken }
    match startLease cfg w o (r.apply .mint) with
    | (some err, r) => (.response (.notStarted err), r)
    | (none, r) =>
      match publishLease w o.id r with
      | (some err, r) => (.response (.notPublished err), r.stopLease o.id .failed)
      | (none, r) => settleOpening cfg q w o payload reqs r

/-- **`handleCreateSession`.** -/
def handleCreateSession (cfg : PaymentConfig) (q : CreateRequest) (w : Outside) (s : Node) :
    Reply × Run :=
  let r : Run := ⟨s, []⟩
  if !cfg.sessions then (.response .notEnabled, r)
  else match q.seconds with
    | .error err => (.response (.error 400 ("invalid session spec: " ++ err)), r)
    | .ok seconds =>
      match cfg.leases.validateSessionSeconds seconds with
      | some err => (.response (.error 400 err), r)
      | none =>
        let chunk := cfg.leases.sessionChunk seconds
        match validateLeaseSpec cfg.toNodeConfig s chunk w.checkSpec with
        | some err => (.response (.error 400 err), r)
        | none =>
          if s.paused then (.response .notAccepting, r)
          else match cfg.leases.sessionPricePerSecond with
            | .error err => (.response (.error 500 err), r)
            | .ok price =>
              let amount := toString ((price : ℤ) * chunk)
              match collectPayment cfg q w amount (sessionDescription cfg chunk) r with
              | (.error reply, r) => (reply, r)
              | (.ok (payload, reqs), r) =>
                openSessionFor cfg q w seconds chunk price payload reqs r

/-! ### The calls -/

/-- Whenever a settlement is attempted, `P` holds of the calls before. -/
def Guarded (P : List Call → VerifyRequest → Prop) (calls : List Call) : Prop :=
  ∀ before request success after, calls = before ++ .settle request success :: after →
    P before request

/-- More calls have been made, and no settlement is among them. -/
def Run.Extends (r r' : Run) : Prop :=
  ∃ more, r'.calls = r.calls ++ more ∧ ∀ request success, .settle request success ∉ more

namespace Run

variable {r r' r'' : Run} {P : List Call → VerifyRequest → Prop}

theorem Extends.refl (r : Run) : r.Extends r := ⟨[], by simp, by simp⟩

theorem Extends.trans (h : r.Extends r') (h' : r'.Extends r'') : r.Extends r'' := by
  obtain ⟨more, hm, hs⟩ := h
  obtain ⟨more', hm', hs'⟩ := h'
  refine ⟨more ++ more', by simp [hm', hm], fun request success hin => ?_⟩
  rcases List.mem_append.1 hin with hin | hin
  · exact hs _ _ hin
  · exact hs' _ _ hin

theorem Extends.apply (h : r.Extends r') (op : Op) : r.Extends (r'.apply op) := h

theorem Extends.call (h : r.Extends r') {c : Call}
    (hc : ∀ request success, c ≠ .settle request success) : r.Extends (r'.call c) :=
  h.trans ⟨[c], rfl, fun request success hin => hc request success (List.mem_singleton.1 hin).symm⟩

theorem Extends.mem (h : r.Extends r') {c : Call} (hc : c ∈ r.calls) : c ∈ r'.calls := by
  obtain ⟨more, hm, -⟩ := h
  rw [hm]
  exact List.mem_append_left _ hc

/-- A settlement found after more calls was there before. -/
theorem Extends.settle_mem (h : r.Extends r') {request : VerifyRequest} {success : Bool}
    (hc : .settle request success ∈ r'.calls) : .settle request success ∈ r.calls := by
  obtain ⟨more, hm, hs⟩ := h
  rw [hm] at hc
  exact (List.mem_append.1 hc).resolve_right (hs request success)

theorem Extends.guarded (h : r.Extends r') (hg : Guarded P r.calls) : Guarded P r'.calls := by
  obtain ⟨more, hm, hs⟩ := h
  intro before request success after heq
  rw [hm] at heq
  rcases List.append_eq_append_iff.1 heq with ⟨rest, -, hrest⟩ | ⟨rest, hbefore, hrest⟩
  · exact absurd (hrest ▸ by simp) (hs request success)
  · cases rest with
    | nil =>
      rw [List.nil_append] at hrest
      exact absurd (by simp [← hrest]) (hs request success)
    | cons c rest =>
      obtain ⟨rfl, -⟩ := List.cons.inj hrest
      exact hg _ _ _ _ hbefore

/-- A settlement, attempted when `P` holds. -/
theorem guarded_settle (hg : Guarded P r.calls) {request : VerifyRequest}
    (hP : P r.calls request) (success : Bool) :
    Guarded P (r.call (.settle request success)).calls := by
  intro before request' success' after heq
  rcases List.append_eq_append_iff.1 heq with ⟨rest, hbefore, hrest⟩ | ⟨rest, hbefore, hrest⟩
  · cases rest with
    | nil =>
      rw [List.append_nil] at hbefore
      subst hbefore
      cases hrest
      exact hP
    | cons c rest => simp at hrest
  · cases rest with
    | nil =>
      rw [List.append_nil] at hbefore
      subst hbefore
      cases hrest
      exact hP
    | cons c rest =>
      obtain ⟨rfl, -⟩ := List.cons.inj hrest
      exact hg _ _ _ _ hbefore

end Run

/-! ### The slot -/

/-- The request's lease has the slot, and `P` holds of it; nothing else has changed since `s`. -/
structure Node.Holding (s : Node) (id : LeaseId) (P : Lease → Prop) (n : Node) : Prop where
  slot : n.activeLease = some id
  lease : n.Has P id
  others : ∀ j ≠ id, n.leases j = s.leases j
  settled : n.settled = s.settled

/-- The slot and the leases are as they were, or the lease the request has claimed the slot for is
over and has given it up. -/
def Node.Restored (s : Node) (id : LeaseId) (n : Node) : Prop :=
  n.settled = s.settled ∧
    (n.activeLease = s.activeLease ∧ n.leases = s.leases ∨
      s.busy = false ∧ n.activeLease = none ∧ n.Over id ∧ ∀ j ≠ id, n.leases j = s.leases j)

section Holding

variable {s n : Node} {id : LeaseId} {P Q : Lease → Prop}

theorem Node.Holding.lease_op (h : s.Holding id P n) (op : LeaseOp)
    (hQ : ∀ l, P l → Q (l.apply op)) : s.Holding id Q (n.apply (.lease id op)) where
  slot := h.slot
  lease := h.lease.apply op hQ
  others j hj := by rw [Node.leases_apply]; simpa [hj] using h.others j hj
  settled := h.settled

/-- What concerns neither the leases nor the slot. -/
theorem Node.Holding.of_eq {n' : Node} (h : s.Holding id P n) (ha : n'.activeLease = n.activeLease)
    (hl : n'.leases = n.leases) (hs : n'.settled = n.settled) : s.Holding id P n' := by
  refine ⟨ha.trans h.slot, ?_, fun j hj => (congrFun hl j).trans (h.others j hj),
    hs.trans h.settled⟩
  obtain ⟨l, hn, hP⟩ := h.lease
  exact ⟨l, (congrFun hl id).trans hn, hP⟩

/-- A lease that is over gives up the slot. -/
theorem Node.Holding.release (h : s.Holding id P n) (hP : ∀ l, P l → l.status.isTerminal)
    (hb : s.busy = false) : s.Restored id (n.apply (.release id)) := by
  have hl : (n.apply (.release id)).leases = n.leases :=
    funext fun j => Node.leases_apply n (.release id) j
  refine ⟨(funext fun j => Node.settled_apply n (.release id) j).trans h.settled,
    Or.inr ⟨hb, ?_, ?_, fun j hj => (congrFun hl j).trans (h.others j hj)⟩⟩
  · rw [Node.activeLease_apply]
    exact if_pos h.slot
  · obtain ⟨l, hn, hp⟩ := h.lease
    exact ⟨l, (congrFun hl id).trans hn, hP l hp⟩

/-- The same, once its container is gone. -/
theorem Node.Holding.reap {r : Run} (h : s.Holding id P r.node)
    (hP : ∀ l, P l → l.status.isTerminal) (hb : s.busy = false) :
    s.Restored id (r.reap id).node :=
  have hthaw : s.Holding id P (r.node.apply (.thaw id)) := h.of_eq rfl rfl rfl
  hthaw.release hP hb

theorem Node.Restored.of_eq {n' : Node} (h : s.Restored id n) (ha : n'.activeLease = n.activeLease)
    (hl : n'.leases = n.leases) (hs : n'.settled = n.settled) : s.Restored id n' := by
  obtain ⟨hsettled, hslot⟩ := h
  refine ⟨hs.trans hsettled, ?_⟩
  rw [ha, hl]
  refine hslot.imp_right fun ⟨hb, hn, ho, hj⟩ => ⟨hb, hn, ?_, hj⟩
  obtain ⟨l, hn, hp⟩ := ho
  exact ⟨l, (congrFun hl id).trans hn, hp⟩

/-- The slot is as free as it was. -/
theorem Node.Restored.busy (h : s.Restored id n) : n.busy = s.busy := by
  rcases h.2 with ⟨ha, hl⟩ | ⟨hb, hn, -, -⟩
  · simp only [Node.busy, Node.lease, ha, hl]
  · rw [hb, Node.busy, hn]

/-- **`StopLease` gives up the slot** of a lease that is not over. -/
theorem Node.Holding.stopLease {r : Run} (h : s.Holding id P r.node)
    (hP : ∀ l, P l → ¬ l.status.isTerminal) (hb : s.busy = false) {status : LeaseStatus}
    (hs : status.isTerminal) : s.Restored id (r.stopLease id status).node := by
  have hlive := hP _ h.lease.lease
  simp only [Run.stopLease, hlive]
  refine Node.Restored.of_eq (n := ((r.apply (.lease id (.stop status))).reap id).node) ?_
    rfl rfl rfl
  refine Node.Holding.reap (r := r.apply (.lease id (.stop status)))
    (P := fun l => l.status.isTerminal) (h.lease_op (.stop status) fun l hl => ?_)
    (fun _ hl => hl) hb
  rw [Lease.status_apply]
  dsimp only
  rw [if_neg (hP l hl)]
  exact hs

end Holding

theorem Run.extends_stopLease (r : Run) (id : LeaseId) (status : LeaseStatus) :
    r.Extends (r.stopLease id status) := by
  unfold Run.stopLease
  split_ifs
  · exact ((Run.Extends.refl r).call (by simp)).apply _
  · exact (((((Run.Extends.refl r).apply _).call (by simp)).apply _).apply _).call (by simp)

/-! ### The parts of the handler -/

section Parts

variable {cfg : PaymentConfig} {q : CreateRequest} {w : Outside} {r r' : Run}

/-- A reply that is not a session. -/
def Reply.Refuses (reply : Reply) : Prop := ∀ amount session, reply ≠ .created amount session

theorem Reply.refuses_response (resp : Response) : (Reply.response resp).Refuses := by
  simp [Reply.Refuses]

theorem challengeFor_refuses (reason amount description : String) :
    (challengeFor cfg q w reason amount description).Refuses := by
  intro a session
  unfold challengeFor
  split <;> simp

/-- **`collectPayment`** verifies the payload of the request against the node's own requirements. -/
theorem collectPayment_spec {amount description : String}
    {x : Except Reply (PaymentPayload × PaymentRequirements)}
    (h : collectPayment cfg q w amount description r = (x, r')) :
    r'.node = r.node ∧ r.Extends r' ∧ match x with
      | .error reply => reply.Refuses
      | .ok (payload, reqs) => q.payment = .ok (some payload) ∧
        (∃ feePayer, reqs = ownRequirements cfg amount feePayer) ∧
        .verify ⟨x402Version, payload, reqs⟩ true ∈ r'.calls := by
  unfold collectPayment at h
  split at h
  · cases h
    exact ⟨rfl, .refl r, challengeFor_refuses _ _ _⟩
  · cases h
    exact ⟨rfl, .refl r, challengeFor_refuses _ _ _⟩
  · next payload hq =>
    split at h
    · cases h
      exact ⟨rfl, .refl r, Reply.refuses_response _⟩
    · next reqs hreqs =>
      dsimp only at h
      split at h
      · cases h
        exact ⟨rfl, (Run.Extends.refl r).call (by simp), challengeFor_refuses _ _ _⟩
      · split_ifs at h
        · cases h
          refine ⟨rfl, (Run.Extends.refl r).call (by simp), hq, ?_, by simp [Run.call]⟩
          obtain ⟨c, hc, hhead⟩ := Option.bind_eq_some_iff.1 hreqs
          obtain ⟨feePayer, -, rfl⟩ := Option.map_eq_some_iff.1 hc
          exact ⟨feePayer, (Option.some.inj hhead).symm⟩
        · cases h
          exact ⟨rfl, (Run.Extends.refl r).call (by simp), challengeFor_refuses _ _ _⟩

/-- A lease that is not metered, with this status. -/
def Lease.Fresh (status : LeaseStatus) (l : Lease) : Prop := l.status = status ∧ l.ledger = none

/-- **`provisionLease`** makes all its calls if it succeeds. -/
theorem provisionLease_spec {s : Node} {id : LeaseId} {ks : List ProvisionStep}
    {err : Option String} (h : provisionLease w id ks r = (err, r'))
    (hr : s.Holding id (Lease.Fresh .provisioning) r.node) :
    s.Holding id (Lease.Fresh .provisioning) r'.node ∧ r.Extends r' ∧
      (err = none → ∀ k ∈ ks, k.isLocal = false → .provision k true ∈ r'.calls) := by
  induction ks generalizing r with
  | nil =>
    cases h
    exact ⟨hr, .refl _, by simp⟩
  | cons k ks ih =>
    rw [provisionLease] at h
    split_ifs at h with hk hlocal
    · subst hk
      obtain ⟨hn, he, hall⟩ := ih h <| hr.lease_op (.setContainer w.containerID) fun l hl => by
        rwa [Lease.Fresh, Lease.status_apply, Lease.ledger_apply]
      refine ⟨hn, he, fun herr k hk hl => ?_⟩
      rcases List.mem_cons.1 hk with rfl | hk
      · cases hl
      · exact hall herr k hk hl
    · obtain ⟨hn, he, hall⟩ := ih h hr
      refine ⟨hn, he, fun herr k' hk' hl => ?_⟩
      rcases List.mem_cons.1 hk' with rfl | hk'
      · rw [hl] at hlocal
        cases hlocal
      · exact hall herr k' hk' hl
    · split at h
      · cases h
        exact ⟨hr, (Run.Extends.refl r).call (by simp), by simp⟩
      · obtain ⟨hn, he, hall⟩ := ih h hr
        refine ⟨hn, ((Run.Extends.refl r).call (by simp)).trans he, fun herr k' hk' hl => ?_⟩
        rcases List.mem_cons.1 hk' with rfl | hk'
        · exact he.mem (by simp [Run.call])
        · exact hall herr k' hk' hl

/-- **`StartLease`** has the slot for a lease that is provisioned, or has given it up. -/
theorem startLease_spec {o : Opening} {err : Option String}
    (h : startLease cfg w o r = (err, r')) :
    r.Extends r' ∧ match err with
      | some _ => r.node.Restored o.id r'.node
      | none => r.node.busy = false ∧ r.node.Holding o.id (Lease.Fresh .active) r'.node ∧
        ∀ k ∈ ProvisionStep.all, k.isLocal = false → .provision k true ∈ r'.calls := by
  unfold startLease at h
  split at h
  · cases h
    exact ⟨.refl r, rfl, Or.inl ⟨rfl, rfl⟩⟩
  · split at h
    · cases h
      exact ⟨.refl r, rfl, Or.inl ⟨rfl, rfl⟩⟩
    · split_ifs at h with hb
      · cases h
        exact ⟨.refl r, rfl, Or.inl ⟨rfl, rfl⟩⟩
      · have hb : r.node.busy = false := by simpa using hb
        have hclaim : ∀ token e m, r.node.Holding o.id (Lease.Fresh .provisioning)
            (r.apply (.claim o.id (.provisioning token e m))).node := fun token e m => by
          refine ⟨rfl, ⟨.provisioning token e m, ?_, rfl, rfl⟩, fun j hj => ?_, rfl⟩
          · exact Function.update_self ..
          · exact Function.update_of_ne hj ..
        dsimp only at h
        split at h
        · next err r₁ hp =>
          cases h
          obtain ⟨hn, he, -⟩ := provisionLease_spec hp (hclaim _ _ _)
          refine ⟨(((he.apply _).call (by simp)).apply _).apply _, ?_⟩
          refine Node.Holding.reap (r := r₁.apply (.lease o.id (.fail err)))
            (P := fun l => l.status.isTerminal) (hn.lease_op (.fail err) fun l hl => ?_)
            (fun _ hl => hl) hb
          rw [Lease.status_apply]
          simp [hl.1, LeaseStatus.isTerminal]
        · next r₁ hp =>
          cases h
          obtain ⟨hn, he, hall⟩ := provisionLease_spec hp (hclaim _ _ _)
          refine ⟨he.apply _, hb, hn.lease_op (.setStatus .active) fun l hl => ⟨?_, ?_⟩, hall rfl⟩
          · rw [Lease.status_apply]
            simp [hl.1, LeaseStatus.isTerminal]
          · rw [Lease.ledger_apply]
            exact hl.2

/-- **`publishLease`** changes neither the lease nor the slot. -/
theorem publishLease_spec {s : Node} {id : LeaseId} {P : Lease → Prop} {err : Option String}
    (h : publishLease w id r = (err, r')) (hr : s.Holding id P r.node) :
    s.Holding id P r'.node ∧ r.Extends r' ∧ (err = none → .reachable true ∈ r'.calls) := by
  unfold publishLease at h
  split at h
  · cases h
    exact ⟨hr, (Run.Extends.refl r).call (by simp), by simp⟩
  · have hsign := (Run.Extends.refl r).call (c := .sign true) (by simp)
    dsimp only at h
    split at h
    · cases h
      exact ⟨hr.of_eq rfl rfl rfl, (hsign.call (by simp)).apply _, by simp⟩
    · have hpoint := (hsign.call (c := .pointAt true) (by simp)).apply (.point id)
      split at h
      · cases h
        exact ⟨hr.of_eq rfl rfl rfl, hpoint.call (by simp), by simp⟩
      · cases h
        exact ⟨hr.of_eq rfl rfl rfl, hpoint.call (by simp), fun _ => by simp [Run.call]⟩

end Parts

/-! ### All or nothing -/

/-- What the opening chunk costs: the price of a second, for the length asked for or the chunk. -/
def openingAmount (cfg : PaymentConfig) (q : CreateRequest) : Option ℤ :=
  match q.seconds, cfg.leases.sessionPricePerSecond with
  | .ok seconds, .ok price => some (price * min seconds cfg.leases.sessionChunkSeconds)
  | _, _ => none

/-- What has been made sure of when a settlement is attempted: the very same request was verified,
for the payload of the renter and the node's own requirements, and the session answers. -/
structure Answered (cfg : PaymentConfig) (q : CreateRequest) (before : List Call)
    (request : VerifyRequest) : Prop where
  verified : .verify request true ∈ before
  payload : q.payment = .ok (some request.paymentPayload)
  own : ∃ amount feePayer, openingAmount cfg q = some amount ∧
    request.paymentRequirements = ownRequirements cfg (toString amount) feePayer
  provisioned : ∀ k ∈ ProvisionStep.all, k.isLocal = false → .provision k true ∈ before
  reachable : .reachable true ∈ before

/-- An active lease, metered with what its renter has paid. -/
def Lease.Metered (payer : String) (price credit : ℤ) (l : Lease) : Prop :=
  l.status = .active ∧ l.payer = payer ∧
    l.ledger = some { pricePerSecond := price, credit, burned := 0 }

/-- A session has been sold: its lease is active, has the slot, and is metered with what the
facilitator has settled. -/
structure Sold (cfg : PaymentConfig) (q : CreateRequest) (w : Outside) (amountTinybars : String)
    (session : SessionCreated) (r : Run) : Prop where
  settled : ∃ (request : VerifyRequest) (st : SettleResponse) (price : ℕ) (credit : ℤ),
    .settle request true ∈ r.calls ∧ w.settle request = .ok st ∧
    request.paymentRequirements.amount = amountTinybars ∧ amountTinybars = toString credit ∧
    cfg.leases.sessionPricePerSecond = .ok price ∧ openingAmount cfg q = some credit ∧
    session.creditTinybars = credit ∧ session.payer = st.payer ∧
    r.node.Has (Lease.Metered st.payer price credit) session.leaseID
  slot : r.node.activeLease = some session.leaseID

/-- **All or nothing.** -/
structure AllOrNothing (cfg : PaymentConfig) (q : CreateRequest) (w : Outside) (s : Node)
    (reply : Reply) (r : Run) : Prop where
  guarded : Guarded (Answered cfg q) r.calls
  created_iff : (∃ amount session, reply = .created amount session) ↔
    ∃ request, .settle request true ∈ r.calls
  sold : ∀ amount session, reply = .created amount session → Sold cfg q w amount session r
  restored : reply.Refuses → s.Restored s.nextLease r.node
  free : reply.Refuses → r.node.busy = s.busy

section Whole

variable {cfg : PaymentConfig} {q : CreateRequest} {w : Outside} {s : Node} {r r' : Run}
  {reply : Reply}

/-- A request that settles nothing. -/
theorem AllOrNothing.of_refuses (hr : reply.Refuses) (hg : Guarded (Answered cfg q) r.calls)
    (hs : ∀ request, .settle request true ∉ r.calls) (hn : s.Restored s.nextLease r.node) :
    AllOrNothing cfg q w s reply r where
  guarded := hg
  created_iff := iff_of_false (fun ⟨a, session, h⟩ => hr a session h) fun ⟨request, h⟩ =>
    hs request h
  sold a session h := absurd h (hr a session)
  restored _ := hn
  free _ := hn.busy

theorem guarded_of_unsettled {P : List Call → VerifyRequest → Prop} {calls : List Call}
    (h : ∀ request success, .settle request success ∉ calls) : Guarded P calls := by
  rintro before request success after rfl
  exact absurd (by simp) (h request success)

/-- What publishing an audit message leaves alone. -/
theorem Run.node_publishAudit (m : AuditMessage) (r : Run) :
    (r.apply (publishAudit cfg.toNodeConfig m)).node.leases = r.node.leases ∧
      (r.apply (publishAudit cfg.toNodeConfig m)).node.activeLease = r.node.activeLease :=
  publishAudit_elim (P := fun op => (r.apply op).node.leases = r.node.leases ∧
    (r.apply op).node.activeLease = r.node.activeLease) ⟨rfl, rfl⟩ ⟨rfl, rfl⟩

theorem Lease.Fresh.markMetered {l : Lease} (h : l.Fresh .active) (now : ℤ)
    (sessionID payer : String) (price credit : ℤ) :
    (l.apply (.markMetered now sessionID payer price credit)).Metered payer price credit := by
  refine ⟨?_, ?_, ?_⟩
  · rw [Lease.status_apply]
    exact h.1
  · simp [Lease.apply, Lease.markMetered]
  · rw [Lease.ledger_apply]

/-- **The session is metered** with what was settled, by whoever paid. -/
theorem fundSession_spec (cfg : PaymentConfig) (w : Outside) {o : Opening} (st : SettleResponse)
    (credit : ℤ) (hr : r.node.Has (Lease.Fresh .active) o.id) :
    (fundSession cfg w o st credit r).calls = r.calls ∧
      (fundSession cfg w o st credit r).node.activeLease = r.node.activeLease ∧
      (fundSession cfg w o st credit r).node.Has (Lease.Metered st.payer o.price credit) o.id := by
  unfold fundSession
  refine ⟨rfl, ?_, ?_⟩
  · rw [(Run.node_publishAudit _ _).2, (Run.node_publishAudit _ _).2]
    rfl
  · unfold Node.Has
    rw [(Run.node_publishAudit _ _).1, (Run.node_publishAudit _ _).1]
    have hm : (r.apply (.settle o.id credit)).node.Has (Lease.Fresh .active) o.id := hr
    exact (hm.apply _ fun l hl => hl.markMetered w.meteredAt o.sessionID st.payer o.price
      credit).apply (.setSessionLength o.seconds) fun l hl => hl

/-- **`settleOpening`** sells the session, or ends it. -/
theorem settleOpening_spec {o : Opening} {payload : PaymentPayload} {reqs : PaymentRequirements}
    (h : settleOpening cfg q w o payload reqs r = (reply, r'))
    (hr : s.Holding s.nextLease (Lease.Fresh .active) r.node) (hid : o.id = s.nextLease)
    (hb : s.busy = false) (hs : ∀ request success, .settle request success ∉ r.calls)
    (ha : Answered cfg q r.calls ⟨x402Version, payload, reqs⟩)
    (hprice : cfg.leases.sessionPricePerSecond = .ok o.price)
    (hopen : openingAmount cfg q = some o.amount) : AllOrNothing cfg q w s reply r' := by
  obtain ⟨amount, feePayer, hamount, hreqs⟩ := ha.own
  obtain rfl : o.amount = amount := Option.some.inj (hopen.symm.trans hamount)
  replace hreqs : reqs.amount = toString o.amount := by
    rw [show reqs = _ from hreqs]
    rfl
  -- A settlement that fails: the lease is stopped.
  have hrefuse : ∀ message, AllOrNothing cfg q w s
      (challengeFor cfg q w message (toString o.amount) (sessionDescription cfg o.chunk))
      ((r.call (.settle ⟨x402Version, payload, reqs⟩ false)).stopLease o.id .failed) :=
      fun message => by
    have he := Run.extends_stopLease (r.call (.settle ⟨x402Version, payload, reqs⟩ false)) o.id
      .failed
    refine .of_refuses (challengeFor_refuses _ _ _) (he.guarded (Run.guarded_settle
      (guarded_of_unsettled hs) ha false)) (fun request hin => ?_) ?_
    · rcases List.mem_append.1 (he.settle_mem hin) with hin | hin
      · exact hs _ _ hin
      · simp at hin
    · rw [hid]
      exact Node.Holding.stopLease (r := r.call (.settle _ false)) hr
        (fun l hl => by simp [hl.1, LeaseStatus.isTerminal]) hb rfl
  unfold settleOpening at h
  dsimp only at h
  split at h
  · cases h
    exact hrefuse _
  · next st hst =>
    split_ifs at h with hsuccess
    · rw [hreqs, Decimal.parse_toString] at h
      cases h
      have hfresh : (r.call (.settle ⟨x402Version, payload, reqs⟩ true)).node.Has
          (Lease.Fresh .active) o.id := hid ▸ hr.lease
      obtain ⟨hcalls, hactive, hlease⟩ := fundSession_spec cfg w st o.amount hfresh
      have hin : Call.settle ⟨x402Version, payload, reqs⟩ true ∈ (fundSession cfg w o st o.amount
          (r.call (.settle ⟨x402Version, payload, reqs⟩ true))).calls := by
        rw [hcalls]
        simp [Run.call]
      refine ⟨?_, iff_of_true ⟨_, _, rfl⟩ ⟨_, hin⟩, ?_, fun hreply => absurd rfl (hreply _ _),
        fun hreply => absurd rfl (hreply _ _)⟩
      · rw [hcalls]
        exact Run.guarded_settle (guarded_of_unsettled hs) ha true
      · rintro - - ⟨⟩
        refine ⟨⟨_, st, o.price, o.amount, hin, hst, hreqs, rfl, hprice, hopen, ?_, rfl, hlease⟩,
          ?_⟩
        · obtain ⟨l, hl, -, -, hledger⟩ := hlease
          simp [sessionCreated, Node.lease, hl, Lease.credit, hledger]
        · rw [hactive]
          exact hr.slot.trans (congrArg some hid.symm)
    · cases h
      exact hrefuse _

/-- The calls so far, and the slot as it was: the payment has been verified. -/
theorem openSessionFor_spec {seconds chunk : ℤ} {price : ℕ} {payload : PaymentPayload}
    {reqs : PaymentRequirements}
    (h : openSessionFor cfg q w seconds chunk price payload reqs r = (reply, r'))
    (hn : r.node = s) (hs : ∀ request success, .settle request success ∉ r.calls)
    (hv : .verify ⟨x402Version, payload, reqs⟩ true ∈ r.calls)
    (hpayload : q.payment = .ok (some payload))
    (hown : ∃ feePayer, reqs = ownRequirements cfg (toString ((price : ℤ) * chunk)) feePayer)
    (hprice : cfg.leases.sessionPricePerSecond = .ok price)
    (hopen : openingAmount cfg q = some (price * chunk)) : AllOrNothing cfg q w s reply r' := by
  subst hn
  unfold openSessionFor at h
  split at h
  · cases h
    exact .of_refuses (Reply.refuses_response _) (guarded_of_unsettled hs) (fun _ => hs _ _)
      ⟨rfl, Or.inl ⟨rfl, rfl⟩⟩
  · dsimp only at h
    split at h
    · next err r₁ hstart =>
      cases h
      obtain ⟨he, hrestored⟩ := startLease_spec hstart
      exact .of_refuses (Reply.refuses_response _) (he.guarded (guarded_of_unsettled hs))
        (fun request hin => hs _ _ (he.settle_mem hin)) hrestored
    · next r₁ hstart =>
      obtain ⟨he, hb, hhold, hprovisioned⟩ := startLease_spec hstart
      have hhold : r.node.Holding r.node.nextLease (Lease.Fresh .active) r₁.node :=
        ⟨hhold.slot, hhold.lease, hhold.others, hhold.settled⟩
      split at h
      · next err r₂ hpublish =>
        cases h
        obtain ⟨hhold, he', -⟩ := publishLease_spec hpublish hhold
        have he := (he.trans he').trans (Run.extends_stopLease r₂ r.node.nextLease .failed)
        exact .of_refuses (Reply.refuses_response _) (he.guarded (guarded_of_unsettled hs))
          (fun request hin => hs _ _ (he.settle_mem hin))
          (hhold.stopLease (fun l hl => by simp [hl.1, LeaseStatus.isTerminal]) hb rfl)
      · next r₂ hpublish =>
        obtain ⟨hhold, he', hreachable⟩ := publishLease_spec hpublish hhold
        obtain ⟨feePayer, hown⟩ := hown
        exact settleOpening_spec h hhold rfl hb
          (fun request success hin => hs _ _ ((he.trans he').settle_mem hin))
          { verified := (he.trans he').mem hv
            payload := hpayload
            own := ⟨_, feePayer, hopen, hown⟩
            provisioned := fun k hk hl => he'.mem (hprovisioned k hk hl)
            reachable := hreachable rfl } hprice hopen

end Whole

/-- **A session that answers is paid for, or nothing has happened.**  Whatever the outcomes of the
calls, a settlement is attempted only for the request that was verified, and only once the session
answers; a session is sold just when it is settled; and otherwise the slot and the leases are as
they were, or the lease is over and has given up the slot. -/
theorem create_all_or_nothing (cfg : PaymentConfig) (q : CreateRequest) (w : Outside) (s : Node) :
    AllOrNothing cfg q w s (handleCreateSession cfg q w s).1 (handleCreateSession cfg q w s).2 := by
  -- An answer before anything has been called.
  have hearly : ∀ resp, AllOrNothing cfg q w s (.response resp) ⟨s, []⟩ := fun resp =>
    .of_refuses (Reply.refuses_response resp) (guarded_of_unsettled (by simp)) (by simp)
      ⟨rfl, Or.inl ⟨rfl, rfl⟩⟩
  generalize h : handleCreateSession cfg q w s = x
  obtain ⟨reply, r'⟩ := x
  unfold handleCreateSession at h
  dsimp only at h ⊢
  split at h
  · cases h
    exact hearly _
  split at h
  · cases h
    exact hearly _
  next seconds hseconds =>
  split at h
  · cases h
    exact hearly _
  next hvalid =>
  split at h
  · cases h
    exact hearly _
  split at h
  · cases h
    exact hearly _
  split at h
  · cases h
    exact hearly _
  next price hprice =>
  split at h
  · next r₁ hpay =>
    cases h
    obtain ⟨hn, he, hrefuses⟩ := collectPayment_spec hpay
    exact .of_refuses hrefuses (he.guarded (guarded_of_unsettled (by simp)))
      (fun request hin => by simpa using he.settle_mem hin) (hn ▸ ⟨rfl, Or.inl ⟨rfl, rfl⟩⟩)
  · next payload reqs r₁ hpay =>
    obtain ⟨hn, he, hpayload, hown, hv⟩ := collectPayment_spec hpay
    refine openSessionFor_spec h hn (fun request success hin => by simpa using he.settle_mem hin) hv
      hpayload hown hprice ?_
    rw [openingAmount, hseconds, hprice, cfg.leases.sessionChunk_of_validate hvalid]

/-! ### A second renter -/

/-- The small node, and where it is paid. -/
def PaymentConfig.small : PaymentConfig where
  toNodeConfig := .small
  payTo := "0.0.1"
  asset := "0.0.0"
  network := "hedera:testnet"
  maxTimeoutSeconds := 180
  nodeID := "node"

/-- A paid request for two minutes. -/
def CreateRequest.paid : CreateRequest where
  seconds := .ok 120
  payment := .ok (some
    { x402Version, accepted := ownRequirements .small "60" "0.0.2", payload := "signed" })
  url := "https://node/v1/sessions"

/-- Every call succeeds. -/
def Outside.fine : Outside where
  checkSpec := .ok "" ""
  recheckSpec := .ok "" ""
  feePayer := some "0.0.2"
  challengeFeePayer := some "0.0.2"
  verify _ := .ok { isValid := true, invalidReason := "", invalidMessage := "" }
  sessionNonce := some "ab"
  accessToken := "t"
  mintJupyterToken := none
  claimedAt := 0
  provision _ := none
  containerID := "c"
  sign := none
  pointAt := none
  reachable := none
  settle _ := .ok
    { success := true, errorReason := "", errorMessage := "", payer := "renter"
      transaction := "tx" }
  meteredAt := 0

/-- The node after a request. -/
def Node.served (cfg : PaymentConfig) (q : CreateRequest) (w : Outside) (s : Node) : Node :=
  (handleCreateSession cfg q w s).2.node

/-- **A refused request may leave the slot taken**: by the renter who was there before. -/
theorem not_create_all_or_nothing : ¬ ∀ (cfg : PaymentConfig) (q q' : CreateRequest)
    (w w' : Outside), (handleCreateSession cfg q' w' (Node.initial.served cfg q w)).1.Refuses →
      ((Node.initial.served cfg q w).served cfg q' w').busy = false := by
  intro h
  let s := Node.initial.served .small .paid .fine
  have hreply : (handleCreateSession .small .paid .fine s).1 = .response (.error 400
      "this node already has an active lease; it rents to one renter at a time") := by decide
  have hbusy : (s.served .small .paid .fine).busy = true := by decide
  have hfree := h .small .paid .paid .fine .fine fun amount session hcreated => by
    rw [hreply] at hcreated
    cases hcreated
  rw [hbusy] at hfree
  cases hfree

end Mach402
