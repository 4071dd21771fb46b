import Mach402.Agent.Lease
import Mach402.Agent.Terms
import Mach402.Library.Threads

/-!
# The node

The session handlers of the node's HTTP API, the provider's `EndLease` and the background sweep, as
threads over the state they share.  A program point is what a thread does next: one step that holds
one lock, or one call to something outside (the facilitator, the sidecar, Docker, the tunnel), whose
outcome is free.

* `Node`: the shared state, together with what the facilitator and the sidecar have moved;
* `Op`: the operations on it;
* `Pc`: the program points, in the order of the handlers;
* `Node.act`: what a thread does at each of them;
* `node`: all of it as a `Machine`.
-/

namespace Mach402

/-! ### The shared state -/

/-- Leases have random ids; here they are numbered. -/
abbrev LeaseId := ℕ

/-- What the handlers read of the node's configuration. -/
structure NodeConfig where
  leases : Leases
  /-- `sessionsEnabled`. -/
  sessions : Bool
  /-- There is a sidecar to pay refunds with. -/
  sidecar : Bool
  /-- There is an audit topic to publish to. -/
  audit : Bool

/-- `hcs.Kind…`. -/
inductive AuditKind
  | lease
  | sessionOpen
  | sessionBurn
  | sessionSettled
  deriving DecidableEq, Repr

/-- `hcs.AuditMessage`, less what the configuration alone fills in. -/
structure AuditMessage where
  kind : AuditKind
  jobID : LeaseId
  sessionID : String := ""
  transaction : String := ""
  payer : String
  amountTinybars : ℤ
  refundTinybars : Option ℤ := none
  pricePerSecond : Option ℤ := none
  durationSecs : ℤ := 0
  elapsedSecs : ℤ := 0
  deriving DecidableEq, Repr

/-- What the threads share. -/
structure Node where
  leases : LeaseId → Option Lease
  activeLease : Option LeaseId
  /-- No lease has this id or a later one. -/
  nextLease : LeaseId
  /-- `s.paused`: no new sessions. -/
  paused : Bool
  /-- The lease the running tunnel points at. -/
  tunnel : Option LeaseId
  /-- The leases whose container is frozen. -/
  frozen : LeaseId → Bool
  clock : ℤ
  /-- What the facilitator has settled for each lease. -/
  settled : LeaseId → ℤ
  /-- The transfers the sidecar has made for each lease. -/
  refunds : LeaseId → List ℤ
  audit : List AuditMessage

namespace Node

/-- A node that has sold nothing yet. -/
def initial : Node where
  leases := fun _ => none
  activeLease := none
  nextLease := 0
  paused := false
  tunnel := none
  frozen := fun _ => false
  clock := 0
  settled := fun _ => 0
  refunds := fun _ => []
  audit := []

/-- The lease a handler holds. -/
def lease (s : Node) (id : LeaseId) : Lease := (s.leases id).getD (.provisioning "" 0 0)

/-- The slot is taken by a lease that is not over. -/
def busy (s : Node) : Bool :=
  match s.activeLease with
  | none => false
  | some id => !(s.lease id).status.isTerminal

end Node

/-- The operations on the shared state. -/
inductive Op
  | skip
  | lease (id : LeaseId) (op : LeaseOp)
  | mint
  | claim (id : LeaseId) (lease : Lease)
  | release (id : LeaseId)
  | point (id : LeaseId)
  | unpoint
  | freeze (id : LeaseId)
  | thaw (id : LeaseId)
  | settle (id : LeaseId) (amount : ℤ)
  | refund (id : LeaseId) (amount : ℤ)
  | publish (message : AuditMessage)
  deriving DecidableEq, Repr

/-- What an operation does. -/
def Node.apply (s : Node) : Op → Node
  | .skip => s
  | .lease id op =>
    { s with leases := Function.update s.leases id ((s.leases id).map (·.apply op)) }
  | .mint => { s with nextLease := s.nextLease + 1 }
  | .claim id lease =>
    { s with leases := Function.update s.leases id (some lease), activeLease := some id }
  | .release id => if s.activeLease = some id then { s with activeLease := none } else s
  | .point id => { s with tunnel := some id }
  | .unpoint => { s with tunnel := none }
  | .freeze id => { s with frozen := Function.update s.frozen id true }
  | .thaw id => { s with frozen := Function.update s.frozen id false }
  | .settle id amount =>
    { s with settled := Function.update s.settled id (s.settled id + amount) }
  | .refund id amount =>
    { s with refunds := Function.update s.refunds id (s.refunds id ++ [amount]) }
  | .publish message => { s with audit := s.audit ++ [message] }

/-! ### Requests and responses -/

/-- The id in the path of a session route.  A segment of a path is never empty. -/
structure SessionPath where
  id : String
  nonempty : id ≠ ""
  deriving DecidableEq, Repr

/-- `sessionResponse`. -/
structure SessionCreated where
  sessionID : String
  leaseID : LeaseId
  token : String
  status : LeaseStatus
  expiresAt : ℤ
  transaction : String
  payer : String
  amountTinybars : ℤ
  priceTinybarsPerSecond : ℤ
  creditTinybars : ℤ
  lowCredits : Bool
  seconds : ℤ
  sessionSeconds : ℤ
  fullyPaid : Bool
  deriving DecidableEq, Repr

/-- What `sessionState` renders. -/
structure SessionState where
  sessionID : String
  leaseID : LeaseId
  status : LeaseStatus
  expiresAt : ℤ
  secondsRemaining : ℤ
  paidSeconds : ℤ
  sessionSeconds : ℤ
  fullyPaid : Bool
  priceTinybarsPerSecond : ℤ
  creditTinybars : ℤ
  burnedTinybars : ℤ
  refundedTinybars : ℤ
  lowCredits : Bool
  settleState : SettleState
  error : String
  deriving DecidableEq, Repr

/-- How a thread ends. -/
inductive Response
  | error (status : ℕ) (message : String)
  /-- A 402 for this amount. -/
  | challenge (message : String) (amount : ℤ)
  | created (session : SessionCreated)
  | state (session : SessionState)
  /-- What `EndLease` returns. -/
  | ended (id : Option LeaseId)
  | swept
  deriving DecidableEq, Repr

/-- What starts a thread.  `endLease` has one caller, which passes `stopped`. -/
inductive Request
  | create (seconds : ℤ)
  | topUp (path : SessionPath) (token : String)
  | stop (path : SessionPath) (token : String)
  | endLease
  | sweep
  deriving DecidableEq, Repr

/-- How a call to the outside ends: with what it returns (the container's id, the payer and the
transaction), with an error, or without an answer. -/
inductive Outcome
  | ok (value transaction : String)
  | fail (error : String)
  | unavailable
  deriving DecidableEq, Repr

/-! ### Program points -/

/-- What `handleCreateSession` has fixed once the payment is verified. -/
structure Opening where
  id : LeaseId
  seconds : ℤ
  chunk : ℤ
  price : ℕ
  sessionID : String
  token : String
  deriving DecidableEq, Repr

/-- The amount of the opening payment. -/
def Opening.amount (o : Opening) : ℤ := o.price * o.chunk

/-- A settled payment; an opening one carries its `Opening`. -/
structure Payment where
  id : LeaseId
  amount : ℤ
  payer : String
  transaction : String
  opening : Option Opening
  deriving DecidableEq, Repr

/-- The session routes that start with `authorizeSession`. -/
inductive Route
  | topUp
  | stop
  deriving DecidableEq, Repr

/-- Who ends a session. -/
inductive Ender
  | stop
  | evict
  | sweep
  deriving DecidableEq, Repr

/-- What a burn is for: the sweep's tick, or the last charge of a session. -/
inductive Meter
  | tick
  | last (e : Ender)
  deriving DecidableEq, Repr

/-- What follows once a lease is torn down: the settlement, or the answer to a renter who has not
been charged, after the tunnel is cleared (`abort`) or without it (`refuse`). -/
inductive After
  | settle (e : Ender)
  | abort (r : Response)
  | refuse (r : Response)
  deriving DecidableEq, Repr

/-- What a thread does next. -/
inductive Pc
  -- `handleCreateSession`
  | create (seconds : ℤ)
  | validateSpec (seconds chunk : ℤ)
  | accepting (seconds chunk : ℤ)
  | collectPayment (seconds chunk : ℤ) (price : ℕ)
  | mint (seconds chunk : ℤ) (price : ℕ)
  -- `StartLease`
  | startLease (o : Opening)
  | claimSlot (o : Opening) (expiresAt : ℤ)
  | provision (o : Opening)
  | awaitJupyter (o : Opening)
  | failLease (o : Opening) (err : String)
  | activate (o : Opening)
  -- `publishLease`
  | sign (o : Opening)
  | pointAt (o : Opening)
  | reachable (o : Opening)
  -- the settlement of the opening chunk
  | settleOpening (o : Opening)
  | markMetered (o : Opening) (payer transaction : String)
  | setLength (o : Opening) (payer transaction : String)
  -- `recordSessionPayment`
  | recordLease (p : Payment)
  | recordDuration (p : Payment)
  | recordPayment (p : Payment) (duration : ℤ)
  | respond (p : Payment)
  -- `authorizeSession`
  | authorize (path : SessionPath) (token : String) (route : Route)
  | checkToken (id : LeaseId) (path : SessionPath) (token : String) (route : Route)
  -- `handleTopUpSession`
  | topUpStatus (id : LeaseId)
  | topUpLength (id : LeaseId)
  | topUpUnpaid (id : LeaseId) (price : ℤ)
  | topUpCap (id : LeaseId) (price chunk : ℤ)
  | topUpCollect (id : LeaseId) (price chunk : ℤ)
  | settleTopUp (id : LeaseId) (price chunk : ℤ)
  | addCredit (p : Payment)
  | topUpPaused (p : Payment)
  | resume (p : Payment)
  | unpause (p : Payment)
  -- `handleSessionStop`, `EndLease`
  | stopStatus (id : LeaseId)
  | endLease
  | endStatus (id : LeaseId)
  | endMeter (id : LeaseId)
  -- `Burn`, after its clock reading
  | readClock (id : LeaseId) (m : Meter)
  | burn (id : LeaseId) (now : ℤ) (m : Meter)
  -- `sweepLeases`
  | sweep
  | sweepStatus (id : LeaseId)
  | sweepMeter (id : LeaseId)
  | tickElapsed (id : LeaseId) (remaining : ℤ)
  | tickPublish (id : LeaseId) (remaining elapsed : ℤ)
  | sweepSwitch (id : LeaseId)
  | sweepFullyPaid (id : LeaseId)
  | sweepRemaining (id : LeaseId)
  | sweepOverdue (id : LeaseId)
  | pause (id : LeaseId)
  | pauseContainer (id : LeaseId)
  | sweepPaused (id : LeaseId)
  -- `StopLease`, then `tunnel.Clear`
  | stopLease (id : LeaseId) (status : LeaseStatus) (k : After)
  | reap (id : LeaseId) (k : After)
  | release (id : LeaseId) (k : After)
  | clear (id : LeaseId) (k : After)
  -- `settleSession`
  | settleSession (id : LeaseId) (e : Ender)
  | readCredit (id : LeaseId) (e : Ender)
  | refund (id : LeaseId) (payer : String) (owed : ℤ) (e : Ender)
  | markSettled (id : LeaseId) (owed : ℤ) (transaction : String) (e : Ender)
  | recordSettlement (id : LeaseId) (refund : ℤ) (transaction : String) (e : Ender)
  | respondState (id : LeaseId)
  | done (r : Response)
  deriving DecidableEq, Repr

/-- The thread has ended. -/
def Pc.isDone : Pc → Bool
  | .done _ => true
  | _ => false

/-! ### The steps -/

/-- How a status reads. -/
def LeaseStatus.text : LeaseStatus → String
  | .provisioning => "provisioning"
  | .active => "active"
  | .paused => "paused"
  | .stopped => "stopped"
  | .expired => "expired"
  | .failed => "failed"

/-- An unpaid session is frozen only this long after its expiry. -/
def sessionFreezeGrace : ℤ := 30 * Duration.second

/-- The renter should be buying another chunk. -/
def lowCredits (cfg : NodeConfig) (l : Lease) : Bool :=
  !l.fullyPaid && decide (l.secondsRemaining < cfg.leases.lowCreditThresholdSeconds)

/-- The 200 of `handleCreateSession`. -/
def sessionCreated (cfg : NodeConfig) (l : Lease) (o : Opening) (p : Payment) :
    SessionCreated where
  sessionID := o.sessionID
  leaseID := o.id
  token := o.token
  status := l.status
  expiresAt := l.expiresAt
  transaction := p.transaction
  payer := p.payer
  amountTinybars := p.amount
  priceTinybarsPerSecond := o.price
  creditTinybars := l.credit
  lowCredits := lowCredits cfg l
  seconds := l.secondsRemaining
  sessionSeconds := o.seconds
  fullyPaid := l.fullyPaid

/-- The read-only view of a session. -/
def sessionState (cfg : NodeConfig) (id : LeaseId) (l : Lease) : SessionState where
  sessionID := l.sessionID
  leaseID := id
  status := l.status
  expiresAt := l.expiresAt
  secondsRemaining := l.secondsRemaining
  paidSeconds := l.paidSeconds
  sessionSeconds := l.sessionSeconds
  fullyPaid := l.fullyPaid
  priceTinybarsPerSecond := l.pricePerSecond
  creditTinybars := l.credit
  burnedTinybars := l.burned
  refundedTinybars := l.refunded.getD 0
  lowCredits := lowCredits cfg l
  settleState := l.settleState
  error := l.err

/-- `s.publishAudit`: without a topic, nothing happens. -/
def publishAudit (cfg : NodeConfig) (message : AuditMessage) : Op :=
  if cfg.audit then .publish message else .skip

theorem publishAudit_elim {P : Op → Prop} {cfg : NodeConfig} {message : AuditMessage}
    (hp : P (.publish message)) (hs : P .skip) : P (publishAudit cfg message) := by
  unfold publishAudit
  split_ifs
  · exact hp
  · exact hs

/-- Whole seconds that `tinybars` paid for, or 0 without a price. -/
def elapsedSeconds (price tinybars : ℤ) : ℤ := if 0 < price then tinybars / price else 0

namespace Response

/-- The node sells nothing. -/
def notEnabled : Response := .error 404 "this node does not offer metered sessions"

/-- The session is not there, or is another renter's. -/
def noSession : Response := .error 404 "no such session, or the token does not authorize it"

/-- The node is paused. -/
def notAccepting : Response :=
  .error 503 "this node is not accepting new sessions right now; nothing was charged"

/-- The facilitator does not answer. -/
def unreachable : Response := .error 503 "facilitator unreachable; try again shortly"

/-- The lease could not be provisioned. -/
def notStarted (err : String) : Response :=
  .error 500 ("could not start the session; nothing was charged: " ++ err)

/-- The tunnel could not be opened. -/
def notPublished (err : String) : Response :=
  .error 502 ("the session came up but could not be reached from the internet, so nothing was " ++
    "charged: " ++ err)

/-- The session has ended. -/
def alreadyOver (status : LeaseStatus) : Response :=
  .error 409 ("this session is already " ++ status.text ++ " and cannot be topped up")

/-- The session is not metered. -/
def noMeter : Response := .error 409 "this session has no meter; it cannot be topped up"

/-- All of the chosen length has been bought. -/
def paidInFull (length : ℤ) : Response :=
  .error 409 ("this session was bought for " ++ toString length ++ " seconds and is already " ++
    "paid for in full; it ends when that time is used — start a new session to keep going")

/-- A chunk more would be beyond what the node sells. -/
def capped (maxTotal bought : ℤ) : Response :=
  .error 409 ("this node caps a session at " ++ toString maxTotal ++ " seconds total; " ++
    toString bought ++ " have been bought already")

end Response

/-- `ValidateLeaseSpec`; the key, the GPU and the images are the outcome. -/
def validateLeaseSpec (cfg : NodeConfig) (s : Node) (chunk : ℤ) (o : Outcome) : Option String :=
  match cfg.leases.validateMinutes (secondsToMinutes chunk) with
  | some err => some err
  | none =>
    match o with
    | .fail err => some err
    | _ =>
      if s.busy then
        some "this node already has an active lease; it rents to one renter at a time"
      else none

/-- Where `settleSession` returns to. -/
def Ender.return (id : LeaseId) : Ender → Pc
  | .stop => .respondState id
  | .evict => .done (.ended (some id))
  | .sweep => .done .swept

/-- Where `StopLease` returns to. -/
def After.return (id : LeaseId) : After → Pc
  | .refuse r => .done r
  | k => .clear id k

/-- Where `tunnel.Clear` returns to. -/
def After.cleared (id : LeaseId) : After → Pc
  | .settle e => .settleSession id e
  | .abort r | .refuse r => .done r

/-- Where `Burn` returns to, with the credit remaining. -/
def Meter.return (id : LeaseId) (remaining : ℤ) : Meter → Pc
  | .tick => .tickElapsed id remaining
  | .last e => .stopLease id .stopped (.settle e)

/-- **What a thread does next**: an operation on the shared state, and where it goes from there. -/
def Node.act (cfg : NodeConfig) (s : Node) : Pc → Outcome → Option (Op × Pc)
  -- `handleCreateSession`
  | .create seconds, out =>
    if !cfg.sessions then some (.skip, .done .notEnabled)
    else match out with
      | .fail err => some (.skip, .done (.error 400 ("invalid session spec: " ++ err)))
      | _ =>
        match cfg.leases.validateSessionSeconds seconds with
        | some err => some (.skip, .done (.error 400 err))
        | none => some (.skip, .validateSpec seconds (cfg.leases.sessionChunk seconds))
  | .validateSpec seconds chunk, out =>
    match validateLeaseSpec cfg s chunk out with
    | some err => some (.skip, .done (.error 400 err))
    | none => some (.skip, .accepting seconds chunk)
  | .accepting seconds chunk, _ =>
    if s.paused then some (.skip, .done .notAccepting)
    else match cfg.leases.sessionPricePerSecond with
      | .error err => some (.skip, .done (.error 500 err))
      | .ok price => some (.skip, .collectPayment seconds chunk price)
  | .collectPayment seconds chunk price, out =>
    match out with
    | .ok .. => some (.skip, .mint seconds chunk price)
    | .fail err => some (.skip, .done (.challenge err (price * chunk)))
    | .unavailable => some (.skip, .done .unreachable)
  | .mint seconds chunk price, out =>
    match out with
    | .ok nonce token =>
      some (.mint, .startLease
        { id := s.nextLease, seconds, chunk, price, sessionID := "0x" ++ nonce, token })
    | _ => some (.skip, .done (.error 500 "could not mint a session id"))
  -- `StartLease`
  | .startLease o, out =>
    match validateLeaseSpec cfg s o.chunk out with
    | some err => some (.skip, .done (.notStarted err))
    | none =>
      some (.skip, .claimSlot o (s.clock + Duration.ofSeconds (secondsToMinutes o.chunk * 60)))
  | .claimSlot o expiresAt, _ =>
    if s.busy then
      some (.skip, .done (.notStarted
        "this node already has an active lease; it rents to one renter at a time"))
    else
      some (.claim o.id (.provisioning o.token expiresAt (secondsToMinutes o.chunk)), .provision o)
  | .provision o, out =>
    match out with
    | .ok containerID _ => some (.lease o.id (.setContainer containerID), .awaitJupyter o)
    | .fail err => some (.skip, .failLease o err)
    | .unavailable => some (.skip, .failLease o "")
  | .awaitJupyter o, out =>
    match out with
    | .ok .. => some (.skip, .activate o)
    | .fail err => some (.skip, .failLease o err)
    | .unavailable => some (.skip, .failLease o "")
  | .failLease o err, _ => some (.lease o.id (.fail err), .reap o.id (.refuse (.notStarted err)))
  | .activate o, _ => some (.lease o.id (.setStatus .active), .sign o)
  -- `publishLease`
  | .sign o, out =>
    match out with
    | .ok .. => some (.skip, .pointAt o)
    | .fail err => some (.skip, .stopLease o.id .failed
        (.abort (.notPublished ("sign the lease certificate: " ++ err))))
    | .unavailable => some (.skip, .stopLease o.id .failed (.abort (.notPublished "")))
  | .pointAt o, out =>
    match out with
    | .ok .. => some (.point o.id, .reachable o)
    | .fail err => some (.unpoint, .stopLease o.id .failed
        (.abort (.notPublished ("publish the lease: " ++ err))))
    | .unavailable => some (.unpoint, .stopLease o.id .failed (.abort (.notPublished "")))
  | .reachable o, out =>
    match out with
    | .ok .. => some (.skip, .settleOpening o)
    | .fail err => some (.skip, .stopLease o.id .failed (.abort (.notPublished err)))
    | .unavailable => some (.skip, .stopLease o.id .failed (.abort (.notPublished "")))
  -- the settlement of the opening chunk
  | .settleOpening o, out =>
    match out with
    | .ok payer transaction => some (.settle o.id o.amount, .markMetered o payer transaction)
    | .fail err => some (.skip, .stopLease o.id .failed (.abort (.challenge err o.amount)))
    | .unavailable =>
      some (.skip, .stopLease o.id .failed (.abort (.challenge "settlement failed" o.amount)))
  | .markMetered o payer transaction, _ =>
    some (.lease o.id (.markMetered s.clock o.sessionID payer o.price o.amount),
      .setLength o payer transaction)
  | .setLength o payer transaction, _ =>
    some (.lease o.id (.setSessionLength o.seconds),
      .recordLease { id := o.id, amount := o.amount, payer, transaction, opening := some o })
  -- `recordSessionPayment`
  | .recordLease p, _ =>
    some (publishAudit cfg
      { kind := .lease, jobID := p.id, transaction := p.transaction, payer := p.payer,
        amountTinybars := p.amount }, .recordDuration p)
  | .recordDuration p, _ => some (.skip, .recordPayment p (s.lease p.id).secondsRemaining)
  | .recordPayment p duration, _ =>
    let l := s.lease p.id
    some (publishAudit cfg
      { kind := .sessionOpen, jobID := p.id, sessionID := l.sessionID,
        transaction := p.transaction, payer := p.payer, amountTinybars := p.amount,
        pricePerSecond := some l.pricePerSecond, durationSecs := duration,
        refundTinybars := some l.credit }, .respond p)
  | .respond p, _ =>
    let l := s.lease p.id
    match p.opening with
    | some o => some (.skip, .done (.created (sessionCreated cfg l o p)))
    | none => some (.skip, .done (.state (sessionState cfg p.id l)))
  -- `authorizeSession`
  | .authorize path token route, _ =>
    if !cfg.sessions then some (.skip, .done .notEnabled)
    else match s.activeLease with
      | none => some (.skip, .done .noSession)
      | some id => some (.skip, .checkToken id path token route)
  | .checkToken id path token route, _ =>
    if (s.lease id).sessionID ≠ path.id ∨ (s.lease id).token ≠ token then
      some (.skip, .done .noSession)
    else match route with
      | .topUp => some (.skip, .topUpStatus id)
      | .stop => some (.skip, .stopStatus id)
  -- `handleTopUpSession`
  | .topUpStatus id, _ =>
    let status := (s.lease id).status
    if status.isTerminal then some (.skip, .done (.alreadyOver status))
    else some (.skip, .topUpLength id)
  | .topUpLength id, _ =>
    let l := s.lease id
    if l.pricePerSecond ≤ 0 then some (.skip, .done .noMeter)
    else if 0 < l.sessionSeconds then some (.skip, .topUpUnpaid id l.pricePerSecond)
    else some (.skip, .topUpCap id l.pricePerSecond cfg.leases.sessionChunkSeconds)
  | .topUpUnpaid id price, _ =>
    let l := s.lease id
    if l.unpaidSeconds ≤ 0 then some (.skip, .done (.paidInFull l.sessionSeconds))
    else some (.skip, .topUpCap id price (min cfg.leases.sessionChunkSeconds l.unpaidSeconds))
  | .topUpCap id price chunk, _ =>
    let bought := (s.lease id).paidSeconds
    let maxTotal := cfg.leases.maxTotalMinutes * 60
    if maxTotal < bought + chunk then some (.skip, .done (.capped maxTotal bought))
    else some (.skip, .topUpCollect id price chunk)
  | .topUpCollect id price chunk, out =>
    match out with
    | .ok .. => some (.skip, .settleTopUp id price chunk)
    | .fail err => some (.skip, .done (.challenge err (price * chunk)))
    | .unavailable => some (.skip, .done .unreachable)
  | .settleTopUp id price chunk, out =>
    match out with
    | .ok payer transaction =>
      some (.settle id (price * chunk),
        .addCredit { id, amount := price * chunk, payer, transaction, opening := none })
    | .fail err => some (.skip, .done (.challenge err (price * chunk)))
    | .unavailable => some (.skip, .done (.challenge "settlement failed" (price * chunk)))
  | .addCredit p, _ => some (.lease p.id (.addCredit p.amount), .topUpPaused p)
  | .topUpPaused p, _ =>
    if (s.lease p.id).status = .paused then some (.skip, .resume p)
    else some (.skip, .recordLease p)
  | .resume p, _ =>
    let l := s.lease p.id
    some (.lease p.id (.resume s.clock),
      if l.status = .paused ∧ l.containerID ≠ "" then .unpause p else .recordLease p)
  | .unpause p, out =>
    match out with
    | .ok .. => some (.thaw p.id, .recordLease p)
    | _ => some (.skip, .recordLease p)
  -- `handleSessionStop`, `EndLease`
  | .stopStatus id, _ =>
    if (s.lease id).status = .active then some (.skip, .readClock id (.last .stop))
    else some (.skip, .stopLease id .stopped (.settle .stop))
  | .endLease, _ =>
    match s.activeLease with
    | none => some (.skip, .done (.ended none))
    | some id => some (.skip, .endStatus id)
  | .endStatus id, _ =>
    if (s.lease id).status.isTerminal then some (.skip, .done (.ended none))
    else some (.skip, .endMeter id)
  | .endMeter id, _ =>
    let l := s.lease id
    if l.sessionID ≠ "" ∧ l.status = .active then some (.skip, .readClock id (.last .evict))
    else some (.skip, .stopLease id .stopped (.settle .evict))
  -- `Burn`, after its clock reading
  | .readClock id m, _ => some (.skip, .burn id s.clock m)
  | .burn id now m, _ => some (.lease id (.burn now), m.return id ((s.lease id).burn now).2.2)
  -- `sweepLeases`
  | .sweep, _ =>
    match s.activeLease with
    | none => some (.skip, .done .swept)
    | some id => some (.skip, .sweepStatus id)
  | .sweepStatus id, _ =>
    if (s.lease id).status.isTerminal then some (.skip, .settleSession id .sweep)
    else some (.skip, .sweepMeter id)
  | .sweepMeter id, _ =>
    let l := s.lease id
    if l.sessionID ≠ "" ∧ l.status = .active then some (.skip, .readClock id .tick)
    else some (.skip, .sweepSwitch id)
  | .tickElapsed id remaining, _ =>
    let l := s.lease id
    some (.skip, .tickPublish id remaining (elapsedSeconds l.pricePerSecond l.burned))
  | .tickPublish id remaining elapsed, _ =>
    let l := s.lease id
    some (publishAudit cfg
      { kind := .sessionBurn, jobID := id, sessionID := l.sessionID, payer := l.payer,
        amountTinybars := l.burned, refundTinybars := some remaining,
        pricePerSecond := some l.pricePerSecond, elapsedSecs := elapsed }, .sweepSwitch id)
  | .sweepSwitch id, _ =>
    match (s.lease id).status with
    | .active => some (.skip, .sweepFullyPaid id)
    | .paused => some (.skip, .sweepPaused id)
    | _ => some (.skip, .done .swept)
  | .sweepFullyPaid id, _ =>
    if (s.lease id).fullyPaid then some (.skip, .sweepRemaining id)
    else some (.skip, .sweepOverdue id)
  | .sweepRemaining id, _ =>
    if (s.lease id).secondsRemaining = 0 then
      some (.skip, .stopLease id .expired (.settle .sweep))
    else some (.skip, .sweepOverdue id)
  | .sweepOverdue id, _ =>
    if (s.lease id).overdueBy s.clock < sessionFreezeGrace then some (.skip, .done .swept)
    else some (.skip, .pause id)
  | .pause id, _ =>
    let l := s.lease id
    some (.lease id (.pause s.clock),
      if l.status = .active ∧ l.containerID ≠ "" then .pauseContainer id else .done .swept)
  | .pauseContainer id, out =>
    match out with
    | .ok .. => some (.freeze id, .done .swept)
    | _ => some (.skip, .done .swept)
  | .sweepPaused id, _ =>
    if (s.lease id).pausedFor s.clock < Duration.ofSeconds (cfg.leases.graceMinutes * 60) then
      some (.skip, .done .swept)
    else some (.skip, .stopLease id .expired (.settle .sweep))
  -- `StopLease`, then `tunnel.Clear`
  | .stopLease id status k, _ =>
    if (s.lease id).status.isTerminal then some (.skip, k.return id)
    else some (.lease id (.stop status), .reap id k)
  | .reap id k, _ => some (.thaw id, .release id k)
  | .release id k, _ => some (.release id, k.return id)
  | .clear id k, _ => some (.unpoint, k.cleared id)
  -- `settleSession`
  | .settleSession id e, _ =>
    let l := s.lease id
    if l.sessionID = "" ∨ l.settleState ≠ .pending then some (.skip, e.return id)
    else some (.skip, .readCredit id e)
  | .readCredit id e, _ =>
    let l := s.lease id
    if l.credit ≤ 0 then some (.skip, .markSettled id l.credit "" e)
    else if !cfg.sidecar then some (.skip, .recordSettlement id l.credit "" e)
    else some (.skip, .refund id l.payer l.credit e)
  | .refund id _ owed e, out =>
    match out with
    | .ok transaction _ => some (.refund id owed, .markSettled id owed transaction e)
    | _ => some (.skip, e.return id)
  | .markSettled id owed transaction e, _ =>
    some (.lease id (.markSettled owed), .recordSettlement id owed transaction e)
  | .recordSettlement id refund transaction e, _ =>
    let l := s.lease id
    some (publishAudit cfg
      { kind := .sessionSettled, jobID := id, sessionID := l.sessionID, transaction,
        payer := l.payer, amountTinybars := l.burned, refundTinybars := some refund,
        pricePerSecond := some l.pricePerSecond,
        elapsedSecs := elapsedSeconds l.pricePerSecond l.burned }, e.return id)
  | .respondState id, _ => some (.skip, .done (.state (sessionState cfg id (s.lease id))))
  | .done _, _ => none

section

attribute [local simp] Node.act

/-- A thread that has ended does nothing. -/
@[simp] theorem Node.act_done (cfg : NodeConfig) (s : Node) (r : Response) (out : Outcome) :
    s.act cfg (.done r) out = none := by
  simp

end

/-! ### The machine -/

/-- What happens on its own: time passes, the provider stops or resumes selling. -/
inductive Event
  | advance (nanoseconds : ℕ)
  | setPaused (paused : Bool)
  deriving DecidableEq, Repr

/-- What happens by itself. -/
def Node.env (s : Node) : Event → Node
  | .advance nanoseconds => { s with clock := s.clock + nanoseconds }
  | .setPaused paused => { s with paused }

/-- The first thing a thread does. -/
def Request.start : Request → Pc
  | .create seconds => .create seconds
  | .topUp path token => .authorize path token .topUp
  | .stop path token => .authorize path token .stop
  | .endLease => .endLease
  | .sweep => .sweep

/-- **The node** as a machine. -/
def node (cfg : NodeConfig) : Machine Node Op Pc Outcome Request Event where
  act := Node.act cfg
  apply := Node.apply
  start := Request.start
  env := Node.env

/-- Its runs from the start. -/
abbrev nodeSystem (cfg : NodeConfig) := (node cfg).system Node.initial

/-! ### A small node -/

/-- A node that sells a minute at a time, for a tinybar a second. -/
def NodeConfig.small : NodeConfig where
  leases :=
    { priceTinybarsPerMinute := 60, priceTinybarsPerSecond := none, minMinutes := 1
      maxMinutes := 60, maxTotalMinutes := 120, graceMinutes := 1, sessionChunkSeconds := 60
      lowCreditThresholdSeconds := 30, minMinutes_pos := by decide, minMinutes_le := by decide
      maxMinutes_le := by decide, chunk_ge := by decide, chunk_le := by decide
      lowCredit_lt := by decide }
  sessions := true
  sidecar := true
  audit := true

/-- Thread `i` takes `n` steps, and every call to the outside succeeds. -/
def turns (i n : ℕ) : List (Machine.Label Outcome Request Event) :=
  List.replicate n (.run i (.ok "ab" "t"))

/-- A session of two minutes is opened; its handler answers. -/
def openSession : List (Machine.Label Outcome Request Event) :=
  .start (.create 120) :: turns 0 20

/-- The path of that session. -/
def sessionPath : SessionPath := ⟨"0xab", by decide⟩

/-- It is opened, and stopped by its renter. -/
def stopSession : List (Machine.Label Outcome Request Event) :=
  openSession ++ .start (.stop sessionPath "t") :: turns 1 15

end Mach402
