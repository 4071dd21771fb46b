import Mach402.Registry.Listing

/-!
# A node that announces itself

`Run` of the node's announcer posts a heartbeat at once and then on every tick of a timer, until it
is told to stop; it then withdraws the node.  Requests and answers travel, and may be lost, next to
the calls of anyone else that the registry of `Store` serves.  One clock counts for both.

* `Process`, `step`, `announcing`: `Run`, `beat`, `withdraw` and `post`, step by step, with the
  registry;
* `Status.listed`: what the provider's dashboard shows of the listing;
* `Process.Sound`, `listed_seen`: how far that is behind the registry;
* `Steady`, `Process.OnTime`, `online_while_beating`: a node is never shown as offline while no
  more heartbeats in a row are lost than the window of the registry allows for.
-/

namespace Mach402
namespace Registry

/-! ### When rows have been seen -/

section Seen

variable {hashToken : String → String} {w : World} {n : String} {t : ℕ}

/-- A row that has been seen at some time or later. -/
def World.SeenSince (w : World) (n : String) (t : ℕ) : Prop :=
  ∃ row, w.nodes n = some row ∧ t ≤ row.lastSeenAt

/-- No row has been seen in the future. -/
def World.Past (w : World) : Prop := ∀ n row, w.nodes n = some row → row.lastSeenAt ≤ w.now

theorem write_now (w : World) (r : Request) : (w.write hashToken r).now = w.now := by
  cases r <;> rfl

theorem World.Past.write (h : w.Past) (r : Request) : (w.write hashToken r).Past := by
  intro n row hn
  rw [write_now]
  by_cases hne : n = r.nodeId
  · subst hne
    cases r with
    | heartbeat beat token =>
      rw [Request.nodeId, write_heartbeat_nodes, Option.some.injEq] at hn
      rw [← hn]
      cases w.nodes beat.nodeId <;> exact le_rfl
    | withdraw nodeId token =>
      rw [Request.nodeId, write_withdraw_nodes] at hn
      obtain ⟨row', hrow', rfl⟩ := Option.map_eq_some_iff.1 hn
      exact h nodeId row' hrow'
  · rw [write_nodes_of_ne hne] at hn
    exact h n row hn

/-- A heartbeat is seen when it is written. -/
theorem seenSince_heartbeat (w : World) (beat : Heartbeat) (token : String) :
    (w.write hashToken (.heartbeat beat token)).SeenSince beat.nodeId w.now := by
  refine ⟨_, write_heartbeat_nodes, ?_⟩
  cases w.nodes beat.nodeId <;> exact le_rfl

theorem World.SeenSince.mono {t' : ℕ} (h : w.SeenSince n t) (hle : t' ≤ t) : w.SeenSince n t' := by
  obtain ⟨row, hrow, ht⟩ := h
  exact ⟨row, hrow, hle.trans ht⟩

/-- **What has been seen stays so.** -/
theorem World.SeenSince.write (h : w.SeenSince n t) (hpast : w.Past) (r : Request) :
    (w.write hashToken r).SeenSince n t := by
  obtain ⟨row, hrow, ht⟩ := h
  by_cases hne : n = r.nodeId
  · subst hne
    cases r with
    | heartbeat beat token =>
      exact (seenSince_heartbeat w beat token).mono (ht.trans (hpast _ row hrow))
    | withdraw nodeId token =>
      refine ⟨{ row with withdrawn := true }, ?_, ht⟩
      rw [Request.nodeId, write_withdraw_nodes, show w.nodes nodeId = _ from hrow]
      rfl
  · exact ⟨row, by rw [write_nodes_of_ne hne]; exact hrow, ht⟩

/-- A row that has not been withdrawn. -/
def World.Up (w : World) (n : String) : Prop := ∃ row, w.nodes n = some row ∧ row.withdrawn = false

theorem up_heartbeat (w : World) (beat : Heartbeat) (token : String) :
    (w.write hashToken (.heartbeat beat token)).Up beat.nodeId := by
  refine ⟨_, write_heartbeat_nodes, ?_⟩
  cases w.nodes beat.nodeId <;> rfl

theorem World.Holds.unique {a b : String} (h : w.Holds n a) (h' : w.Holds n b) : a = b := by
  rw [World.Holds, h] at h'
  exact Option.some.inj h'

end Seen

namespace Announcer

/-! ### The node's side -/

/-- How often a node announces itself, in milliseconds. -/
def interval : ℕ := 30000

/-- The timeout of the HTTP client. -/
def beatTimeout : ℕ := 15000

/-- The time-out of the context that a withdrawal has of its own. -/
def withdrawTimeout : ℕ := 5000

/-- A time that is zero in the source is `none`. -/
structure Status where
  configured : Bool
  lastAttempt : Option ℕ
  lastSuccess : Option ℕ
  err : String
  withdrawn : Bool
  deriving DecidableEq

/-- `Listed`: a heartbeat has succeeded less than ninety seconds ago. -/
def Status.listed (s : Status) (now : ℕ) : Bool :=
  s.configured && !s.withdrawn && s.lastSuccess.any fun t => now - t < 90000

/-- A ticker holds at most one tick that nobody has taken, and drops the others. -/
structure Ticker where
  due : ℕ
  pending : Bool
  deriving DecidableEq

/-- The ticks that come due; one is kept. -/
def Ticker.elapse (t : Ticker) (now : ℕ) : Ticker :=
  if now < t.due then t else ⟨t.due + interval * ((now - t.due) / interval + 1), true⟩

/-- Where `Run` is.  A post knows the call of the registry that its request has become. -/
inductive Phase
  | beating (beat : Heartbeat) (started : ℕ) (call : Option ℕ)
  | selecting
  | withdrawing (started : ℕ) (call : Option ℕ)
  | stopped
  deriving DecidableEq

/-- An announcer, whether its context is cancelled, and a record of how many heartbeats have failed
since the last one that did not. -/
structure Process where
  phase : Phase
  status : Status
  ticker : Option Ticker
  cancelled : Bool
  missed : ℕ
  deriving DecidableEq

/-- Nothing has been announced yet. -/
def Status.new : Status := ⟨true, none, none, "", false⟩

/-- A node that does not run. -/
def Process.off : Process := ⟨.stopped, .new, none, false, 0⟩

/-- The first beat is immediate. -/
def Process.run (beat : Heartbeat) (now : ℕ) : Process :=
  ⟨.beating beat now none, .new, none, false, 0⟩

/-- When a post is given up. -/
def Phase.deadline : Phase → Option ℕ
  | .beating _ started _ => some (started + beatTimeout)
  | .withdrawing started _ => some (started + withdrawTimeout)
  | .selecting | .stopped => none

/-- The node, and the token that its listing is claimed with. -/
structure Identity where
  nodeId : String
  token : String

/-- The request of a post that has not arrived yet. -/
def Phase.request (id : Identity) : Phase → Option Request
  | .beating beat _ none => some (.heartbeat beat id.token)
  | .withdrawing _ none => some (.withdraw id.nodeId id.token)
  | _ => none

/-- The request has become a call of the registry. -/
def Phase.delivered (i : ℕ) : Phase → Phase
  | .beating beat started _ => .beating beat started (some i)
  | .withdrawing started _ => .withdrawing started (some i)
  | phase => phase

/-- The call that a request has become. -/
def Phase.call : Phase → Option ℕ
  | .beating _ _ call => call
  | .withdrawing _ call => call
  | .selecting | .stopped => none

/-- The error of a post that has been answered. -/
def error : Answer → Option String
  | .created | .updated | .withdrawn => none
  | .wrongToken => some "registry answered 403 Forbidden"
  | .unknown => some "registry answered 404 Not Found"

/-- The rest of `beat`, with the error of its post.  After the first, `Run` makes its ticker. -/
def Process.finishBeat (p : Process) (now : ℕ) (err : Option String) : Process :=
  { p with
    phase := .selecting
    status :=
      match err with
      | none => { p.status with lastAttempt := some now, lastSuccess := some now, err := "" }
      | some err => { p.status with lastAttempt := some now, err := err }
    ticker := some (p.ticker.getD ⟨now + interval, false⟩)
    missed := if err = none then 0 else p.missed + 1 }

/-- The rest of `withdraw`, which only logs its error, and of `Run`. -/
def Process.finishWithdraw (p : Process) : Process :=
  { p with phase := .stopped, status := { p.status with withdrawn := true } }

/-- A post is over. -/
def Process.finish (p : Process) (now : ℕ) (err : Option String) : Option Process :=
  match p.phase with
  | .beating .. => some (p.finishBeat now err)
  | .withdrawing .. => some p.finishWithdraw
  | .selecting | .stopped => none

/-! ### The node and the registry -/

/-- The registry, and the node that announces itself. -/
structure State where
  site : Config
  node : Process

/-- The time. -/
def State.now (s : State) : ℕ := s.site.shared.now

/-- What happens. -/
inductive Label
  | elapse (ms : ℕ)
  /-- Someone else's request arrives. -/
  | others (r : Request)
  /-- The registry executes the next statement of a call. -/
  | serve (i : ℕ)
  /-- The request of the post arrives. -/
  | deliver
  /-- The answer to it arrives. -/
  | answered
  /-- The post fails: it takes too long, the connection breaks, its context is cancelled, or the
  registry has refused to read the request. -/
  | lost (err : String)
  | cancel
  /-- `select` takes a tick; the node describes itself anew. -/
  | tick (beat : Heartbeat)
  /-- `select` takes the cancelled context. -/
  | stop
  | crash
  /-- The node is started. -/
  | boot (beat : Heartbeat)

/-- The environment of the registry lets time pass. -/
def elapsed (c : Config) (ms : ℕ) : Config :=
  { c with shared := { c.shared with now := c.shared.now + ms } }

/-- A call starts. -/
def received (c : Config) (r : Request) : Config := { c with threads := c.threads ++ [.select r] }

/-- One step, if it can be taken. -/
def step (hashToken : String → String) (id : Identity) (s : State) : Label → Option State
  | .elapse ms =>
    if s.node.phase.deadline.all fun t => s.now + ms ≤ t then
      some
        { site := elapsed s.site ms
          node := { s.node with ticker := s.node.ticker.map fun t => t.elapse (s.now + ms) } }
    else none
  | .others r => some { s with site := received s.site r }
  | .serve i =>
    ((registry hashToken).step s.site (.run i ())).map fun site => { s with site := site }
  | .deliver =>
    (s.node.phase.request id).map fun r =>
      { site := received s.site r
        node := { s.node with phase := s.node.phase.delivered s.site.threads.length } }
  | .answered =>
    s.node.phase.call.bind fun i =>
      match s.site.threads[i]? with
      | some (.done _ _ answer) =>
        (s.node.finish s.now (error answer)).map fun node => { s with node := node }
      | _ => none
  | .lost err =>
    if err = "" then none
    else (s.node.finish s.now (some err)).map fun node => { s with node := node }
  | .cancel => some { s with node := { s.node with cancelled := true } }
  | .tick beat =>
    match s.node.phase, s.node.ticker with
    | .selecting, some ⟨due, true⟩ =>
      if beat.nodeId = id.nodeId then
        some { s with node :=
          { s.node with phase := .beating beat s.now none, ticker := some ⟨due, false⟩ } }
      else none
    | _, _ => none
  | .stop =>
    if s.node.phase = .selecting ∧ s.node.cancelled = true then
      some { s with node := { s.node with phase := .withdrawing s.now none } }
    else none
  | .crash => some { s with node := .off }
  | .boot beat =>
    if s.node.phase = .stopped ∧ beat.nodeId = id.nodeId then
      some { s with node := .run beat s.now }
    else none

/-- **A node that announces itself**, from an empty registry on. -/
def announcing (hashToken : String → String) (id : Identity) (now : ℕ) : System State Label where
  init := ⟨⟨World.initial now, []⟩, .off⟩
  step := step hashToken id

variable {hashToken : String → String} {id : Identity} {s s' : State} {l : Label} {now : ℕ}

/-- What a step does. -/
inductive Moves (hashToken : String → String) (id : Identity) (s : State) : Label → State → Prop
  | elapse {ms : ℕ} (hdeadline : ∀ t, s.node.phase.deadline = some t → s.now + ms ≤ t) :
    Moves hashToken id s (.elapse ms)
      ⟨elapsed s.site ms,
        { s.node with ticker := s.node.ticker.map fun t => t.elapse (s.now + ms) }⟩
  | others {r : Request} : Moves hashToken id s (.others r) ⟨received s.site r, s.node⟩
  | serve {i : ℕ} {site : Config}
    (hserve : (registry hashToken).step s.site (.run i ()) = some site) :
    Moves hashToken id s (.serve i) ⟨site, s.node⟩
  | deliver {r : Request} (hr : s.node.phase.request id = some r) :
    Moves hashToken id s .deliver
      ⟨received s.site r, { s.node with phase := s.node.phase.delivered s.site.threads.length }⟩
  | answered {i : ℕ} {r : Request} {claimed : Option String} {answer : Answer} {node : Process}
    (hcall : s.node.phase.call = some i)
    (hdone : s.site.threads[i]? = some (.done r claimed answer))
    (hnode : s.node.finish s.now (error answer) = some node) :
    Moves hashToken id s .answered ⟨s.site, node⟩
  | lost {err : String} {node : Process} (hnode : s.node.finish s.now (some err) = some node) :
    Moves hashToken id s (.lost err) ⟨s.site, node⟩
  | cancel : Moves hashToken id s .cancel ⟨s.site, { s.node with cancelled := true }⟩
  | tick {beat : Heartbeat} {due : ℕ} (hphase : s.node.phase = .selecting)
    (hticker : s.node.ticker = some ⟨due, true⟩) (hid : beat.nodeId = id.nodeId) :
    Moves hashToken id s (.tick beat)
      ⟨s.site, { s.node with phase := .beating beat s.now none, ticker := some ⟨due, false⟩ }⟩
  | stop (hphase : s.node.phase = .selecting) :
    Moves hashToken id s .stop ⟨s.site, { s.node with phase := .withdrawing s.now none }⟩
  | crash : Moves hashToken id s .crash ⟨s.site, .off⟩
  | boot {beat : Heartbeat} (hphase : s.node.phase = .stopped) (hid : beat.nodeId = id.nodeId) :
    Moves hashToken id s (.boot beat) ⟨s.site, .run beat s.now⟩

theorem moves_of_step (h : step hashToken id s l = some s') : Moves hashToken id s l s' := by
  cases l with
  | elapse ms =>
    simp only [step] at h
    split_ifs at h with hall
    cases h
    refine .elapse fun t ht => ?_
    rw [ht] at hall
    exact of_decide_eq_true hall
  | others r => cases h; exact .others
  | serve i =>
    obtain ⟨site, hsite, rfl⟩ := Option.map_eq_some_iff.1 h
    exact .serve hsite
  | deliver =>
    obtain ⟨r, hr, rfl⟩ := Option.map_eq_some_iff.1 h
    exact .deliver hr
  | answered =>
    obtain ⟨i, hi, h⟩ := Option.bind_eq_some_iff.1 h
    split at h
    · obtain ⟨node, hnode, rfl⟩ := Option.map_eq_some_iff.1 h
      exact .answered hi ‹_› hnode
    · cases h
  | lost err =>
    simp only [step] at h
    split_ifs at h
    obtain ⟨node, hnode, rfl⟩ := Option.map_eq_some_iff.1 h
    exact .lost hnode
  | cancel => cases h; exact .cancel
  | tick beat =>
    simp only [step] at h
    split at h
    · split_ifs at h with hid
      cases h
      exact .tick ‹_› ‹_› hid
    · cases h
  | stop =>
    simp only [step] at h
    split_ifs at h with hc
    cases h
    exact .stop hc.1
  | crash => cases h; exact .crash
  | boot beat =>
    simp only [step] at h
    split_ifs at h with hc
    cases h
    exact .boot hc.1 hc.2

/-- **No row is claimed twice.** -/
def Claims (s : State) : Label → Prop
  | .serve i => Orderly s.site (.run i ())
  | _ => True

instance (s : State) : (l : Label) → Decidable (Claims s l)
  | .serve i => inferInstanceAs (Decidable (Orderly s.site (.run i ())))
  | .elapse _ | .others _ | .deliver | .answered | .lost _ | .cancel | .tick _ | .stop | .crash
  | .boot _ => inferInstanceAs (Decidable True)

/-- **The registry's side of a run** is a run of the registry. -/
theorem site_reach {C : State → Label → Prop} (hC : ∀ s l, C s l → Claims s l)
    (h : (announcing hashToken id now).Reach C s) :
    (registrySystem hashToken now).Reach Orderly s.site := by
  refine h.invariant (I := fun s => (registrySystem hashToken now).Reach Orderly s.site) .init
    fun s l s' _ ih hc hs => ?_
  cases moves_of_step hs with
  | @elapse ms => exact ih.step (l := .env ms) trivial rfl
  | @others r => exact ih.step (l := .start r) trivial rfl
  | @serve i site hserve => exact ih.step (l := .run i ()) (hC s (.serve i) hc) hserve
  | @deliver r => exact ih.step (l := .start r) trivial rfl
  | answered | lost | cancel | tick | stop | crash | boot => exact ih

/-- A call of the registry that serves a request, which has been written after `t` once the call is
done without an error. -/
def Serves (w : World) (r : Request) (t : ℕ) : Pc → Prop
  | .select r' => r' = r
  | .write r' _ => r' = r
  | .done r' _ answer => r' = r ∧ (error answer = none → r.beat.isSome → w.SeenSince r.nodeId t)

/-- **What the registry's side never takes back.** -/
structure Grows (c c' : Config) : Prop where
  now : c.shared.now ≤ c'.shared.now
  holds : ∀ n token, c.shared.Holds n token → c'.shared.Holds n token
  seen : ∀ n t, c.shared.SeenSince n t → c'.shared.SeenSince n t
  serves : ∀ (i : ℕ) (p : Pc) (r : Request) (t : ℕ), c.threads[i]? = some p → t ≤ c.shared.now →
    Serves c.shared r t p → ∃ p', c'.threads[i]? = some p' ∧ Serves c'.shared r t p'

theorem Serves.mono {w w' : World} {r : Request} {t : ℕ} {p : Pc} (h : Serves w r t p)
    (hseen : ∀ n t, w.SeenSince n t → w'.SeenSince n t) : Serves w' r t p := by
  cases p with
  | select | write => exact h
  | done => exact ⟨h.1, fun herr hbeat => hseen _ _ (h.2 herr hbeat)⟩

/-- The call that acts. -/
theorem Serves.acts {w : World} {r : Request} {t : ℕ} {p p' : Pc} {op : Option Request}
    (h : Serves w r t p) (ht : t ≤ w.now) (ha : Acts hashToken w p op p') :
    Serves (w.apply hashToken op) r t p' := by
  cases ha with
  | unclaimed | matched => exact h
  | unknown => exact ⟨h, fun herr => by cases herr⟩
  | mismatched => exact ⟨h, fun herr => by cases herr⟩
  | @written r' claimed =>
    obtain rfl : r' = r := h
    refine ⟨rfl, fun _ hbeat => ?_⟩
    cases r' with
    | heartbeat beat token => exact (seenSince_heartbeat w beat token).mono ht
    | withdraw => cases hbeat

theorem grows_elapsed (c : Config) (ms : ℕ) : Grows c (elapsed c ms) where
  now := Nat.le_add_right _ _
  holds _ _ h := h
  seen _ _ h := h
  serves _ p _ _ hp _ h := ⟨p, hp, h.mono fun _ _ h => h⟩

theorem grows_received (c : Config) (r : Request) : Grows c (received c r) where
  now := le_rfl
  holds _ _ h := h
  seen _ _ h := h
  serves i p _ _ hp _ h := by
    have hi := (List.getElem?_eq_some_iff.1 hp).1
    exact ⟨p, by rw [received, List.getElem?_append_left hi]; exact hp, h⟩

theorem serve_now {c c' : Config} {i : ℕ}
    (h : (registry hashToken).step c (.run i ()) = some c') : c'.shared.now = c.shared.now := by
  obtain ⟨p, op, p', -, -, rfl⟩ := Machine.step_run h
  cases op with
  | none => rfl
  | some r => exact write_now _ r

theorem grows_serve {c c' : Config} {i : ℕ} (hpast : c.shared.Past)
    (h : (registry hashToken).step c (.run i ()) = some c') : Grows c c' := by
  have hnow := serve_now h
  obtain ⟨p, op, p', hp, ha, rfl⟩ := Machine.step_run h
  have hi := (List.getElem?_eq_some_iff.1 hp).1
  have hseen : ∀ n t, c.shared.SeenSince n t → (c.shared.apply hashToken op).SeenSince n t := by
    intro n t hs
    cases op with
    | none => exact hs
    | some r => exact hs.write hpast r
  refine ⟨hnow.ge, ?_, hseen, ?_⟩
  · intro n token hn
    cases op with
    | none => exact hn
    | some r => exact hn.write
  · intro j q r t hq ht hserves
    by_cases hij : i = j
    · subst hij
      rw [hp, Option.some.injEq] at hq
      subst hq
      exact ⟨p', List.getElem?_set_self hi, hserves.acts ht (acts_of_act ha)⟩
    · exact ⟨q, by rw [List.getElem?_set_ne hij]; exact hq, hserves.mono hseen⟩

/-- No row of the registry has been seen in the future. -/
theorem past_of_reach {c : Config} {C : Config → Registry.Label → Prop}
    (h : (registrySystem hashToken now).Reach C c) : c.shared.Past := by
  refine Machine.shared_of_reach (M := registry hashToken) (I := World.Past)
    (fun n row hn => by cases hn)
    (fun w ms ih n row hn => (ih n row hn).trans (Nat.le_add_right _ _))
    (fun c i o p op p' _ _ _ _ ih => ?_) h
  cases op with
  | none => exact ih
  | some r => exact ih.write r

/-! ### What the dashboard knows -/

/-- **An announcer and the registry.**  A heartbeat that has succeeded was answered within the
time-out, and one under way is served by its call. -/
structure Process.Sound (hashToken : String → String) (id : Identity) (c : Config) (p : Process) :
    Prop where
  deadline : ∀ t, p.phase.deadline = some t → c.shared.now ≤ t
  success : ∀ t, p.status.lastSuccess = some t → t ≤ c.shared.now ∧
    c.shared.Holds id.nodeId (hashToken id.token) ∧
      ∃ since, c.shared.SeenSince id.nodeId since ∧ t ≤ since + beatTimeout
  beating : ∀ beat started call, p.phase = .beating beat started call →
    beat.nodeId = id.nodeId ∧ started ≤ c.shared.now ∧
      ∀ i, call = some i → ∃ q, c.threads[i]? = some q ∧
        Serves c.shared (.heartbeat beat id.token) started q

section Sound

variable {c c' : Config} {p p' : Process} {err : Option String}

theorem Process.Sound.off (hashToken : String → String) (id : Identity) (c : Config) :
    Process.off.Sound hashToken id c where
  deadline t ht := by cases ht
  success t ht := by cases ht
  beating _ _ _ hp := by cases hp

/-- A post starts. -/
theorem Process.Sound.post (h : p.Sound hashToken id c) {beat : Heartbeat}
    (hid : beat.nodeId = id.nodeId) (ticker : Option Ticker) :
    ({ p with phase := .beating beat c.shared.now none, ticker := ticker } : Process).Sound
      hashToken id c where
  deadline t ht := by
    cases ht
    exact Nat.le_add_right _ _
  success := h.success
  beating beat' started call hp := by
    cases hp
    exact ⟨hid, le_rfl, fun i hi => by cases hi⟩

/-- The registry's side goes on. -/
theorem Process.Sound.grows (h : p.Sound hashToken id c) (hg : Grows c c')
    (hdeadline : ∀ t, p.phase.deadline = some t → c'.shared.now ≤ t) :
    p.Sound hashToken id c' where
  deadline := hdeadline
  success t ht := by
    obtain ⟨hle, hholds, since, hseen, hsince⟩ := h.success t ht
    exact ⟨hle.trans hg.now, hg.holds _ _ hholds, since, hg.seen _ _ hseen, hsince⟩
  beating beat started call hp := by
    obtain ⟨hid, hle, hcall⟩ := h.beating beat started call hp
    refine ⟨hid, hle.trans hg.now, fun i hi => ?_⟩
    obtain ⟨q, hq, hserves⟩ := hcall i hi
    exact hg.serves i q _ started hq hle hserves

/-- A post ends. -/
theorem finish_cases (h : p.finish now err = some p') :
    (∃ beat started call, p.phase = .beating beat started call ∧ p' = p.finishBeat now err) ∨
      ∃ started call, p.phase = .withdrawing started call ∧ p' = p.finishWithdraw := by
  cases hp : p.phase with
  | beating beat started call =>
    simp only [Process.finish, hp, Option.some.injEq] at h
    exact Or.inl ⟨beat, started, call, rfl, h.symm⟩
  | withdrawing started call =>
    simp only [Process.finish, hp, Option.some.injEq] at h
    exact Or.inr ⟨started, call, rfl, h.symm⟩
  | selecting => simp [Process.finish, hp] at h
  | stopped => simp [Process.finish, hp] at h

theorem Process.Sound.finish (h : p.Sound hashToken id c)
    (hf : p.finish c.shared.now err = some p')
    (hseen : ∀ beat started call, p.phase = .beating beat started call → err = none →
      c.shared.Holds id.nodeId (hashToken id.token) ∧ c.shared.SeenSince id.nodeId started) :
    p'.Sound hashToken id c := by
  rcases finish_cases hf with ⟨beat, started, call, hp, rfl⟩ | ⟨started, call, hp, rfl⟩
  · refine ⟨by simp [Process.finishBeat, Phase.deadline], fun t ht => ?_,
      by simp [Process.finishBeat]⟩
    cases err with
    | some err => exact h.success t ht
    | none =>
      cases ht
      obtain ⟨hholds, hs⟩ := hseen beat started call hp rfl
      exact ⟨le_rfl, hholds, started, hs, h.deadline _ (by rw [hp]; rfl)⟩
  · exact ⟨by simp [Process.finishWithdraw, Phase.deadline], h.success,
      by simp [Process.finishWithdraw]⟩

end Sound

/-- A heartbeat that the registry has answered without an error is written. -/
theorem answered_seen (hinj : Function.Injective hashToken) {c : Config}
    (hc : (registrySystem hashToken now).Reach Orderly c) {i : ℕ} {r : Request}
    {claimed : Option String} {answer : Answer} {t : ℕ}
    (hdone : c.threads[i]? = some (.done r claimed answer)) (hbeat : r.beat.isSome)
    (hserves : Serves c.shared r t (.done r claimed answer)) (herr : error answer = none) :
    c.shared.Holds r.nodeId (hashToken r.token) ∧ c.shared.SeenSince r.nodeId t := by
  refine ⟨?_, hserves.2 herr hbeat⟩
  have hsound := ((storeOutline hinj now).holds hc).annot i _ hdone
  cases claimed with
  | none =>
    rcases hsound with rfl | hholds
    · cases herr
    · exact hholds
  | some claimed =>
    rcases hsound.2 with rfl | rfl
    · exact hsound.1
    · cases herr

/-- **The announcer is sound** in every state reached. -/
theorem node_sound (hinj : Function.Injective hashToken) {C : State → Label → Prop}
    (hC : ∀ s l, C s l → Claims s l) (h : (announcing hashToken id now).Reach C s) :
    s.node.Sound hashToken id s.site := by
  refine h.invariant (I := fun s => s.node.Sound hashToken id s.site) (.off hashToken id _)
    fun s l s' hr ih hc hs => ?_
  have hsite := site_reach hC hr
  cases moves_of_step hs with
  | @elapse ms hdeadline =>
    have hgrown := ih.grows (grows_elapsed s.site ms) hdeadline
    exact ⟨hgrown.deadline, hgrown.success, hgrown.beating⟩
  | @others r => exact ih.grows (grows_received s.site r) ih.deadline
  | @serve i site hserve =>
    refine ih.grows (grows_serve (past_of_reach hsite) hserve) fun t ht => ?_
    rw [serve_now hserve]
    exact ih.deadline t ht
  | @deliver r hr =>
    have hgrown := ih.grows (grows_received s.site r) ih.deadline
    cases hp : s.node.phase with
    | selecting | stopped => simp [hp, Phase.request] at hr
    | withdrawing started call =>
      refine ⟨fun t ht => hgrown.deadline t ?_, hgrown.success, by simp [Phase.delivered]⟩
      rw [hp]
      exact ht
    | beating beat started call =>
      cases call with
      | some i => simp [hp, Phase.request] at hr
      | none =>
        simp only [hp, Phase.request, Option.some.injEq] at hr
        subst hr
        obtain ⟨hid, hle, -⟩ := ih.beating beat started none hp
        refine ⟨fun t ht => hgrown.deadline t ?_, hgrown.success, ?_⟩
        · rw [hp]
          exact ht
        · intro beat' started' call' hp'
          cases hp'
          refine ⟨hid, hle, fun i hi => ?_⟩
          cases hi
          exact ⟨.select _, by simp [received], rfl⟩
  | @answered i r claimed answer node hcall hdone hnode =>
    refine ih.finish hnode fun beat started call hp herr => ?_
    simp only [hp, Phase.call] at hcall
    subst hcall
    obtain ⟨hid, -, hserves⟩ := ih.beating beat started _ hp
    obtain ⟨q, hq, hserves⟩ := hserves i rfl
    rw [hdone, Option.some.injEq] at hq
    subst hq
    obtain rfl := hserves.1
    rw [← hid]
    exact answered_seen hinj hsite hdone rfl hserves herr
  | lost hnode => exact ih.finish hnode fun _ _ _ _ herr => by cases herr
  | cancel => exact ⟨ih.deadline, ih.success, ih.beating⟩
  | tick hphase hticker hid => exact ih.post hid _
  | stop =>
    refine ⟨fun t ht => ?_, ih.success, fun _ _ _ hp => by cases hp⟩
    cases ht
    exact Nat.le_add_right _ _
  | crash => exact .off hashToken id _
  | boot hphase hid => exact (Process.Sound.off hashToken id s.site).post hid none

/-- **What the dashboard calls listed.**  While it does, the node's row carries the node's token,
and the registry has seen the node within its window and one time-out: the dashboard counts from the
answer, and the registry from the write. -/
theorem listed_seen (hinj : Function.Injective hashToken)
    (h : (announcing hashToken id now).Reach Claims s)
    (hlisted : s.node.status.listed s.now = true) :
    ∃ row, s.site.shared.nodes id.nodeId = some row ∧ row.tokenSha256 = hashToken id.token ∧
      s.now < row.lastSeenAt + onlineWindow + beatTimeout := by
  have hsound := node_sound hinj (fun _ _ h => h) h
  obtain ⟨t, ht, hrecent⟩ : ∃ t, s.node.status.lastSuccess = some t ∧ s.now - t < 90000 := by
    simp only [Status.listed, Bool.and_eq_true, Option.any_eq_true, decide_eq_true_eq] at hlisted
    exact hlisted.2
  obtain ⟨-, hholds, since, ⟨row, hrow, hle⟩, hsince⟩ := hsound.success t ht
  refine ⟨row, hrow, ?_, ?_⟩
  · rw [World.Holds, hrow] at hholds
    exact Option.some.inj hholds
  · rw [onlineWindow]
    omega

/-! ### Steady runs -/

/-- How soon `Run` takes a tick, how long a heartbeat takes until it is answered or given up, and
how many in a row may fail. -/
structure Pace where
  lag : ℕ
  roundTrip : ℕ
  losses : ℕ

/-- **The pace fits into the registry's window.** -/
structure Pace.Fits (pace : Pace) : Prop where
  tick : pace.lag + pace.roundTrip < interval
  window : (pace.losses + 1) * interval + pace.lag + 2 * pace.roundTrip < onlineWindow

/-- While `Run` beats. -/
def Phase.announces : Phase → Bool
  | .beating .. | .selecting => true
  | .withdrawing .. | .stopped => false

/-- One interval after the tick that `Run` is to take next, or has taken last. -/
def Process.expected (p : Process) : ℕ :=
  match p.phase, p.ticker with
  | .selecting, some ⟨due, false⟩ => due + interval
  | _, some t => t.due
  | _, none => 0

/-- A call of the registry that may still withdraw with the node's token. -/
def withdraws (id : Identity) : Pc → Bool
  | .select r | .write r _ => decide (r.token = id.token) && r.beat.isNone
  | .done .. => false

/-- Until when `Run` may be where it is. -/
def Pace.waits (pace : Pace) (p : Process) (t : ℕ) : Bool :=
  match p.phase with
  | .beating _ started _ => decide (t ≤ started + pace.roundTrip)
  | .selecting => decide (t + interval ≤ p.expected + pace.lag)
  | .withdrawing .. | .stopped => true

/-- **A steady run.**  Nobody else has the node's token, `Run` keeps to the pace, a node is started
only once its last withdrawal is over, and no more heartbeats in a row fail than the pace says. -/
def Steady (id : Identity) (pace : Pace) (s : State) : Label → Prop
  | .elapse ms => pace.waits s.node (s.now + ms) = true
  | .others r => r.token ≠ id.token
  | .serve i => Orderly s.site (.run i ())
  | .lost _ => s.node.status.lastSuccess.isSome = true → s.node.missed < pace.losses
  | .boot _ => ∀ q ∈ s.site.threads, withdraws id q = false
  | .deliver | .answered | .cancel | .tick _ | .stop | .crash => True

instance (id : Identity) (pace : Pace) (s : State) : (l : Label) → Decidable (Steady id pace s l)
  | .elapse ms => inferInstanceAs (Decidable (pace.waits s.node (s.now + ms) = true))
  | .serve i => inferInstanceAs (Decidable (Orderly s.site (.run i ())))
  | .others r => inferInstanceAs (Decidable (r.token ≠ id.token))
  | .lost _ => inferInstanceAs (Decidable (_ → _))
  | .boot _ => inferInstanceAs (Decidable (∀ q ∈ s.site.threads, withdraws id q = false))
  | .deliver | .answered | .cancel | .tick _ | .stop | .crash => inferInstanceAs (Decidable True)

variable {pace : Pace}

theorem Steady.claims (h : Steady id pace s l) : Claims s l := by
  cases l with
  | serve i => exact h
  | elapse | others | deliver | answered | lost | cancel | tick | stop | crash | boot => trivial

/-- **No withdrawal is under way** while the node announces itself. -/
theorem not_withdraws_of_announces (h : (announcing hashToken id now).Reach (Steady id pace) s)
    (hphase : s.node.phase.announces = true) :
    ∀ q ∈ s.site.threads, withdraws id q = false := by
  refine h.invariant (I := fun s => s.node.phase.announces = true →
    ∀ q ∈ s.site.threads, withdraws id q = false) (by simp [announcing])
    (fun s l s' hr ih hc hs => ?_) hphase
  cases moves_of_step hs with
  | elapse => exact ih
  | @others r =>
    intro hphase q hq
    rcases List.mem_append.1 hq with hq | hq
    · exact ih hphase q hq
    · rw [List.mem_singleton.1 hq, withdraws, decide_eq_false hc, Bool.false_and]
  | @serve i site hserve =>
    intro hphase q hq
    obtain ⟨p, op, p', hp, ha, rfl⟩ := Machine.step_run hserve
    rcases List.mem_or_eq_of_mem_set hq with hq | rfl
    · exact ih hphase q hq
    · have hbefore := ih hphase p (List.mem_of_getElem? hp)
      cases acts_of_act ha with
      | unclaimed | matched => exact hbefore
      | unknown | mismatched | written => rfl
  | @deliver r hr =>
    intro hphase q hq
    cases hp : s.node.phase with
    | selecting | stopped => simp [hp, Phase.request] at hr
    | withdrawing started call => simp [hp, Phase.delivered, Phase.announces] at hphase
    | beating beat started call =>
      rcases List.mem_append.1 hq with hq | hq
      · exact ih (by rw [hp]; rfl) q hq
      · cases call with
        | some i => simp [hp, Phase.request] at hr
        | none =>
          simp only [hp, Phase.request, Option.some.injEq] at hr
          rw [List.mem_singleton.1 hq, ← hr]
          simp [withdraws, Request.beat]
  | answered _ _ hnode | lost hnode =>
    intro hphase
    rcases finish_cases hnode with ⟨beat, started, call, hp, rfl⟩ | ⟨started, call, hp, rfl⟩
    · exact ih (by rw [hp]; rfl)
    · cases hphase
  | cancel => exact ih
  | tick hphase => exact fun _ => ih (by rw [hphase]; rfl)
  | stop | crash => exact fun hphase => by cases hphase
  | boot => exact fun _ => hc

/-! ### The schedule -/

theorem Ticker.elapse_of_lt {t : Ticker} (h : now < t.due) : t.elapse now = t := if_pos h

theorem Ticker.elapse_of_le {t : Ticker} (h : t.due ≤ now) (h' : now < t.due + interval) :
    t.elapse now = ⟨t.due + interval, true⟩ := by
  have hzero : (now - t.due) / interval = 0 := Nat.div_eq_of_lt (by omega)
  rw [Ticker.elapse, if_neg (by omega), hzero, zero_add, mul_one]

/-- **`Run` keeps to its ticker.**  No tick comes due while it beats, and it takes each one before
the next. -/
structure Process.OnTime (pace : Pace) (now : ℕ) (p : Process) : Prop where
  beating : ∀ beat started call, p.phase = .beating beat started call →
    started ≤ now ∧ now ≤ started + pace.roundTrip ∧ ∀ t, p.ticker = some t →
      t.pending = false ∧ t.due ≤ started + interval ∧ started + interval ≤ t.due + pace.lag
  selecting : p.phase = .selecting → ∃ t, p.ticker = some t ∧
    now + interval ≤ p.expected + pace.lag ∧ (t.pending = false → now < t.due) ∧
      (t.pending = true → t.due ≤ now + interval)
  first : p.ticker = none → p.status.lastSuccess = none

section OnTime

variable {p p' : Process}

theorem Process.OnTime.off (pace : Pace) (now : ℕ) : Process.off.OnTime pace now where
  beating _ _ _ hp := by cases hp
  selecting hp := by cases hp
  first _ := rfl

theorem Process.OnTime.elapse (hfits : pace.Fits) (h : p.OnTime pace now) {now' : ℕ}
    (hle : now ≤ now') (hwaits : pace.waits p now' = true) :
    Process.OnTime pace now' { p with ticker := p.ticker.map fun t => t.elapse now' } := by
  have htick := hfits.tick
  refine ⟨fun beat started call hp => ?_, fun hp => ?_, fun ht => h.first (by simpa using ht)⟩
  · obtain ⟨hstarted, -, hticker⟩ := h.beating beat started call hp
    simp only [Pace.waits, show p.phase = _ from hp, decide_eq_true_eq] at hwaits
    refine ⟨hstarted.trans hle, hwaits, fun t' ht' => ?_⟩
    obtain ⟨t, ht, rfl⟩ := Option.map_eq_some_iff.1 ht'
    obtain ⟨hpending, hdue, hlag⟩ := hticker t ht
    rw [Ticker.elapse_of_lt (by omega)]
    exact ⟨hpending, hdue, hlag⟩
  · obtain ⟨⟨due, pending⟩, ht, -, hfree, htaken⟩ := h.selecting hp
    have hp' : p.phase = .selecting := hp
    simp only [Pace.waits, hp', decide_eq_true_eq] at hwaits
    refine ⟨Ticker.elapse ⟨due, pending⟩ now', by simp [ht], ?_⟩
    simp only [Process.expected, hp', ht, Option.map_some] at hwaits ⊢
    cases pending with
    | true =>
      have hdue := htaken rfl
      have hlt : now' < due := by simp only at hwaits; omega
      rw [Ticker.elapse_of_lt hlt]
      refine ⟨hwaits, by simp, fun _ => ?_⟩
      show due ≤ now' + interval
      exact hdue.trans (Nat.add_le_add_right hle _)
    | false =>
      by_cases hlt : now' < due
      · rw [Ticker.elapse_of_lt hlt]
        exact ⟨hwaits, fun _ => hlt, by simp⟩
      · simp only at hwaits
        rw [Ticker.elapse_of_le (Nat.le_of_not_lt hlt) (by simp only; omega)]
        refine ⟨hwaits, by simp, fun _ => ?_⟩
        show due + interval ≤ now' + interval
        omega

theorem Process.OnTime.finish (hfits : pace.Fits) (h : p.OnTime pace now) {err : Option String}
    (hf : p.finish now err = some p') : p'.OnTime pace now := by
  have htick := hfits.tick
  rcases finish_cases hf with ⟨beat, started, call, hp, rfl⟩ | ⟨started, call, hp, rfl⟩
  · obtain ⟨hstarted, hnow, hticker⟩ := h.beating beat started call hp
    refine ⟨by simp [Process.finishBeat], fun _ => ?_, by simp [Process.finishBeat]⟩
    cases ht : p.ticker with
    | none =>
      refine ⟨⟨now + interval, false⟩, by simp [Process.finishBeat, ht], ?_, fun _ => ?_, by simp⟩
      · simp only [Process.expected, Process.finishBeat, ht, Option.getD_none]
        omega
      · show now < now + interval
        exact Nat.lt_add_of_pos_right (by decide)
    | some t =>
      obtain ⟨due, pending⟩ := t
      obtain ⟨rfl, hdue, hlag⟩ := hticker _ ht
      simp only at hdue hlag
      refine ⟨⟨due, false⟩, by simp [Process.finishBeat, ht], ?_, fun _ => ?_, by simp⟩
      · simp only [Process.expected, Process.finishBeat, ht, Option.getD_some]
        omega
      · show now < due
        omega
  · exact ⟨by simp [Process.finishWithdraw], by simp [Process.finishWithdraw], h.first⟩

end OnTime

/-- **`Run` keeps to its ticker**, in every state of a steady run. -/
theorem onTime_of_steady (hfits : pace.Fits)
    (h : (announcing hashToken id now).Reach (Steady id pace) s) :
    s.node.OnTime pace s.now := by
  refine h.invariant (I := fun s => s.node.OnTime pace s.now) (.off pace now)
    fun s l s' hr ih hc hs => ?_
  cases moves_of_step hs with
  | elapse => exact ih.elapse hfits (Nat.le_add_right _ _) hc
  | others => exact ih
  | @serve i site hserve =>
    rw [State.now, serve_now hserve]
    exact ih
  | deliver hr =>
    cases hp : s.node.phase with
    | selecting | stopped => simp [hp, Phase.request] at hr
    | withdrawing started call =>
      exact ⟨by simp [Phase.delivered], by simp [Phase.delivered], ih.first⟩
    | beating beat started call =>
      refine ⟨fun beat' started' call' hp' => ?_, by simp [Phase.delivered], ih.first⟩
      cases hp'
      exact ih.beating beat started call hp
  | answered _ _ hnode | lost hnode => exact ih.finish hfits hnode
  | cancel => exact ⟨ih.beating, ih.selecting, ih.first⟩
  | tick hphase hticker =>
    obtain ⟨t, ht, hlag, -, hdue⟩ := ih.selecting hphase
    rw [hticker, Option.some.injEq] at ht
    subst ht
    simp only [Process.expected, hphase, hticker] at hlag
    refine ⟨fun beat started call hp => ?_, (by simp), (by simp)⟩
    cases hp
    refine ⟨le_rfl, Nat.le_add_right _ _, fun t ht => ?_⟩
    cases ht
    exact ⟨rfl, hdue rfl, hlag⟩
  | stop => exact ⟨(by simp), (by simp), ih.first⟩
  | crash => exact .off pace s.now
  | boot =>
    refine ⟨fun beat started call hp => ?_, by simp [Process.run], fun _ => rfl⟩
    cases hp
    exact ⟨le_rfl, Nat.le_add_right _ _, by simp [Process.run]⟩

/-! ### The row stays up -/

section Up

variable {c : Config}

/-- **A write leaves the row up**, unless it withdraws with the node's token. -/
theorem up_apply (hinj : Function.Injective hashToken) {p p' : Pc} {op : Option Request}
    (ha : Acts hashToken c.shared p op p') (hsound : p.Sound hashToken c.shared)
    (hholds : c.shared.Holds id.nodeId (hashToken id.token)) (hfree : withdraws id p = false)
    (hup : c.shared.Up id.nodeId) : (c.shared.apply hashToken op).Up id.nodeId := by
  cases ha with
  | unclaimed | unknown | matched | mismatched => exact hup
  | @written r claimed =>
    by_cases hn : id.nodeId = r.nodeId
    · cases r with
      | heartbeat beat token =>
        rw [hn]
        exact up_heartbeat _ _ _
      | withdraw nodeId token =>
        -- it would have found the node's token
        cases claimed with
        | none => cases hsound
        | some claimed =>
          have htoken : token = id.token := by
            have heq := World.Holds.unique (hn ▸ hholds) hsound.2
            exact hinj (hsound.1.symm.trans heq.symm)
          simp [withdraws, Request.token, Request.beat, htoken] at hfree
    · obtain ⟨row, hrow, hw⟩ := hup
      exact ⟨row, by rw [World.apply, write_nodes_of_ne hn]; exact hrow, hw⟩

/-- **What the node's own call brings about.** -/
theorem up_answer {p : Pc} {r : Request} {claimed : Option String} {answer : Answer}
    {op : Option Request} {t : ℕ} {beat : Heartbeat} (hid : beat.nodeId = id.nodeId)
    (ha : Acts hashToken c.shared p op (.done r claimed answer))
    (hserves : Serves c.shared (.heartbeat beat id.token) t p) :
    (error answer = none → (c.shared.apply hashToken op).Up id.nodeId) ∧
      (c.shared.Holds id.nodeId (hashToken id.token) → error answer = none) := by
  cases ha with
  | unknown => cases hserves
  | mismatched hn hm =>
    refine ⟨fun herr => (by cases herr), fun hholds => absurd ?_ hm⟩
    obtain rfl : r = .heartbeat beat id.token := hserves
    rw [← hid] at hholds
    exact World.Holds.unique (holds_of_nodes hn) hholds
  | written =>
    obtain rfl : r = .heartbeat beat id.token := hserves
    refine ⟨fun _ => hid ▸ up_heartbeat _ _ _, fun _ => ?_⟩
    cases claimed <;> rfl

end Up

/-- **The row of a node that announces itself**, once it has been told of a success, and once a
call of it is done. -/
structure State.Kept (id : Identity) (s : State) : Prop where
  up : s.node.phase.announces = true → s.node.status.lastSuccess.isSome = true →
    s.site.shared.Up id.nodeId
  call : ∀ beat started i r claimed answer, s.node.phase = .beating beat started (some i) →
    s.site.threads[i]? = some (.done r claimed answer) →
    (error answer = none → s.site.shared.Up id.nodeId) ∧
      (s.node.status.lastSuccess.isSome = true → error answer = none)

theorem State.Kept.silent (h : s.node.phase.announces = false) : s.Kept id where
  up hphase := by rw [h] at hphase; cases hphase
  call _ _ _ _ _ _ hp := by rw [hp] at h; cases h

/-- The registry executes a statement. -/
theorem State.Kept.serve (hinj : Function.Injective hashToken) {i : ℕ} {site : Config}
    (h : s.Kept id) (hr : (announcing hashToken id now).Reach (Steady id pace) s)
    (hserve : (registry hashToken).step s.site (.run i ()) = some site) :
    State.Kept id ⟨site, s.node⟩ := by
  have hsite := site_reach (fun _ _ => Steady.claims) hr
  have hnode := node_sound hinj (fun _ _ => Steady.claims) hr
  obtain ⟨p, op, p', hp, ha, rfl⟩ := Machine.step_run hserve
  have hsound := ((storeOutline hinj now).holds hsite).annot i p hp
  have hi := (List.getElem?_eq_some_iff.1 hp).1
  have hfree : s.node.phase.announces = true → withdraws id p = false := fun hphase =>
    not_withdraws_of_announces hr hphase p (List.mem_of_getElem? hp)
  have hholds : s.node.status.lastSuccess.isSome = true →
      s.site.shared.Holds id.nodeId (hashToken id.token) := by
    intro hsome
    obtain ⟨t, ht⟩ := Option.isSome_iff_exists.1 hsome
    exact (hnode.success t ht).2.1
  refine ⟨fun hphase hsome => ?_, fun beat started j r claimed answer hphase hdone => ?_⟩
  · exact up_apply hinj (acts_of_act ha) hsound (hholds hsome) (hfree hphase) (h.up hphase hsome)
  · obtain ⟨hid, -, hserves⟩ := hnode.beating beat started _ hphase
    obtain ⟨q, hq, hserves⟩ := hserves j rfl
    by_cases hij : i = j
    · subst hij
      rw [hp, Option.some.injEq] at hq
      subst hq
      have hdone' : (s.site.threads.set i p')[i]? = some (.done r claimed answer) := hdone
      rw [List.getElem?_set_self hi, Option.some.injEq] at hdone'
      subst hdone'
      obtain ⟨hup, herr⟩ := up_answer hid (acts_of_act ha) hserves
      exact ⟨hup, fun hsome => herr (hholds hsome)⟩
    · have hdone' : (s.site.threads.set i p')[j]? = some (.done r claimed answer) := hdone
      rw [List.getElem?_set_ne hij] at hdone'
      obtain ⟨hup, herr⟩ := h.call beat started j r claimed answer hphase hdone'
      refine ⟨fun hnone => ?_, herr⟩
      rw [hdone', Option.some.injEq] at hq
      subst hq
      obtain rfl := hserves.1
      have hseen := answered_seen hinj hsite hdone' rfl hserves hnone
      have hfree' : withdraws id p = false := hfree (by rw [hphase]; rfl)
      exact up_apply hinj (acts_of_act ha) hsound (hid ▸ hseen.1) hfree' (hup hnone)

theorem kept_of_steady (hinj : Function.Injective hashToken)
    (h : (announcing hashToken id now).Reach (Steady id pace) s) : s.Kept id := by
  refine h.invariant (I := State.Kept id) (.silent rfl) fun s l s' hr ih hc hs => ?_
  have hnode := node_sound hinj (fun _ _ => Steady.claims) hr
  cases moves_of_step hs with
  | elapse => exact ⟨ih.up, ih.call⟩
  | @others r =>
    refine ⟨ih.up, fun beat started i r' claimed answer hphase hdone => ?_⟩
    obtain ⟨-, -, hserves⟩ := hnode.beating beat started _ hphase
    obtain ⟨q, hq, -⟩ := hserves i rfl
    have hi := (List.getElem?_eq_some_iff.1 hq).1
    have hdone' : (s.site.threads ++ [.select r])[i]? = some (.done r' claimed answer) := hdone
    rw [List.getElem?_append_left hi] at hdone'
    exact ih.call beat started i r' claimed answer hphase hdone'
  | serve hserve => exact ih.serve hinj hr hserve
  | @deliver r hr =>
    cases hp : s.node.phase with
    | selecting | stopped => simp [hp, Phase.request] at hr
    | withdrawing started call => exact .silent rfl
    | beating beat started call =>
      refine ⟨fun _ => ih.up (by rw [hp]; rfl), fun _ _ i r' claimed answer hp' hdone => ?_⟩
      -- the call has just started
      cases hp'
      have hdone' : (s.site.threads ++ [.select r])[s.site.threads.length]? =
          some (.done r' claimed answer) := hdone
      simp at hdone'
  | @answered i r claimed answer node hcall hdone hnode' =>
    rcases finish_cases hnode' with ⟨beat, started, call, hp, rfl⟩ | ⟨started, call, hp, rfl⟩
    · simp only [hp, Phase.call] at hcall
      subst hcall
      obtain ⟨hup, herr⟩ := ih.call beat started i r claimed answer hp hdone
      refine ⟨fun _ hsome => ?_, by simp [Process.finishBeat]⟩
      cases hanswer : error answer with
      | none => exact hup hanswer
      | some err =>
        rw [hanswer] at hsome
        exact ih.up (by rw [hp]; rfl) hsome
    · exact .silent rfl
  | lost hnode' =>
    rcases finish_cases hnode' with ⟨beat, started, call, hp, rfl⟩ | ⟨started, call, hp, rfl⟩
    · exact ⟨fun _ => ih.up (by rw [hp]; rfl), by simp [Process.finishBeat]⟩
    · exact .silent rfl
  | cancel => exact ⟨ih.up, ih.call⟩
  | tick hphase => exact ⟨fun _ => ih.up (by rw [hphase]; rfl), by simp⟩
  | stop | crash => exact .silent rfl
  | boot => exact ⟨fun _ hsome => (by cases hsome), by simp [Process.run]⟩

/-! ### How long a listing lasts -/

/-- **What is left of the window**: if the next heartbeats fail as long as they may, the one after
them is still written in time. -/
def Pace.InTime (pace : Pace) (p : Process) (seen : ℕ) : Prop :=
  p.missed ≤ pace.losses ∧
    p.expected + pace.lag + pace.losses * interval + pace.roundTrip <
      seen + onlineWindow + interval + p.missed * interval

section InTime

variable {p p' : Process}

theorem Process.OnTime.expected_elapse (hfits : pace.Fits) (h : p.OnTime pace now) {now' : ℕ}
    (hwaits : pace.waits p now' = true) (hphase : p.phase.announces = true) :
    Process.expected { p with ticker := p.ticker.map fun t => t.elapse now' } = p.expected := by
  have htick := hfits.tick
  cases hp : p.phase with
  | withdrawing | stopped =>
    rw [hp] at hphase
    cases hphase
  | beating beat started call =>
    obtain ⟨-, -, hticker⟩ := h.beating beat started call hp
    simp only [Pace.waits, hp, decide_eq_true_eq] at hwaits
    cases ht : p.ticker with
    | none => simp only [Process.expected, hp, ht, Option.map_none]
    | some t =>
      obtain ⟨hpending, hdue, hlag⟩ := hticker t ht
      simp only [Process.expected, hp, ht, Option.map_some]
      rw [Ticker.elapse_of_lt (by omega)]
  | selecting =>
    obtain ⟨⟨due, pending⟩, ht, -, hfree, htaken⟩ := h.selecting hp
    simp only [Pace.waits, hp, decide_eq_true_eq, Process.expected, ht] at hwaits
    simp only [Process.expected, hp, ht, Option.map_some]
    cases pending with
    | true =>
      simp only at hwaits
      rw [Ticker.elapse_of_lt (by simp only; omega)]
    | false =>
      simp only at hwaits
      by_cases hlt : now' < due
      · rw [Ticker.elapse_of_lt hlt]
      · rw [Ticker.elapse_of_le (Nat.le_of_not_lt hlt) (by simp only; omega)]

theorem Process.expected_delivered (p : Process) (i : ℕ) :
    Process.expected { p with phase := p.phase.delivered i } = p.expected := by
  cases hp : p.phase <;> cases ht : p.ticker <;>
    simp only [Process.expected, Phase.delivered, hp, ht]

/-- A heartbeat ends, and `Run` expects the next tick. -/
theorem Process.OnTime.expected_finishBeat (h : p.OnTime pace now) {beat : Heartbeat}
    {started : ℕ} {call : Option ℕ} (hp : p.phase = .beating beat started call)
    (err : Option String) :
    (p.ticker = none ∧ (p.finishBeat now err).expected = now + interval + interval) ∨
      p.expected ≤ started + interval ∧
        (p.finishBeat now err).expected = p.expected + interval := by
  cases ht : p.ticker with
  | none => exact Or.inl ⟨rfl, by simp [Process.expected, Process.finishBeat, ht]⟩
  | some t =>
    obtain ⟨due, pending⟩ := t
    obtain ⟨rfl, hdue, -⟩ := (h.beating beat started call hp).2.2 _ ht
    refine Or.inr ⟨?_, ?_⟩
    · simp only [Process.expected, hp, ht]
      exact hdue
    · simp [Process.expected, Process.finishBeat, hp, ht]

end InTime

/-- **The registry has seen the node in time**, once the node has been told of a success. -/
def State.Seen (id : Identity) (pace : Pace) (s : State) : Prop :=
  s.node.phase.announces = true → s.node.status.lastSuccess.isSome = true →
    ∃ seen, s.site.shared.SeenSince id.nodeId seen ∧ pace.InTime s.node seen

/-- Time goes on within the pace. -/
theorem State.Seen.elapse (hfits : pace.Fits) (h : s.Seen id pace)
    (htime : s.node.OnTime pace s.now) {ms : ℕ} (hwaits : pace.waits s.node (s.now + ms) = true) :
    State.Seen id pace ⟨elapsed s.site ms,
      { s.node with ticker := s.node.ticker.map fun t => t.elapse (s.now + ms) }⟩ := by
  intro hphase hsome
  obtain ⟨seen, hseen, hle, hlt⟩ := h hphase hsome
  refine ⟨seen, hseen, hle, ?_⟩
  rw [htime.expected_elapse hfits hwaits hphase]
  exact hlt

/-- The request of the post becomes a call. -/
theorem State.Seen.deliver (h : s.Seen id pace) {r : Request}
    (hr : s.node.phase.request id = some r) :
    State.Seen id pace ⟨received s.site r,
      { s.node with phase := s.node.phase.delivered s.site.threads.length }⟩ := by
  intro hphase hsome
  cases hp : s.node.phase with
  | selecting | stopped => simp [hp, Phase.request] at hr
  | withdrawing started call => simp [hp, Phase.delivered, Phase.announces] at hphase
  | beating beat started call =>
    obtain ⟨seen, hseen, hle, hlt⟩ := h (by rw [hp]; rfl) hsome
    refine ⟨seen, hseen, hle, ?_⟩
    have hexp := s.node.expected_delivered s.site.threads.length
    rw [hp] at hexp
    exact lt_of_eq_of_lt (congrArg (· + pace.lag + pace.losses * interval + pace.roundTrip) hexp)
      hlt

/-- A heartbeat that is answered without an error has just been written. -/
theorem State.Seen.succeed (hfits : pace.Fits) (htime : s.node.OnTime pace s.now) {beat : Heartbeat}
    {started : ℕ} {call : Option ℕ} (hp : s.node.phase = .beating beat started call)
    (hseen : s.site.shared.SeenSince id.nodeId started) :
    State.Seen id pace ⟨s.site, s.node.finishBeat s.now none⟩ := by
  intro _ _
  have hwindow := hfits.window
  have hmissed : (s.node.finishBeat s.now none).missed = 0 := rfl
  obtain ⟨hstarted, hnow, -⟩ := htime.beating beat started _ hp
  refine ⟨started, hseen, Nat.zero_le _, ?_⟩
  rw [hmissed]
  rw [Nat.add_mul] at hwindow
  rcases htime.expected_finishBeat hp none with ⟨-, hexp⟩ | ⟨hle, hexp⟩
  · rw [hexp]
    omega
  · rw [hexp]
    omega

/-- A heartbeat that fails is one of those that may. -/
theorem State.Seen.fail (h : s.Seen id pace) (htime : s.node.OnTime pace s.now) {beat : Heartbeat}
    {started : ℕ} {call : Option ℕ} (hp : s.node.phase = .beating beat started call)
    {err : String} (hfew : s.node.status.lastSuccess.isSome = true → s.node.missed < pace.losses) :
    State.Seen id pace ⟨s.site, s.node.finishBeat s.now (some err)⟩ := by
  intro _ hsome
  have hsome' : s.node.status.lastSuccess.isSome = true := hsome
  obtain ⟨seen, hseen, hle, hlt⟩ := h (by rw [hp]; rfl) hsome'
  have hmissed : (s.node.finishBeat s.now (some err)).missed = s.node.missed + 1 := rfl
  refine ⟨seen, hseen, ?_⟩
  rw [Pace.InTime, hmissed]
  refine ⟨hfew hsome', ?_⟩
  rcases htime.expected_finishBeat hp (some err) with ⟨ht, -⟩ | ⟨-, hexp⟩
  · rw [htime.first ht] at hsome'
    cases hsome'
  · rw [hexp, Nat.add_mul]
    omega

/-- A post is answered. -/
theorem State.Seen.answered (hinj : Function.Injective hashToken) (hfits : pace.Fits)
    (hr : (announcing hashToken id now).Reach (Steady id pace) s)
    {i : ℕ} {r : Request} {claimed : Option String} {answer : Answer} {node : Process}
    (hcall : s.node.phase.call = some i)
    (hdone : s.site.threads[i]? = some (.done r claimed answer))
    (hnode : s.node.finish s.now (error answer) = some node) :
    State.Seen id pace ⟨s.site, node⟩ := by
  have hsite := site_reach (fun _ _ => Steady.claims) hr
  have hsound := node_sound hinj (fun _ _ => Steady.claims) hr
  rcases finish_cases hnode with ⟨beat, started, call, hp, rfl⟩ | ⟨started, call, hp, rfl⟩
  · simp only [hp, Phase.call] at hcall
    subst hcall
    obtain ⟨hid, -, hserves⟩ := hsound.beating beat started _ hp
    obtain ⟨q, hq, hserves⟩ := hserves i rfl
    rw [hdone, Option.some.injEq] at hq
    subst hq
    obtain rfl := hserves.1
    cases herr : error answer with
    | some err =>
      -- a node that has succeeded before is not turned away
      intro _ hsome
      have hnone := ((kept_of_steady hinj hr).call beat started i _ claimed answer hp hdone).2 hsome
      rw [herr] at hnone
      cases hnone
    | none =>
      obtain ⟨-, hseen⟩ := answered_seen hinj hsite hdone rfl hserves herr
      exact .succeed hfits (onTime_of_steady hfits hr) hp (hid ▸ hseen)
  · exact fun hphase => by cases hphase

theorem seen_of_steady (hinj : Function.Injective hashToken) (hfits : pace.Fits)
    (h : (announcing hashToken id now).Reach (Steady id pace) s) : s.Seen id pace := by
  refine h.invariant (I := State.Seen id pace) (fun hphase => by cases hphase)
    fun s l s' hr ih hc hs => ?_
  have htime := onTime_of_steady hfits hr
  cases moves_of_step hs with
  | elapse => exact ih.elapse hfits htime hc
  | others => exact ih
  | serve hserve =>
    intro hphase hsome
    obtain ⟨seen, hseen, hin⟩ := ih hphase hsome
    have hpast := past_of_reach (site_reach (fun _ _ => Steady.claims) hr)
    exact ⟨seen, (grows_serve hpast hserve).seen _ _ hseen, hin⟩
  | deliver hr' => exact ih.deliver hr'
  | answered hcall hdone hnode => exact .answered hinj hfits hr hcall hdone hnode
  | lost hnode =>
    rcases finish_cases hnode with ⟨beat, started, call, hp, rfl⟩ | ⟨started, call, hp, rfl⟩
    · exact ih.fail htime hp hc
    · exact fun hphase => by cases hphase
  | cancel => exact ih
  | tick hphase' hticker =>
    intro _ hsome
    obtain ⟨seen, hseen, hle, hlt⟩ := ih (by rw [hphase']; rfl) hsome
    refine ⟨seen, hseen, hle, ?_⟩
    simpa only [Process.expected, hphase', hticker] using hlt
  | stop | crash => exact fun hphase => by cases hphase
  | boot => exact fun _ hsome => by cases hsome

/-- **A node is shown as online while it announces itself**: once a heartbeat has succeeded, in
every state of a steady run, whatever else the registry serves. -/
theorem online_while_beating (hinj : Function.Injective hashToken) (hfits : pace.Fits)
    (h : (announcing hashToken id now).Reach (Steady id pace) s)
    (hphase : s.node.phase.announces = true) (hsome : s.node.status.lastSuccess.isSome = true) :
    ∃ l, s.site.shared.getNode id.nodeId = some l ∧ l.online = true := by
  obtain ⟨row, hrow, hup⟩ := (kept_of_steady hinj h).up hphase hsome
  obtain ⟨seen, ⟨row', hrow', hseen⟩, hle, hlt⟩ := seen_of_steady hinj hfits h hphase hsome
  rw [hrow, Option.some.injEq] at hrow'
  subst hrow'
  have htime := onTime_of_steady hfits h
  have hmissed : s.node.missed * interval ≤ pace.losses * interval := Nat.mul_le_mul_right _ hle
  refine ⟨_, congrArg (Option.map _) hrow, ?_⟩
  show (!row.withdrawn && decide (s.now < row.lastSeenAt + onlineWindow)) = true
  rw [hup, Bool.not_false, Bool.true_and, decide_eq_true_eq]
  cases hp : s.node.phase with
  | withdrawing | stopped =>
    rw [hp] at hphase
    cases hphase
  | selecting =>
    obtain ⟨t, -, hnow, -⟩ := htime.selecting hp
    omega
  | beating beat started call =>
    obtain ⟨-, hnow, hticker⟩ := htime.beating beat started call hp
    cases ht : s.node.ticker with
    | none =>
      rw [htime.first ht] at hsome
      cases hsome
    | some t =>
      obtain ⟨-, -, hlag⟩ := hticker t ht
      simp only [Process.expected, hp, ht] at hlt
      omega

/-! ### A node that loses one heartbeat -/

/-- The node of the examples. -/
def sampleIdentity : Identity := ⟨"node", "alice"⟩

/-- Half a second to take a tick, five seconds for a heartbeat, and one of two may fail. -/
def samplePace : Pace := ⟨500, 5000, 1⟩

theorem samplePace_fits : samplePace.Fits := ⟨by decide, by decide⟩

/-- The first heartbeat is answered after three seconds, and the second one is not. -/
def loseOne : List Label :=
  [.boot (.sample "0.0.1"), .deliver, .serve 0, .serve 0, .elapse 3000, .answered, .elapse 30000,
    .tick (.sample "0.0.1"), .elapse 5000, .lost "timeout", .elapse 25500,
    .tick (.sample "0.0.1"), .deliver, .serve 1, .elapse 4000]

theorem listed_seen_lost :
    ∃ s, (announcing sampleHash sampleIdentity 0).Reach Claims s ∧
      (s.now = 67500 ∧ s.node.missed = 1 ∧ s.node.status.listed s.now = true) ∧
      ∃ row, s.site.shared.nodes "node" = some row ∧ row.tokenSha256 = sampleHash "alice" ∧
        s.now < row.lastSeenAt + onlineWindow + beatTimeout := by
  obtain ⟨s, hs, hp⟩ := System.exists_reach (S := announcing sampleHash sampleIdentity 0)
    (C := Claims) (p := fun s => decide
      (s.now = 67500 ∧ s.node.missed = 1 ∧ s.node.status.listed s.now = true)) loseOne (by decide)
  obtain ⟨hnow, hmissed, hlisted⟩ := of_decide_eq_true hp
  exact ⟨s, hs, ⟨hnow, hmissed, hlisted⟩, listed_seen sampleHash_injective hs hlisted⟩

theorem online_while_beating_lost :
    ∃ s, (announcing sampleHash sampleIdentity 0).Reach (Steady sampleIdentity samplePace) s ∧
      (s.now = 67500 ∧ s.node.missed = 1) ∧
      ∃ l, s.site.shared.getNode "node" = some l ∧ l.online = true := by
  obtain ⟨s, hs, hp⟩ := System.exists_reach (S := announcing sampleHash sampleIdentity 0)
    (C := Steady sampleIdentity samplePace) (p := fun s => decide
      (s.now = 67500 ∧ s.node.missed = 1 ∧ s.node.phase.announces = true ∧
        s.node.status.lastSuccess.isSome = true)) loseOne (by decide)
  obtain ⟨hnow, hmissed, hphase, hsome⟩ := of_decide_eq_true hp
  exact ⟨s, hs, ⟨hnow, hmissed⟩,
    online_while_beating sampleHash_injective samplePace_fits hs hphase hsome⟩

end Announcer
end Registry
end Mach402
