import Mach402.Agent.CreateSession
import Mach402.Library.Base64
import Mach402.Library.JsonText

/-!
# The session API on the wire

What `handleCreateSession` reads of the body of a request, and the texts that it answers with.

* `encodeChallenge`: a challenge, as the header of a 402 has it;
* `sessionResponse`: the body of a 200;
* `decodeSessionSpec`: the body of a request.  The decoder knows a field in any letter case, takes
  the last of two fields with one name, and refuses a field that it does not know;
* `handleCreateSession_costs`: what every answer to a request says that the session costs.
-/

namespace Mach402

open JsonText (Tree Style Numeral)

/-! ### What the node writes -/

/-- How `json.Marshal` writes strings. -/
def marshalStyle : Style where
  escapes c := c = '<' || c = '>' || c = '&' || c = '\u2028' || c = '\u2029'
  unit c h := by
    simp only [Bool.or_eq_true, decide_eq_true_eq] at h
    rcases h with (((rfl | rfl) | rfl) | rfl) | rfl <;> decide

/-- `json.Marshal`. -/
def marshal (t : Tree) : List Char := JsonText.write marshalStyle t

/-- A field with `omitempty`. -/
def omitEmpty (key value : String) : List (String × Tree) :=
  if value = "" then [] else [(key, .string value)]

/-- The JSON of what is paid for. -/
def ResourceInfo.tree (r : ResourceInfo) : Tree :=
  .object (("url", .string r.url) :: (omitEmpty "description" r.description ++
    omitEmpty "mimeType" r.mimeType ++ omitEmpty "serviceName" r.serviceName))

/-- The members of a way to pay, in the order of the struct's fields. -/
def PaymentRequirements.members (r : PaymentRequirements) : List (String × Tree) :=
  [("scheme", .string r.scheme), ("network", .string r.network), ("amount", .string r.amount),
    ("asset", .string r.asset), ("payTo", .string r.payTo),
    ("maxTimeoutSeconds", .number (.ofInt r.maxTimeoutSeconds)),
    ("extra", .object [("feePayer", .string r.feePayer)])]

/-- The JSON of a way to pay. -/
def PaymentRequirements.tree (r : PaymentRequirements) : Tree := .object r.members

/-- The JSON of a challenge. -/
def PaymentRequired.tree (c : PaymentRequired) : Tree :=
  .object (("x402Version", .number (.ofInt c.x402Version)) :: (omitEmpty "error" c.error ++
    [("resource", c.resource.tree), ("accepts", .array (c.accepts.map PaymentRequirements.tree))]))

/-- `EncodeChallenge`: the header that `WriteChallenge` sets. -/
def encodeChallenge (c : PaymentRequired) : List Char :=
  Base64.encode (Bytes.utf8 (marshal c.tree))

/-- What a session is reached with. -/
structure Access where
  leaseID : String
  expiresAt : String
  certificate : String
  sshUser : String
  sshHost : String
  sshPrincipal : String
  jupyterURL : String
  jupyterToken : String
  tunnelMode : String

/-- `sessionResponse`: the body of a 200. -/
def sessionResponse (amountTinybars : String) (s : SessionCreated) (a : Access) : Tree :=
  .object ([("session_id", .string s.sessionID), ("lease_id", .string a.leaseID)] ++
    omitEmpty "token" s.token ++
    [("status", .string s.status.text), ("expires_at", .string a.expiresAt),
      ("certificate", .string a.certificate), ("ssh_user", .string a.sshUser)] ++
    omitEmpty "ssh_host" a.sshHost ++
    [("ssh_principal", .string a.sshPrincipal), ("jupyter_url", .string a.jupyterURL),
      ("jupyter_token", .string a.jupyterToken), ("tunnel_mode", .string a.tunnelMode),
      ("transaction", .string s.transaction), ("payer", .string s.payer),
      ("amount_tinybars", .string amountTinybars),
      ("price_tinybars_per_second", .string (toString s.priceTinybarsPerSecond)),
      ("credit_tinybars", .string (toString s.creditTinybars)), ("low_credits", .bool s.lowCredits),
      ("seconds", .number (.ofInt s.seconds)),
      ("session_seconds", .number (.ofInt s.sessionSeconds)), ("fully_paid", .bool s.fullyPaid)])

/-! ### What the node reads -/

/-- `sessionSpec`: what a renter asks for. -/
structure SessionSpec where
  seconds : ℤ
  publicKey : String
  requireGPU : Bool
  deriving DecidableEq, Repr

/-- A longer body is cut. -/
def maxSessionSpecBytes : ℕ := 65536

/-- `io.LimitReader`. -/
def limitReader : ℕ → List Char → List Char
  | _, [] => []
  | n, c :: cs => if c.utf8Size ≤ n then c :: limitReader (n - c.utf8Size) cs else []

/-- Letter case does not matter, nor do the two letters beyond ASCII that fold to one of it. -/
def foldRune (c : Char) : Char :=
  if c = '\u017f' then 'S' else if c = '\u212a' then 'K' else c.toUpper

/-- The name of a field, with letter case folded. -/
def foldName (key : String) : String := key.map foldRune

namespace SessionSpec

/-- `null` leaves a field as it is. -/
def readInt (old : ℤ) : Tree → Option ℤ
  | .null => some old
  | .number n => n.toInt?.filter fun z => -2 ^ 63 ≤ z ∧ z < 2 ^ 63
  | _ => none

/-- A text for a field that has been `old`. -/
def readString (old : String) : Tree → Option String
  | .null => some old
  | .string s => some s
  | _ => none

/-- A truth value for a field that has been `old`. -/
def readBool (old : Bool) : Tree → Option Bool
  | .null => some old
  | .bool b => some b
  | _ => none

/-- One member of the object. -/
def set (spec : SessionSpec) (m : String × Tree) : Option SessionSpec :=
  if foldName m.1 = "SECONDS" then
    (readInt spec.seconds m.2).map fun seconds => { spec with seconds }
  else if foldName m.1 = "PUBLIC_KEY" then
    (readString spec.publicKey m.2).map fun publicKey => { spec with publicKey }
  else if foldName m.1 = "REQUIRE_GPU" then
    (readBool spec.requireGPU m.2).map fun requireGPU => { spec with requireGPU }
  else none

/-- `null` leaves the spec empty. -/
def ofTree : Tree → Option SessionSpec
  | .null => some ⟨0, "", false⟩
  | .object ms => ms.foldlM set ⟨0, "", false⟩
  | _ => none

end SessionSpec

/-- `decodeSessionSpec`.  What follows the first value of the body is not read. -/
def decodeSessionSpec (body : List Char) : Option SessionSpec :=
  let text := limitReader maxSessionSpecBytes body
  (JsonText.readValue (text.length + 1) text).bind fun r => SessionSpec.ofTree r.1

theorem limitReader_eq_self {n : ℕ} {cs : List Char} (h : (Bytes.utf8 cs).length ≤ n) :
    limitReader n cs = cs := by
  induction cs generalizing n with
  | nil => rfl
  | cons c cs ih =>
    rw [Bytes.utf8, List.flatMap_cons, List.length_append, String.length_utf8EncodeChar] at h
    rw [limitReader, if_pos (by omega), ih (by rw [Bytes.utf8]; omega)]

/-- A body that has been written, and is not too long. -/
theorem decodeSessionSpec_write (style : Style) (t : Tree)
    (h : (Bytes.utf8 (JsonText.write style t)).length ≤ maxSessionSpecBytes) :
    decodeSessionSpec (JsonText.write style t) = SessionSpec.ofTree t := by
  have hread := JsonText.readValue_write style t [] (JsonText.write style t).length nofun le_rfl
  rw [List.append_nil] at hread
  rw [decodeSessionSpec, limitReader_eq_self h]
  simp only [hread, Option.bind_some]

/-! ### What a session costs -/

section Costs

variable {cfg : PaymentConfig} {q : CreateRequest} {w : Outside} {s : Node} {r r' : Run}
  {reply : Reply} {amount description : String}

/-- An answer states this amount, if it states one. -/
def Reply.Costs (cfg : PaymentConfig) (amount : String) : Reply → Prop
  | .response _ => True
  | .challenge c => ∃ feePayer, c.accepts = [ownRequirements cfg amount feePayer]
  | .created amountTinybars _ => amountTinybars = amount

theorem challengeFor_costs (reason : String) :
    (challengeFor cfg q w reason amount description).Costs cfg amount := by
  unfold challengeFor
  split
  · rename_i c hc
    obtain ⟨feePayer, -, rfl⟩ := Option.map_eq_some_iff.mp hc
    exact ⟨feePayer, rfl⟩
  · trivial

theorem collectPayment_costs
    (h : collectPayment cfg q w amount description r = (.error reply, r')) :
    reply.Costs cfg amount := by
  unfold collectPayment at h
  split at h
  · cases h
    exact challengeFor_costs _
  · cases h
    exact challengeFor_costs _
  · split at h
    · cases h
      trivial
    · dsimp only at h
      split at h
      · cases h
        exact challengeFor_costs _
      · split_ifs at h
        · cases h
        · cases h
          exact challengeFor_costs _

theorem settleOpening_costs {o : Opening} {payload : PaymentPayload} {feePayer : String}
    (h : settleOpening cfg q w o payload (ownRequirements cfg (toString o.amount) feePayer) r =
      (reply, r')) : reply.Costs cfg (toString o.amount) := by
  unfold settleOpening at h
  dsimp only at h
  split at h
  · cases h
    exact challengeFor_costs _
  · split_ifs at h
    · split at h
      · cases h
        trivial
      · cases h
        rfl
    · cases h
      exact challengeFor_costs _

theorem openSessionFor_costs {seconds chunk : ℤ} {price : ℕ} {payload : PaymentPayload}
    {feePayer : String}
    (h : openSessionFor cfg q w seconds chunk price payload
      (ownRequirements cfg (toString ((price : ℤ) * chunk)) feePayer) r = (reply, r')) :
    reply.Costs cfg (toString ((price : ℤ) * chunk)) := by
  unfold openSessionFor at h
  split at h
  · cases h
    trivial
  · dsimp only at h
    split at h
    · cases h
      trivial
    · split at h
      · cases h
        trivial
      · exact settleOpening_costs h

/-- **Every answer states what the opening chunk costs**, if it states an amount. -/
theorem handleCreateSession_costs (cfg : PaymentConfig) (q : CreateRequest) (w : Outside)
    (s : Node) : (∃ resp, (handleCreateSession cfg q w s).1 = .response resp) ∨
      ∃ amount, openingAmount cfg q = some amount ∧
        (handleCreateSession cfg q w s).1.Costs cfg (toString amount) := by
  generalize h : handleCreateSession cfg q w s = x
  obtain ⟨reply, r'⟩ := x
  unfold handleCreateSession at h
  dsimp only at h ⊢
  split at h
  · cases h
    exact .inl ⟨_, rfl⟩
  split at h
  · cases h
    exact .inl ⟨_, rfl⟩
  next seconds hseconds =>
  split at h
  · cases h
    exact .inl ⟨_, rfl⟩
  next hvalid =>
  split at h
  · cases h
    exact .inl ⟨_, rfl⟩
  split at h
  · cases h
    exact .inl ⟨_, rfl⟩
  split at h
  · cases h
    exact .inl ⟨_, rfl⟩
  next price hprice =>
  have hopen : openingAmount cfg q = some (price * cfg.leases.sessionChunk seconds) := by
    rw [openingAmount, hseconds, hprice, cfg.leases.sessionChunk_of_validate hvalid]
  refine .inr ⟨_, hopen, ?_⟩
  split at h
  · next hpay =>
    cases h
    exact collectPayment_costs hpay
  · next payload reqs r₁ hpay =>
    obtain ⟨-, -, -, ⟨feePayer, rfl⟩, -⟩ := collectPayment_spec hpay
    exact openSessionFor_costs h

/-- **A request without a payment changes nothing**, and calls nobody. -/
theorem handleCreateSession_unpaid (cfg : PaymentConfig) (w : Outside) (s : Node)
    (h : q.payment = .ok none) : (handleCreateSession cfg q w s).2 = ⟨s, []⟩ := by
  have hcollect : ∀ amount description r, collectPayment cfg q w amount description r =
      (.error (challengeFor cfg q w "Payment required" amount description), r) := by
    intro amount description r
    simp only [collectPayment, h]
  unfold handleCreateSession
  simp only [hcollect]
  repeat' split
  all_goals rfl

end Costs

end Mach402
