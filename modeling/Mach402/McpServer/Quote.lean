import Mach402.Agent.Wire
import Mach402.Library.EcmaJson
import Mach402.McpServer.SpendLedger

/-!
# Quotes of a node

The MCP server against a node of this repository, text by text: the body of a request, the header
of a challenge and the body of an answer.

* `specBody`, `decodeSessionSpec_specBody`: a node reads the body that a tool has sent;
* `decodeChallenge`, `readChallenge`, `challenge_round_trip`: a tool reads the challenge that a node
  has sent;
* `open_session_honest`: what a node quotes is what it charges, and what the ledger shows.
-/

namespace Mach402

open Ecma (Value jsonStyle jsonParse jsonParse_write lookup lookup_append lookup_cons)
open JsonText (Tree)

/-! ### A challenge -/

namespace McpServer

/-- `decodeChallenge`, from the header on. -/
def decodeChallenge (header : List Char) : Option Value :=
  (Bytes.utf8Decode (Base64.decodeLoose header)).bind jsonParse

/-- **A header is decoded.** -/
theorem decodeChallenge_encodeChallenge (c : PaymentRequired) :
    decodeChallenge (encodeChallenge c) = some (.ofTree c.tree) := by
  rw [decodeChallenge, encodeChallenge, Base64.decodeLoose_encode, Bytes.utf8Decode_utf8,
    Option.bind_some, marshal, jsonParse_write]

/-! ### Its fields -/

/-- A field of type `string`. -/
def text (v : Value) (key : String) : Option String :=
  match v.get key with
  | some (.string s) => some s
  | _ => none

/-- A field of type `string` that may be absent. -/
def optionalText (v : Value) (key : String) : Option String :=
  match v.get key with
  | none => some ""
  | some (.string s) => some s
  | _ => none

/-- A field of type `number`, if it is an integer. -/
def integer (v : Value) (key : String) : Option ℤ :=
  match v.get key with
  | some (.number n) => if n.den = 1 then some n.num else none
  | _ => none

/-- The resource of a challenge, field by field. -/
def readResource (v : Value) : Option ResourceInfo := do
  let url ← text v "url"
  let description ← optionalText v "description"
  let mimeType ← optionalText v "mimeType"
  let serviceName ← optionalText v "serviceName"
  return { url, description, mimeType, serviceName }

/-- A way to pay of a challenge, field by field. -/
def readRequirements (v : Value) : Option Mach402.PaymentRequirements := do
  let scheme ← text v "scheme"
  let network ← text v "network"
  let amount ← text v "amount"
  let asset ← text v "asset"
  let payTo ← text v "payTo"
  let maxTimeoutSeconds ← integer v "maxTimeoutSeconds"
  let extra ← v.get "extra"
  let feePayer ← text extra "feePayer"
  return { scheme, network, amount, asset, payTo, maxTimeoutSeconds, feePayer }

/-- The fields of `PaymentRequired`. -/
def readChallenge (v : Value) : Option PaymentRequired := do
  let x402Version ← integer v "x402Version"
  let error ← optionalText v "error"
  let resource ← (v.get "resource").bind readResource
  let accepts ← match v.get "accepts" with
    | some (.array vs) => vs.mapM readRequirements
    | _ => none
  return { x402Version := x402Version.toNat, error, resource, accepts }

section Fields

variable {key k value : String} {ms : List (String × Tree)} {z : ℤ}

theorem lookup_omitEmpty_of_ne (h : k ≠ key) : lookup key (omitEmpty k value) = none := by
  unfold omitEmpty
  split_ifs
  · rfl
  · exact Ecma.lookup_singleton_of_ne h

/-- A field that is left out if it is empty. -/
theorem optionalText_omitEmpty (h : lookup key ms = (lookup key (omitEmpty key value))) :
    optionalText (.ofTree (.object ms)) key = some value := by
  rw [optionalText, Ecma.get_ofTree_object, h]
  unfold omitEmpty
  split_ifs with hempty
  · rw [hempty]
    rfl
  · rw [Ecma.lookup_singleton_self]
    rfl

theorem round_intCast (h0 : 0 ≤ z) (h : z < 2 ^ 53) : Binary64.round (z : ℚ) = z := by
  obtain ⟨n, rfl⟩ := Int.eq_ofNat_of_zero_le h0
  exact Binary64.round_natCast (by exact_mod_cast h)

theorem integer_ofInt (h : lookup key ms = some (.ofTree (.number (.ofInt z)))) (h0 : 0 ≤ z)
    (hz : z < 2 ^ 53) : integer (.ofTree (.object ms)) key = some z := by
  rw [integer, Ecma.get_ofTree_object, h, Value.ofTree, JsonText.Numeral.value_ofInt,
    round_intCast h0 hz]
  rfl

theorem readResource_tree (r : ResourceInfo) : readResource (.ofTree r.tree) = some r := by
  have hurl : text (.ofTree r.tree) "url" = some r.url := by
    rw [text, ResourceInfo.tree, Ecma.get_ofTree_object]
    simp [lookup_cons, lookup_append, lookup_omitEmpty_of_ne, Value.ofTree]
  have hdescription : optionalText (.ofTree r.tree) "description" = some r.description := by
    refine optionalText_omitEmpty ?_
    simp [lookup_cons, lookup_append, lookup_omitEmpty_of_ne]
  have hmime : optionalText (.ofTree r.tree) "mimeType" = some r.mimeType := by
    refine optionalText_omitEmpty ?_
    simp [lookup_cons, lookup_append, lookup_omitEmpty_of_ne]
  have hservice : optionalText (.ofTree r.tree) "serviceName" = some r.serviceName := by
    refine optionalText_omitEmpty ?_
    simp [lookup_cons, lookup_append, lookup_omitEmpty_of_ne]
  rw [readResource, hurl, hdescription, hmime, hservice]
  rfl

theorem text_tree {r : Mach402.PaymentRequirements}
    (h : lookup key r.members = some (.string value)) :
    text (.ofTree r.tree) key = some value := by
  rw [text, PaymentRequirements.tree, Ecma.get_ofTree_object, h]

/-- The texts of a requirement. -/
theorem texts_tree (r : Mach402.PaymentRequirements) :
    text (.ofTree r.tree) "scheme" = some r.scheme ∧
      text (.ofTree r.tree) "network" = some r.network ∧
      text (.ofTree r.tree) "amount" = some r.amount ∧
      text (.ofTree r.tree) "asset" = some r.asset ∧
      text (.ofTree r.tree) "payTo" = some r.payTo := by
  refine ⟨text_tree ?_, text_tree ?_, text_tree ?_, text_tree ?_, text_tree ?_⟩ <;>
    simp [PaymentRequirements.members, lookup_cons, Value.ofTree]

theorem readRequirements_tree (r : Mach402.PaymentRequirements) (h0 : 0 ≤ r.maxTimeoutSeconds)
    (h : r.maxTimeoutSeconds < 2 ^ 53) : readRequirements (.ofTree r.tree) = some r := by
  obtain ⟨hscheme, hnetwork, hamount, hasset, hpayTo⟩ := texts_tree r
  have htimeout : integer (.ofTree r.tree) "maxTimeoutSeconds" = some r.maxTimeoutSeconds :=
    integer_ofInt (by simp [PaymentRequirements.members, lookup_cons]) h0 h
  have hextra : (Value.ofTree r.tree).get "extra" =
      some (.ofTree (.object [("feePayer", .string r.feePayer)])) := by
    rw [PaymentRequirements.tree, Ecma.get_ofTree_object]
    simp [PaymentRequirements.members, lookup_cons]
  have hpayer : text (.ofTree (.object [("feePayer", .string r.feePayer)])) "feePayer" =
      some r.feePayer := by
    rw [text, Ecma.get_ofTree_object, Ecma.lookup_singleton_self]
    rfl
  rw [readRequirements, hscheme, hnetwork, hamount, hasset, hpayTo, htimeout, hextra]
  simp only [Option.bind_eq_bind, Option.bind_some, hpayer]
  rfl

theorem accepts_tree (c : PaymentRequired) : (Value.ofTree c.tree).get "accepts" =
    some (.array (c.accepts.map fun r => .ofTree r.tree)) := by
  have hmap : ∀ rs : List Mach402.PaymentRequirements,
      Value.ofTrees (rs.map PaymentRequirements.tree) = rs.map fun r => .ofTree r.tree := by
    intro rs
    induction rs with
    | nil => rfl
    | cons r rs ih => rw [List.map_cons, Value.ofTrees, ih, List.map_cons]
  rw [PaymentRequired.tree, Ecma.get_ofTree_object]
  simp [lookup_cons, lookup_append, Value.ofTree, hmap]

end Fields

/-- **A tool reads the challenge that a node has sent**, field by field, whatever its texts are. -/
theorem challenge_round_trip (c : PaymentRequired) (hversion : c.x402Version < 2 ^ 53)
    (htimeout : ∀ r ∈ c.accepts, 0 ≤ r.maxTimeoutSeconds ∧ r.maxTimeoutSeconds < 2 ^ 53) :
    (decodeChallenge (encodeChallenge c)).bind readChallenge = some c := by
  have hread : ∀ rs : List Mach402.PaymentRequirements,
      (∀ r ∈ rs, 0 ≤ r.maxTimeoutSeconds ∧ r.maxTimeoutSeconds < 2 ^ 53) →
      (rs.map fun r => Value.ofTree r.tree).mapM readRequirements = some rs := by
    intro rs hrs
    induction rs with
    | nil => rfl
    | cons r rs ih =>
      rw [List.forall_mem_cons] at hrs
      rw [List.map_cons, List.mapM_cons, readRequirements_tree r hrs.1.1 hrs.1.2, ih hrs.2]
      rfl
  have hx : integer (.ofTree c.tree) "x402Version" = some (c.x402Version : ℤ) :=
    integer_ofInt (by simp [lookup_cons, lookup_append, lookup_omitEmpty_of_ne])
      (Int.natCast_nonneg _) (by exact_mod_cast hversion)
  have herror : optionalText (.ofTree c.tree) "error" = some c.error := by
    refine optionalText_omitEmpty ?_
    simp [lookup_cons, lookup_append]
  have hresource : (Value.ofTree c.tree).get "resource" = some (.ofTree c.resource.tree) := by
    rw [PaymentRequired.tree, Ecma.get_ofTree_object]
    simp [lookup_cons, lookup_append]
  rw [decodeChallenge_encodeChallenge, Option.bind_some, readChallenge, hx, herror, hresource,
    accepts_tree]
  simp only [Option.bind_eq_bind, Option.bind_some, readResource_tree, hread _ htimeout]
  rfl

/-- A challenge with texts that have to be escaped. -/
def escapedChallenge : PaymentRequired where
  x402Version := 2
  error := "payment invalid: \"a < b\"\n\u2028😀"
  resource := ⟨"https://node/v1/sessions", "60 seconds & more", "", "MACH402"⟩
  accepts := [ownRequirements .small "60" "0.0.2"]

theorem challenge_round_trip_escaped :
    (decodeChallenge (encodeChallenge escapedChallenge)).bind readChallenge =
      some escapedChallenge :=
  challenge_round_trip escapedChallenge (by decide) (by decide)

/-! ### A body -/

/-- What `JSON.stringify` is given. -/
def sessionSpec (seconds : ℕ) (publicKey : String) (requireGpu : Option Bool) : Tree :=
  .object ([("seconds", .number (.ofInt seconds)), ("public_key", .string publicKey)] ++
    match requireGpu with
    | none => []
    | some b => [("require_gpu", .bool b)])

/-- The body of a request for a session. -/
def specBody (seconds : ℕ) (publicKey : String) (requireGpu : Option Bool) : List Char :=
  JsonText.write jsonStyle (sessionSpec seconds publicKey requireGpu)

section Members

variable {spec : SessionSpec}

theorem set_seconds {z : ℤ} (hlow : -2 ^ 63 ≤ z) (hhigh : z < 2 ^ 63) :
    spec.set ("seconds", .number (.ofInt z)) = some { spec with seconds := z } := by
  have hname : foldName "seconds" = "SECONDS" := by decide +kernel
  have hread : SessionSpec.readInt spec.seconds (.number (.ofInt z)) = some z := by
    rw [SessionSpec.readInt, JsonText.Numeral.toInt?_ofInt, Option.filter_some]
    exact if_pos (decide_eq_true ⟨hlow, hhigh⟩)
  rw [SessionSpec.set, if_pos hname, hread, Option.map_some]

theorem set_publicKey {publicKey : String} :
    spec.set ("public_key", .string publicKey) = some { spec with publicKey } := by
  have hname : foldName "public_key" = "PUBLIC_KEY" := by decide +kernel
  have hne : foldName "public_key" ≠ "SECONDS" := by decide +kernel
  rw [SessionSpec.set, if_neg hne, if_pos hname]
  rfl

theorem set_requireGPU {b : Bool} :
    spec.set ("require_gpu", .bool b) = some { spec with requireGPU := b } := by
  have hname : foldName "require_gpu" = "REQUIRE_GPU" := by decide +kernel
  have hseconds : foldName "require_gpu" ≠ "SECONDS" := by decide +kernel
  have hkey : foldName "require_gpu" ≠ "PUBLIC_KEY" := by decide +kernel
  rw [SessionSpec.set, if_neg hseconds, if_neg hkey, if_pos hname]
  rfl

end Members

/-- **A node reads the body that a tool has sent.** -/
theorem decodeSessionSpec_specBody {seconds : ℕ} {publicKey : String} {requireGpu : Option Bool}
    (hs : seconds < 2 ^ 53)
    (hlen : (Bytes.utf8 (specBody seconds publicKey requireGpu)).length ≤ maxSessionSpecBytes) :
    decodeSessionSpec (specBody seconds publicKey requireGpu) =
      some ⟨seconds, publicKey, requireGpu.getD false⟩ := by
  have hlow : -2 ^ 63 ≤ (seconds : ℤ) := by omega
  have hhigh : (seconds : ℤ) < 2 ^ 63 := by omega
  rw [specBody, decodeSessionSpec_write jsonStyle _ hlen]
  cases requireGpu with
  | none =>
    simp only [sessionSpec, SessionSpec.ofTree, List.append_nil, List.foldlM_cons, List.foldlM_nil,
      set_seconds hlow hhigh, set_publicKey, Option.bind_eq_bind, Option.bind_some]
    rfl
  | some b =>
    simp only [sessionSpec, SessionSpec.ofTree, List.cons_append, List.nil_append,
      List.foldlM_cons, List.foldlM_nil, set_seconds hlow hhigh, set_publicKey, set_requireGPU,
      Option.bind_eq_bind, Option.bind_some]
    rfl

/-! ### A session -/

/-- The request of a tool, with a payment or without, as the node reads it. -/
def openRequest (body : List Char) (payment : Option PaymentPayload) (err url : String) :
    CreateRequest where
  seconds :=
    match decodeSessionSpec body with
    | some spec => .ok spec.seconds
    | none => .error err
  payment := .ok payment
  url

/-- What the paying fetch goes by: the first of the options that a challenge has. -/
def payable (v : Value) : Option PaymentRequirements := do
  let accepts ← v.get "accepts"
  let option ← accepts.first
  let network ← text option "network"
  let asset ← text option "asset"
  return { network, asset, amount := (option.get "amount").bind Value.bigInt }

/-- The body of an answer. -/
def answerBody (amountTinybars : String) (session : SessionCreated) (access : Access) :
    Option Value :=
  jsonParse (marshal (sessionResponse amountTinybars session access))

section Session

variable {cfg : PaymentConfig} {c : PaymentRequired} {feePayer : String} {amount : ℤ}

theorem amount_tree (r : Mach402.PaymentRequirements) :
    (Value.ofTree r.tree).get "amount" = some (.string r.amount) := by
  rw [PaymentRequirements.tree, Ecma.get_ofTree_object]
  simp [PaymentRequirements.members, lookup_cons, Value.ofTree]

/-- A tool is quoted what the node asks for. -/
theorem quoteAmount_tree (h : c.accepts = [ownRequirements cfg (toString amount) feePayer]) :
    quoteAmount (.ofTree c.tree) = some amount := by
  have haccepts := accepts_tree c
  obtain ⟨ms, hms⟩ : ∃ ms, Value.ofTree c.tree = .object ms := ⟨_, rfl⟩
  rw [h, List.map_singleton, hms] at haccepts
  rw [hms]
  unfold quoteAmount
  simp only [haccepts, Value.first, List.head?_cons, Option.bind_some, amount_tree]
  exact Ecma.stringToBigInt_intToString amount

/-- The paying fetch is asked for it. -/
theorem payable_tree (h : c.accepts = [ownRequirements cfg (toString amount) feePayer]) :
    payable (.ofTree c.tree) = some ⟨cfg.network, cfg.asset, some amount⟩ := by
  obtain ⟨-, hnetwork, -, hasset, -⟩ := texts_tree (ownRequirements cfg (toString amount) feePayer)
  have hamount : (Value.string (ownRequirements cfg (toString amount) feePayer).amount).bigInt =
      some amount := Ecma.stringToBigInt_intToString amount
  rw [payable, accepts_tree, h]
  simp only [List.map_singleton, Value.first, List.head?_cons, Option.bind_eq_bind,
    Option.bind_some, hnetwork, hasset, amount_tree, hamount]
  rfl

/-- The body of the answer says so. -/
theorem figure_answerBody (session : SessionCreated) (access : Access) :
    ((answerBody (toString amount) session access).bind (Value.get "amount_tinybars")).bind
      Value.bigInt = some amount := by
  rw [answerBody, marshal, jsonParse_write, Option.bind_some, sessionResponse,
    Ecma.get_ofTree_object]
  simp [lookup_cons, lookup_append, lookup_omitEmpty_of_ne, Value.ofTree]
  exact Ecma.stringToBigInt_intToString amount

/-- What the answers to a tool's requests state. -/
theorem costs_openRequest {body : List Char} {spec : SessionSpec}
    (hbody : decodeSessionSpec body = some spec) (payment : Option PaymentPayload)
    (err url : String) (w : Outside) (s : Node) :
    (∃ resp, (handleCreateSession cfg (openRequest body payment err url) w s).1 =
      .response resp) ∨ ∃ price : ℕ, cfg.leases.sessionPricePerSecond = .ok price ∧
      (handleCreateSession cfg (openRequest body payment err url) w s).1.Costs cfg
        (toString ((price : ℤ) * min spec.seconds cfg.leases.sessionChunkSeconds)) := by
  refine (handleCreateSession_costs cfg _ w s).imp_right ?_
  rintro ⟨amount, hopen, hcosts⟩
  simp only [openingAmount, openRequest, hbody] at hopen
  cases hprice : cfg.leases.sessionPricePerSecond with
  | error e =>
    rw [hprice] at hopen
    cases hopen
  | ok price =>
    rw [hprice] at hopen
    cases hopen
    exact ⟨price, rfl, hcosts⟩

end Session

/-- **A node's quote is honest.**  A tool asks a node what a session would cost, asks again when it
pays, and is answered with the session, whatever the node has done in between.  The quote changes
nothing; the quote, the challenge and the answer state the price of the first chunk; and what the
ledger shows is what the tool has signed. -/
theorem open_session_honest {cfg : PaymentConfig} {seconds : ℕ} {publicKey : String}
    {requireGpu : Option Bool} {err url paid : String} {payload : PaymentPayload}
    {w₁ w₂ w₃ : Outside} {s₁ s₂ s₃ : Node} {c₁ c₂ : PaymentRequired} {session : SessionCreated}
    (hs : seconds < 2 ^ 53)
    (hlen : (Bytes.utf8 (specBody seconds publicKey requireGpu)).length ≤ maxSessionSpecBytes)
    (hquote : (handleCreateSession cfg
      (openRequest (specBody seconds publicKey requireGpu) none err url) w₁ s₁).1 = .challenge c₁)
    (hchallenge : (handleCreateSession cfg
      (openRequest (specBody seconds publicKey requireGpu) none err url) w₂ s₂).1 = .challenge c₂)
    (hpaid : (handleCreateSession cfg
      (openRequest (specBody seconds publicKey requireGpu) (some payload) err url) w₃ s₃).1 =
        .created paid session) :
    (handleCreateSession cfg
      (openRequest (specBody seconds publicKey requireGpu) none err url) w₁ s₁).2 = ⟨s₁, []⟩ ∧
    ∃ (price : ℕ) (amount : ℤ), cfg.leases.sessionPricePerSecond = .ok price ∧
      amount = price * min (seconds : ℤ) cfg.leases.sessionChunkSeconds ∧
      (decodeChallenge (encodeChallenge c₁)).bind quoteAmount = some amount ∧
      (decodeChallenge (encodeChallenge c₂)).bind payable =
        some ⟨cfg.network, cfg.asset, some amount⟩ ∧
      ∀ (config : McpConfig) (nodeUrl : String) (localPort : Option ℕ) (gate : Gate) (t : Talk)
        (access : Access) (w w' : World) (p' : Pc) (r : SpendRecord) (m : Payment),
        (decodeChallenge (encodeChallenge c₂)).bind payable = some t.challenge →
        t.reply.body = answerBody paid session access →
        (mcpServer config).alone w
          (perform (.openSession nodeUrl seconds requireGpu localPort) gate)
          (t.outcomes (.openSession nodeUrl seconds requireGpu localPort)) = some (w', p') →
        w'.ledger = w.ledger ++ [r] → w'.sent = w.sent ++ [m] →
        r.amountTinybars = some amount ∧ m.amountTinybars = amount := by
  -- every request is for the same length, at the same price
  have hbody := decodeSessionSpec_specBody hs hlen
  rcases costs_openRequest hbody none err url w₁ s₁ with ⟨resp, h⟩ | ⟨price, hprice, hc₁⟩
  · rw [hquote] at h
    cases h
  rcases costs_openRequest hbody none err url w₂ s₂ with ⟨resp, h⟩ | ⟨price₂, hprice₂, hc₂⟩
  · rw [hchallenge] at h
    cases h
  rcases costs_openRequest hbody (some payload) err url w₃ s₃ with
    ⟨resp, h⟩ | ⟨price₃, hprice₃, hc₃⟩
  · rw [hpaid] at h
    cases h
  cases hprice.symm.trans hprice₂
  cases hprice.symm.trans hprice₃
  refine ⟨handleCreateSession_unpaid cfg w₁ s₁ rfl, price, _, hprice, rfl, ?_⟩
  rw [hquote] at hc₁
  rw [hchallenge] at hc₂
  rw [hpaid] at hc₃
  obtain ⟨feePayer₁, haccepts₁⟩ := hc₁
  obtain ⟨feePayer₂, haccepts₂⟩ := hc₂
  cases hc₃
  rw [decodeChallenge_encodeChallenge, decodeChallenge_encodeChallenge, Option.bind_some,
    Option.bind_some, quoteAmount_tree haccepts₁, payable_tree haccepts₂]
  refine ⟨rfl, rfl, ?_⟩
  intro config nodeUrl localPort gate t access w w' p' r m hoption hreply hrun hr hm
  obtain ⟨hfigure, hsigned⟩ := t.recorded hrun hr hm
  rw [← Option.some.inj hoption] at hsigned
  refine ⟨?_, (Option.some.inj hsigned).symm⟩
  rw [hfigure, Talk.figure, Reply.figure, hreply, figure_answerBody]

/-! ### The small node -/

/-- Two minutes are asked for. -/
def smallBody : List Char := specBody 120 "ssh-ed25519 AAAA" none

/-- The request for them. -/
def smallRequest (payment : Option PaymentPayload) : CreateRequest :=
  openRequest smallBody payment "" "https://node/v1/sessions"

/-- What is paid for the first minute. -/
def smallPayment : PaymentPayload := ⟨2, ownRequirements .small "60" "0.0.2", "signed"⟩

/-- The challenge for two minutes, of which one is paid first. -/
def smallChallenge : PaymentRequired where
  x402Version := 2
  error := "Payment required"
  resource := ⟨"https://node/v1/sessions", sessionDescription .small 60, "application/json",
    "MACH402"⟩
  accepts := [ownRequirements .small "60" "0.0.2"]

/-- The session that the node answers with. -/
def smallSession : SessionCreated where
  sessionID := "0xab"
  leaseID := 0
  token := "t"
  status := .active
  expiresAt := 60000000000
  transaction := "tx"
  payer := "renter"
  amountTinybars := 60
  priceTinybarsPerSecond := 1
  creditTinybars := 60
  lowCredits := false
  seconds := 60
  sessionSeconds := 120
  fullyPaid := false

/-- How the renter gets in. -/
def smallAccess : Access :=
  ⟨"lease-0", "2026-01-01T00:01:00Z", "ssh-cert", "renter", "", "lease-0", "https://node/jupyter",
    "j", "quick"⟩

/-- What the node answers to a tool. -/
def smallTalk : Talk where
  quote := .null
  challenge := ⟨"hedera:testnet", "0.0.0", some 60⟩
  settles := true
  reply := ⟨true, some true, answerBody "60" smallSession smallAccess⟩
  written := true

/-- A session of the small node: sixty tinybars are quoted, signed, charged and recorded. -/
theorem open_session_honest_small : ∃ (w' : World) (r : SpendRecord) (m : Payment),
    (mcpServer (.sample none)).alone (.initial 0 [])
      (perform (.openSession "https://node" 120 none none) ⟨60, 0, none⟩)
      (smallTalk.outcomes (.openSession "https://node" 120 none none)) = some (w', .done) ∧
    w'.ledger = [r] ∧ w'.sent = [m] ∧ r.amountTinybars = some 60 ∧ m.amountTinybars = 60 ∧
    (decodeChallenge (encodeChallenge smallChallenge)).bind quoteAmount = some 60 := by
  have hlen : (Bytes.utf8 smallBody).length ≤ maxSessionSpecBytes := by decide +kernel
  have hquote : (handleCreateSession .small (smallRequest none) .fine .initial).1 =
      .challenge smallChallenge := by decide +kernel
  have hpaid : (handleCreateSession .small (smallRequest (some smallPayment)) .fine .initial).1 =
      .created "60" smallSession := by decide +kernel
  obtain ⟨-, price, amount, hprice, hamount, hquoted, hpayable, hrun⟩ :=
    open_session_honest (by decide) hlen hquote hquote hpaid
  obtain rfl : price = 1 := (Except.ok.inj hprice).symm
  obtain rfl : amount = 60 := hamount
  let w' : World :=
    { World.initial 0 [] with
      ledger := [⟨some 60, 0⟩], charged := [60]
      sent := [⟨60, .openSession "https://node" 120 none none, none⟩] }
  have hw : (mcpServer (.sample none)).alone (.initial 0 [])
      (perform (.openSession "https://node" 120 none none) ⟨60, 0, none⟩)
      (smallTalk.outcomes (.openSession "https://node" 120 none none)) = some (w', .done) := by
    decide +kernel
  have hbody : smallTalk.reply.body = answerBody "60" smallSession smallAccess := by
    rw [smallTalk]
  have hledger : w'.ledger = (World.initial 0 []).ledger ++ [⟨some 60, 0⟩] := rfl
  have hsent : w'.sent = (World.initial 0 []).sent ++
      [⟨60, .openSession "https://node" 120 none none, none⟩] := rfl
  obtain ⟨hr, hm⟩ := hrun (.sample none) "https://node" none ⟨60, 0, none⟩ smallTalk smallAccess
    (.initial 0 []) w' .done _ _ hpayable hbody hw hledger hsent
  exact ⟨w', _, _, hw, rfl, rfl, hr, hm, hquoted⟩

end McpServer
end Mach402
