import Mach402.Library.Bytes
import Mach402.Library.Search
import Mach402.Contracts.SessionEscrow
import Mach402.Egress.Proxy

/-!
# The deposit of a session

`VerifyDeposit` asks a mirror node whether the renter has funded the session that the node quoted:
it reads the transaction, and then what the escrow contract has stored for the id.

* `Unicode`, `bare`, `sameAddress`: what is read of a text that is written in hexadecimal;
* `Stored`, `Form`, `decodeSession_encode`: a stored session, the two encodings in which a mirror
  node returns it, and what is decoded from them;
* `Mirror`, `Verifier`, `verifyDeposit`: the checks;
* `LooksUp`, `normalizeTransactionID_iff`: which transaction the mirror node is asked for;
* `Opens`, `Meets`: what the transaction and the session have to be;
* `deposit_verified`: the session is returned just if they are so.
-/

namespace Mach402
namespace Deposit

open Bytes
open Egress (trimSpace toLower)

/-! ### Texts -/

/-- What the tables of Unicode decide. -/
structure Unicode where
  /-- `unicode.ToLower`. -/
  lower : Char → Char
  lower_ascii : ∀ c : Char, c.val < 128 → lower c = c.toLower
  /-- `strconv.Quote`. -/
  quoted : String → String

/-- `strings.TrimPrefix`. -/
def trimPrefix (p s : List Char) : List Char := if p.isPrefixOf s then s.drop p.length else s

/-- Without space around it, and without `0x` or `0X`, or both of these. -/
def bare (s : String) : List Char :=
  trimPrefix "0X".toList (trimPrefix "0x".toList (trimSpace s.toList))

/-- To an even number of digits. -/
def evened (digits : List Char) : List Char :=
  if digits.length % 2 = 1 then '0' :: digits else digits

/-- The bytes of a hexadecimal text, with or without its prefix. -/
def hexBytes (s : String) : Except HexError (List UInt8) := Bytes.decodeHex (evened (bare s))

/-- `decodeBytes32`. -/
def decodeBytes32 (s : String) : Except String (List UInt8) :=
  match hexBytes s with
  | .error e => .error ("not hex: " ++ e.text)
  | .ok raw =>
    if raw.length ≠ 32 then .error ("expected 32 bytes, got " ++ toString raw.length) else .ok raw

/-- `sameAddress`: letter case and prefix do not matter. -/
def sameAddress (u : Unicode) (a b : String) : Bool :=
  let na := toLower u.lower (bare a)
  let nb := toLower u.lower (bare b)
  decide (na ≠ []) && decide (na = nb)

/-! ### Words -/

/-- The bytes of an ABI word. -/
def wordSize : ℕ := 32

/-- The error of data that end early. -/
def errShortData : String := "abi: data ended early"

/-- The word at an index. -/
def word (data : List UInt8) (index : ℕ) : Except String (List UInt8) :=
  match Bytes.word wordSize index data with
  | none => .error errShortData
  | some w => .ok w

/-- The number in it. -/
def wordAsInt (data : List UInt8) (index : ℕ) : Except String ℕ :=
  match word data index with
  | .error e => .error e
  | .ok w => .ok (number w)

/-- `wordAsAddress`: the low 20 bytes. -/
def wordAsAddress (data : List UInt8) (index : ℕ) : Except String String :=
  match word data index with
  | .error e => .error e
  | .ok w => .ok ("0x" ++ String.ofList (encodeHex (w.drop 12)))

/-- `Session` of the agent. -/
structure Session where
  renter : String
  provider : String
  pricePerSecond : ℕ
  startTime : ℕ
  duration : ℕ
  deposited : ℕ
  settled : Bool
  deriving DecidableEq

/-- The struct that begins with a word. -/
def sessionFrom (data : List UInt8) (start : ℕ) : Except String Session := do
  let renter ← wordAsAddress data start
  let provider ← wordAsAddress data (start + 1)
  let price ← wordAsInt data (start + 2)
  let startTime ← wordAsInt data (start + 3)
  let duration ← wordAsInt data (start + 4)
  let deposited ← wordAsInt data (start + 5)
  let settled ← wordAsInt data (start + 6)
  return {
    renter, provider, pricePerSecond := price, startTime, duration, deposited
    settled := decide (settled ≠ 0) }

/-- `decodeSession`: a dynamic struct has a word more, which is its offset. -/
def decodeSession (data : List UInt8) : Except String Session :=
  let words := data.length / wordSize
  if words = 8 then sessionFrom data 1
  else if words = 7 then sessionFrom data 0
  else .error ("abi: expected 7 or 8 words, got " ++ toString words)

/-! ### Calls -/

/-- The selector of `openSession`. -/
def selectorOpenSession : String := "5ea02ad0"

/-- The selector of `getSession`. -/
def selectorGetSession : String := "39b240bd"

/-- The data of a call of `getSession`. -/
def encodeGetSession (sessionID : String) : Except String String :=
  match decodeBytes32 sessionID with
  | .error e => .error e
  | .ok id => .ok (selectorGetSession ++ String.ofList (encodeHex id))

/-- The selector of call data, and what follows it. -/
def callArguments (callData : String) : Except String (String × List UInt8) :=
  match hexBytes callData with
  | .error e => .error e.text
  | .ok raw =>
    if raw.length < 4 then .error errShortData
    else .ok (String.ofList (encodeHex (raw.take 4)), raw.drop 4)

/-! ### The mirror node -/

/-- What is read of the result of a contract call. -/
structure ContractResult where
  result : String
  contractID : String
  address : String
  functionParameters : String
  errorMessage : String
  deriving DecidableEq

/-- The body of a call that is not a transaction. -/
structure CallRequest where
  data : String
  «to» : String
  block : String
  deriving DecidableEq

/-- Why the mirror client returns nothing.  `ErrNotFound` is for a 404. -/
inductive MirrorError
  | notFound (path : String)
  | other (text : String)
  deriving DecidableEq

/-- `Error`. -/
def MirrorError.text : MirrorError → String
  | .notFound path => path ++ ": mirror node: not found"
  | .other text => text

/-- What a mirror node answers: `/api/v1/contracts/results/` of a transaction, which is the last
part of the path, and `/api/v1/contracts/call`. -/
structure Mirror where
  contractsResults : String → Except MirrorError ContractResult
  contractsCall : CallRequest → Except MirrorError String

/-- `ensure0x`. -/
def ensure0x (s : String) : String :=
  let s := trimSpace s.toList
  if "0x".toList.isPrefixOf s || "0X".toList.isPrefixOf s then String.ofList s
  else String.ofList ("0x".toList ++ s)

/-- `decodeHex` of the mirror client. -/
def decodeHex (s : String) : Except String (List UInt8) :=
  if bare s = [] then .ok []
  else
    match Bytes.decodeHex (evened (bare s)) with
    | .error e => .error ("decode hex: " ++ e.text)
    | .ok decoded => .ok decoded

/-- `normalizeTransactionID`: `0.0.1@2.3` is written `0.0.1-2-3`. -/
def normalizeTransactionID (u : Unicode) (id : String) : Except String String :=
  let id := trimSpace id.toList
  if id = [] then .error "empty transaction id"
  else if "0x".toList.isPrefixOf id || !id.elem '@' then .ok (String.ofList id)
  else
    let account := id.takeWhile (· ≠ '@')
    let timestamp := (id.dropWhile (· ≠ '@')).tail
    if account = [] then
      .error ("not a Hedera transaction id: " ++ u.quoted (String.ofList id))
    else if !timestamp.elem '.' then
      .error ("transaction id " ++ u.quoted (String.ofList id) ++ " has no nanosecond part")
    else
      let seconds := timestamp.takeWhile (· ≠ '.')
      let nanos := String.ofList (timestamp.dropWhile (· ≠ '.')).tail
      if 9 < nanos.utf8ByteSize then
        .error ("transaction id " ++ u.quoted (String.ofList id) ++
          " has more than nine digits of nanoseconds")
      else
        let zeros := String.ofList (List.replicate (9 - nanos.utf8ByteSize) '0')
        .ok (String.ofList account ++ "-" ++ String.ofList seconds ++ "-" ++ zeros ++ nanos)

/-- `ContractResultByTransaction`: the request is made under the mirror's form of the id. -/
def Mirror.contractResultByTransaction (m : Mirror) (u : Unicode) (txID : String) :
    Except MirrorError ContractResult :=
  match normalizeTransactionID u txID with
  | .error e => .error (.other e)
  | .ok normalized => m.contractsResults normalized

/-- `Call`: the contract's answer, in its latest state. -/
def Mirror.call (m : Mirror) (contract callData : String) : Except MirrorError (List UInt8) :=
  match m.contractsCall ⟨ensure0x callData, ensure0x contract, "latest"⟩ with
  | .error e => .error e
  | .ok result =>
    match decodeHex result with
    | .error e => .error (.other e)
    | .ok raw => .ok raw

/-! ### The verifier -/

/-- `Verifier`: the contract that the node is paid through. -/
structure Verifier where
  mirror : Mirror
  contract : String

/-- What the node has offered. -/
structure Quote where
  sessionID : String
  providerAddress : String
  pricePerSecond : ℤ
  minSeconds : Int64
  deriving DecidableEq

/-- Why a deposit does not count. -/
inductive Failure
  /-- `ErrNotYetVisible`. -/
  | notYetVisible
  /-- A `Rejection`. -/
  | rejection (reason : String)
  /-- Any other error. -/
  | other (text : String)
  deriving DecidableEq

/-- `rejectf`. -/
def rejectf (reason : String) : Except Failure Session := .error (.rejection reason)

/-- What the mirror says of a call that has failed. -/
def detail (message : String) : String := if message = "" then "" else ": " ++ message

/-- `Verifier.Session`. -/
def Verifier.session (v : Verifier) (sessionID : String) : Except String Session :=
  match encodeGetSession sessionID with
  | .error e => .error ("encode getSession: " ++ e)
  | .ok callData =>
    match v.mirror.call v.contract callData with
    | .error e => .error ("read session " ++ sessionID ++ ": " ++ e.text)
    | .ok raw =>
      match decodeSession raw with
      | .error e => .error ("decode session " ++ sessionID ++ ": " ++ e)
      | .ok session => .ok session

/-- What is checked of the session that the contract has stored. -/
def checkSession (u : Unicode) (quote : Quote) (session : Session) :
    Except Failure Session :=
  if session.deposited = 0 then .error .notYetVisible
  else if ¬ sameAddress u session.provider quote.providerAddress then
    rejectf ("that session pays " ++ session.provider ++ ", not this node's account " ++
      quote.providerAddress)
  else if (session.pricePerSecond : ℤ) ≠ quote.pricePerSecond then
    rejectf ("that session is priced at " ++ toString session.pricePerSecond ++
      " tinybars/second; this node quoted " ++ toString quote.pricePerSecond)
  else if Int64.ofNat session.duration < quote.minSeconds then
    rejectf ("that session buys " ++ toString (Int64.ofNat session.duration) ++
      " seconds; this node's minimum is " ++ toString quote.minSeconds)
  else if session.settled then
    rejectf "that session has already been settled"
  else .ok session

/-- `VerifyDeposit`: the call that was made, then the state of the contract. -/
def Verifier.verifyDeposit (u : Unicode) (v : Verifier) (txID : String) (quote : Quote) :
    Except Failure Session :=
  match v.mirror.contractResultByTransaction u txID with
  | .error (.notFound _) => .error .notYetVisible
  | .error e => .error (.other ("read deposit " ++ txID ++ ": " ++ e.text))
  | .ok result =>
    if result.result ≠ "SUCCESS" then
      rejectf ("the deposit transaction did not succeed (" ++ result.result ++
        detail result.errorMessage ++ ")")
    else if ¬ sameAddress u result.address v.contract ∧ result.contractID ≠ v.contract then
      rejectf ("that transaction called " ++ result.address ++
        ", not this node's escrow contract " ++ v.contract)
    else
      match callArguments result.functionParameters with
      | .error e => rejectf ("could not read the deposit's call data: " ++ e)
      | .ok (selector, _) =>
        if selector ≠ selectorOpenSession then
          rejectf "that transaction is not an openSession call"
        else
          match v.session quote.sessionID with
          | .error e => .error (.other e)
          | .ok session => checkSession u quote session

/-! ### What the contract has stored -/

/-- A session of the contract, whose numbers are words. -/
abbrev Stored : Type :=
  { s : SessionEscrow.Session // s.pricePerSecond < 256 ^ 32 ∧ s.startTime < 256 ^ 32 ∧
    s.duration < 256 ^ 32 ∧ s.deposited < 256 ^ 32 }

/-- The digits of an address. -/
def addressDigits (a : Address) : List Char := encodeHex (bigEndian 20 a.val)

/-- The session, as the agent shows it. -/
def Stored.view (s : Stored) : Session where
  renter := "0x" ++ String.ofList (addressDigits s.1.renter)
  provider := "0x" ++ String.ofList (addressDigits s.1.provider)
  pricePerSecond := s.1.pricePerSecond
  startTime := s.1.startTime
  duration := s.1.duration
  deposited := s.1.deposited
  settled := s.1.settled

/-- The fields, as the numbers that their words write. -/
def Stored.fields (s : Stored) : List ℕ :=
  [s.1.renter.val, s.1.provider.val, s.1.pricePerSecond, s.1.startTime, s.1.duration,
    s.1.deposited, s.1.settled.toNat]

/-- A word for each number. -/
def encodeWords (ns : List ℕ) : List UInt8 := (ns.map (bigEndian wordSize)).flatten

/-- How a mirror node returns a struct: bare, or behind the offset at which it stands. -/
inductive Form
  | bare
  | prefixed
  deriving DecidableEq

/-- The encoding of a session. -/
def Form.encode (s : Stored) : Form → List UInt8
  | .bare => encodeWords s.fields
  | .prefixed => encodeWords (wordSize :: s.fields)

section Encoding

variable {ns : List ℕ} {i n : ℕ} {a b : Address} {s t : Stored}

theorem length_encodeWords (ns : List ℕ) : (encodeWords ns).length = ns.length * wordSize := by
  have hwidth : ∀ w ∈ ns.map (bigEndian wordSize), w.length = wordSize := by
    intro w hw
    obtain ⟨n, -, rfl⟩ := List.mem_map.mp hw
    exact length_bigEndian wordSize n
  rw [encodeWords, length_flatten_words hwidth, List.length_map]

theorem word_encodeWords (hi : ns[i]? = some n) :
    word (encodeWords ns) i = .ok (bigEndian wordSize n) := by
  have hwidth : ∀ w ∈ ns.map (bigEndian wordSize), w.length = wordSize := by
    intro w hw
    obtain ⟨n, -, rfl⟩ := List.mem_map.mp hw
    exact length_bigEndian wordSize n
  have hword : (ns.map (bigEndian wordSize))[i]? = some (bigEndian wordSize n) := by
    rw [List.getElem?_map, hi]
    rfl
  rw [word, encodeWords, word_flatten hwidth hword]

theorem wordAsInt_encodeWords (hi : ns[i]? = some n) (hn : n < 256 ^ 32) :
    wordAsInt (encodeWords ns) i = .ok n := by
  rw [wordAsInt, word_encodeWords hi]
  show Except.ok (number (bigEndian 32 n)) = _
  rw [number_bigEndian hn]

theorem wordAsAddress_encodeWords (hi : ns[i]? = some a.val) :
    wordAsAddress (encodeWords ns) i = .ok ("0x" ++ String.ofList (addressDigits a)) := by
  have hlow : (bigEndian wordSize a.val).drop 12 = bigEndian 20 a.val := by
    rw [show wordSize = 12 + 20 from rfl, bigEndian_add, List.drop_left' (length_bigEndian 12 _)]
  rw [wordAsAddress, word_encodeWords hi]
  show Except.ok ("0x" ++ String.ofList (encodeHex _)) = _
  rw [hlow, addressDigits]

theorem addressDigits_injective : Function.Injective addressDigits := by
  intro a b h
  have hbound : ∀ c : Address, c.val < 256 ^ 20 := fun c => lt_of_lt_of_eq c.isLt (by norm_num)
  have hval : a.val = b.val := (bigEndian_inj (hbound a) (hbound b)).mp (encodeHex_injective h)
  exact Fin.ext hval

/-- A session can be read off what is shown of it. -/
theorem view_injective : Function.Injective Stored.view := by
  intro s t h
  have haddress : ∀ {a b : Address}, "0x" ++ String.ofList (addressDigits a) =
      "0x" ++ String.ofList (addressDigits b) → a = b := by
    intro a b hab
    have hlist := congrArg String.toList hab
    simp only [String.toList_append, String.toList_ofList, List.append_cancel_left_eq] at hlist
    exact addressDigits_injective hlist
  obtain ⟨⟨renter, provider, price, start, duration, deposited, settled⟩, hs⟩ := s
  obtain ⟨⟨renter', provider', price', start', duration', deposited', settled'⟩, ht⟩ := t
  simp only [Stored.view, Session.mk.injEq] at h
  obtain ⟨hrenter, hprovider, rfl, rfl, rfl, rfl, rfl⟩ := h
  obtain rfl := haddress hrenter
  obtain rfl := haddress hprovider
  rfl

/-- Wherever the fields stand, they are found. -/
theorem sessionFrom_encodeWords (before : List ℕ) (s : Stored) :
    sessionFrom (encodeWords (before ++ s.fields)) before.length = .ok s.view := by
  obtain ⟨hprice, hstart, hduration, hdeposited⟩ := s.2
  have hsettled : s.1.settled.toNat < 256 ^ 32 := by
    have := s.1.settled.toNat_le
    omega
  have hflag : decide (s.1.settled.toNat ≠ 0) = s.1.settled := by cases s.1.settled <;> rfl
  have hat : ∀ i, (before ++ s.fields)[before.length + i]? = s.fields[i]? := by
    intro i
    rw [List.getElem?_append_right (Nat.le_add_right _ _), Nat.add_sub_cancel_left]
  rw [sessionFrom, wordAsAddress_encodeWords (a := s.1.renter) (i := before.length) (hat 0),
    wordAsAddress_encodeWords (a := s.1.provider) (hat 1),
    wordAsInt_encodeWords (hat 2) hprice, wordAsInt_encodeWords (hat 3) hstart,
    wordAsInt_encodeWords (hat 4) hduration, wordAsInt_encodeWords (hat 5) hdeposited,
    wordAsInt_encodeWords (hat 6) hsettled]
  simp only [bind, Except.bind, pure, Except.pure, hflag, Stored.view]

/-- **What is decoded is what has been encoded**, in both forms. -/
theorem decodeSession_encode (s : Stored) (f : Form) : decodeSession (f.encode s) = .ok s.view := by
  have hlength : ∀ ns : List ℕ, (encodeWords ns).length / wordSize = ns.length := by
    intro ns
    rw [length_encodeWords, Nat.mul_div_cancel _ (by decide : 0 < wordSize)]
  cases f with
  | bare =>
    have hseven : (encodeWords s.fields).length / wordSize = 7 := hlength s.fields
    rw [Form.encode, decodeSession, hseven]
    exact sessionFrom_encodeWords [] s
  | prefixed =>
    have height : (encodeWords (wordSize :: s.fields)).length / wordSize = 8 := hlength _
    rw [Form.encode, decodeSession, height]
    exact sessionFrom_encodeWords [wordSize] s

end Encoding

/-! ### Texts that write an address -/

/-- Behind `0x`, or `0X`, or both, or neither, stand the digits of the address in either case. -/
def Spells (u : Unicode) (text : String) (a : Address) : Prop :=
  ∃ before ∈ [[], "0x".toList, "0X".toList, "0x0X".toList], ∃ digits : List Char,
    trimSpace text.toList = before ++ digits ∧ toLower u.lower digits = addressDigits a

/-- Two texts are the same but for case, prefix and the space around. -/
def Alike (u : Unicode) (a b : String) : Prop :=
  toLower u.lower (bare a) ≠ [] ∧ toLower u.lower (bare a) = toLower u.lower (bare b)

section Texts

variable {u : Unicode} {p s digits : List Char} {c : Char} {text text' : String} {a : Address}
  {bs : List UInt8}

theorem sameAddress_iff : sameAddress u text text' = true ↔ Alike u text text' := by
  simp only [sameAddress, Alike, Bool.and_eq_true, decide_eq_true_eq]

@[simp] theorem trimPrefix_append (p s : List Char) : trimPrefix p (p ++ s) = s := by
  rw [trimPrefix, if_pos (List.isPrefixOf_iff_prefix.mpr (List.prefix_append p s)),
    List.drop_left]

theorem trimPrefix_of_not_mem (hp : c ∈ p) (hs : c ∉ s) : trimPrefix p s = s := by
  rw [trimPrefix, if_neg]
  intro h
  exact hs ((List.isPrefixOf_iff_prefix.mp h).subset hp)

theorem append_trimPrefix (p s : List Char) : s = trimPrefix p s ∨ s = p ++ trimPrefix p s := by
  by_cases h : p.isPrefixOf s = true
  · obtain ⟨t, rfl⟩ := List.isPrefixOf_iff_prefix.mp h
    right
    rw [trimPrefix_append]
  · left
    rw [trimPrefix, if_neg h]

theorem trimSpace_eq_self (h : ∀ c ∈ s, Egress.isSpace c = false) : trimSpace s = s := by
  apply Search.strip_eq_self
  · exact fun c hc => h c (List.mem_of_mem_head? hc)
  · exact fun c hc => h c (List.mem_of_mem_getLast? hc)

/-- What a digit is not. -/
theorem hexDigit_spec : ∀ n < 16, Egress.isSpace (hexDigit n) = false ∧ hexDigit n ≠ 'x' ∧
    hexDigit n ≠ 'X' ∧ (hexDigit n).val < 128 ∧ (hexDigit n).toLower = hexDigit n := by
  decide

theorem not_mem_encodeHex (bs : List UInt8) : 'x' ∉ encodeHex bs ∧ 'X' ∉ encodeHex bs := by
  constructor
  · intro h
    obtain ⟨n, hn, hc⟩ := mem_encodeHex h
    exact (hexDigit_spec n hn).2.1 hc.symm
  · intro h
    obtain ⟨n, hn, hc⟩ := mem_encodeHex h
    exact (hexDigit_spec n hn).2.2.1 hc.symm

theorem toLower_encodeHex (bs : List UInt8) : toLower u.lower (encodeHex bs) = encodeHex bs := by
  refine (List.map_congr_left fun c hc => ?_).trans (List.map_id _)
  obtain ⟨n, hn, rfl⟩ := mem_encodeHex hc
  obtain ⟨-, -, -, hascii, hlower⟩ := hexDigit_spec n hn
  rw [u.lower_ascii _ hascii, hlower]
  rfl

/-- There is no space in digits, nor in what stands before them. -/
theorem not_space {l : List Char} (hl : l.all (fun c => !Egress.isSpace c) = true)
    (bs : List UInt8) : ∀ c ∈ l ++ encodeHex bs, Egress.isSpace c = false := by
  intro c hc
  rcases List.mem_append.mp hc with hc | hc
  · simpa using List.all_eq_true.mp hl c hc
  · obtain ⟨n, hn, rfl⟩ := mem_encodeHex hc
    exact (hexDigit_spec n hn).1

theorem bare_prefixed (bs : List UInt8) :
    bare ("0x" ++ String.ofList (encodeHex bs)) = encodeHex bs := by
  have hspace := not_space (by decide : "0x".toList.all (fun c => !Egress.isSpace c) = true) bs
  have hlist : ("0x" ++ String.ofList (encodeHex bs)).toList = "0x".toList ++ encodeHex bs := by
    simp only [String.toList_append, String.toList_ofList]
  rw [bare, hlist, trimSpace_eq_self hspace, trimPrefix_append]
  exact trimPrefix_of_not_mem (by decide : 'X' ∈ "0X".toList) (not_mem_encodeHex bs).2

/-- Lower case does not make an `x` into a digit. -/
theorem not_mem_of_toLower (h : toLower u.lower digits = encodeHex bs) :
    'x' ∉ digits ∧ 'X' ∉ digits := by
  have hmem : ∀ c ∈ digits, u.lower c ∈ encodeHex bs := by
    intro c hc
    rw [← h]
    exact List.mem_map_of_mem hc
  constructor
  · intro hx
    have hlow := hmem 'x' hx
    rw [u.lower_ascii 'x' (by decide)] at hlow
    exact (not_mem_encodeHex bs).1 hlow
  · intro hx
    have hlow := hmem 'X' hx
    rw [u.lower_ascii 'X' (by decide)] at hlow
    exact (not_mem_encodeHex bs).1 hlow

theorem spells_iff : Spells u text a ↔ toLower u.lower (bare text) = addressDigits a := by
  constructor
  · rintro ⟨before, hbefore, digits, htext, hdigits⟩
    obtain ⟨hx, hX⟩ := not_mem_of_toLower hdigits
    have h0x : trimPrefix "0x".toList digits = digits :=
      trimPrefix_of_not_mem (by decide : 'x' ∈ "0x".toList) hx
    have h0X : trimPrefix "0X".toList digits = digits :=
      trimPrefix_of_not_mem (by decide : 'X' ∈ "0X".toList) hX
    have hbare : bare text = digits := by
      rw [bare, htext]
      simp only [List.mem_cons, List.not_mem_nil, or_false] at hbefore
      rcases hbefore with rfl | rfl | rfl | rfl
      · rw [List.nil_append, h0x, h0X]
      · rw [trimPrefix_append, h0X]
      · have hother : trimPrefix "0x".toList ("0X".toList ++ digits) = "0X".toList ++ digits := rfl
        rw [hother, trimPrefix_append]
      · rw [show "0x0X".toList ++ digits = "0x".toList ++ ("0X".toList ++ digits) from rfl,
          trimPrefix_append, trimPrefix_append]
    rw [hbare, hdigits]
  · intro h
    have h0x := append_trimPrefix "0x".toList (trimSpace text.toList)
    have h0X := append_trimPrefix "0X".toList (trimPrefix "0x".toList (trimSpace text.toList))
    rw [← bare] at h0X
    rcases h0x with h0x | h0x <;> rcases h0X with h0X | h0X <;> rw [h0X] at h0x
    · exact ⟨[], by simp, bare text, h0x, h⟩
    · exact ⟨"0X".toList, by simp, bare text, h0x, h⟩
    · exact ⟨"0x".toList, by simp, bare text, h0x, h⟩
    · exact ⟨"0x0X".toList, by simp, bare text, h0x, h⟩

/-- A text is like one that spells an address just if it spells it too. -/
theorem alike_iff (h : Spells u text' a) : Alike u text text' ↔ Spells u text a := by
  have hne : addressDigits a ≠ [] := by
    intro hnil
    have hlength := length_encodeHex (bigEndian 20 a.val)
    rw [length_bigEndian, ← addressDigits, hnil] at hlength
    cases hlength
  rw [spells_iff] at h ⊢
  rw [Alike, h]
  constructor
  · exact fun hsame => hsame.2
  · intro hsame
    exact ⟨hsame ▸ hne, hsame⟩

theorem alike_comm : Alike u text text' ↔ Alike u text' text := by
  constructor
  · exact fun ⟨hne, h⟩ => ⟨h ▸ hne, h.symm⟩
  · exact fun ⟨hne, h⟩ => ⟨h ▸ hne, h.symm⟩

theorem spells_view (a : Address) : Spells u ("0x" ++ String.ofList (addressDigits a)) a := by
  rw [spells_iff, addressDigits, bare_prefixed, toLower_encodeHex]

end Texts

/-! ### Which transaction is looked up -/

/-- **What the mirror node is asked for.**  A transaction id is put into the mirror node's own form,
with dashes and nine digits of nanoseconds; a hash, and what has no `@`, is asked for as it is. -/
inductive LooksUp (txID : String) : String → Prop
  | plain {id : List Char} (htrim : trimSpace txID.toList = id) (hne : id ≠ [])
      (hplain : "0x".toList <+: id ∨ '@' ∉ id) : LooksUp txID (String.ofList id)
  | dashed {account seconds nanos : List Char}
      (htrim : trimSpace txID.toList = account ++ '@' :: (seconds ++ '.' :: nanos))
      (hhash : ¬ "0x".toList <+: account ++ '@' :: (seconds ++ '.' :: nanos))
      (hne : account ≠ []) (haccount : '@' ∉ account) (hseconds : '.' ∉ seconds)
      (hnanos : (String.ofList nanos).utf8ByteSize ≤ 9) :
      LooksUp txID (String.ofList account ++ "-" ++ String.ofList seconds ++ "-" ++
        String.ofList (List.replicate (9 - (String.ofList nanos).utf8ByteSize) '0') ++
        String.ofList nanos)

section Transactions

variable {u : Unicode} {m : Mirror} {txID path : String} {r : ContractResult}

theorem normalizeTransactionID_iff :
    normalizeTransactionID u txID = .ok path ↔ LooksUp txID path := by
  constructor
  · intro h
    unfold normalizeTransactionID at h
    dsimp only at h
    split_ifs at h with hne hplain haccount hdot hlong
    · cases h
      rw [Bool.or_eq_true, List.isPrefixOf_iff_prefix] at hplain
      exact .plain rfl hne (hplain.imp_right (by simp))
    · cases h
      rw [Bool.or_eq_true, List.isPrefixOf_iff_prefix, not_or] at hplain
      obtain ⟨hhash, hat⟩ := hplain
      have hat' : '@' ∈ trimSpace txID.toList := by simpa using hat
      have hdot' : '.' ∈ ((trimSpace txID.toList).dropWhile (· ≠ '@')).tail := by simpa using hdot
      obtain ⟨hcut, hmem⟩ := Search.cut_of_mem hat'
      obtain ⟨hcut', hmem'⟩ := Search.cut_of_mem hdot'
      rw [hcut'] at hcut
      exact .dashed hcut (hcut ▸ hhash) haccount hmem hmem' (not_lt.mp hlong)
  · intro h
    cases h with
    | @plain id htrim hne hplain =>
      have hplain' : ("0x".toList.isPrefixOf id || !id.elem '@') = true := by
        rw [Bool.or_eq_true, List.isPrefixOf_iff_prefix]
        exact hplain.imp_right (by simp)
      simp only [normalizeTransactionID, htrim, if_neg hne, if_pos hplain']
    | @dashed account seconds nanos htrim hhash hne haccount hseconds hnanos =>
      obtain ⟨htake, hdrop⟩ := Search.cut_append (seconds ++ '.' :: nanos) haccount
      obtain ⟨htake', hdrop'⟩ := Search.cut_append nanos hseconds
      have hplain : ¬ ("0x".toList.isPrefixOf (account ++ '@' :: (seconds ++ '.' :: nanos)) ||
          !(account ++ '@' :: (seconds ++ '.' :: nanos)).elem '@') = true := by
        rw [Bool.or_eq_true, List.isPrefixOf_iff_prefix, not_or]
        exact ⟨hhash, by simp⟩
      have hdot : ¬ (!(seconds ++ '.' :: nanos).elem '.') = true := by simp
      simp only [normalizeTransactionID, htrim, if_neg (List.append_ne_nil_of_left_ne_nil hne _),
        if_neg hplain, htake, hdrop, if_neg hne, if_neg hdot, htake', hdrop',
        if_neg (not_lt.mpr hnanos)]

/-- The answer is the one the mirror node has for what it is asked for. -/
theorem contractResultByTransaction_eq (h : LooksUp txID path) :
    m.contractResultByTransaction u txID = m.contractsResults path := by
  rw [Mirror.contractResultByTransaction, normalizeTransactionID_iff.mpr h]

theorem contractResultByTransaction_iff :
    m.contractResultByTransaction u txID = .ok r ↔
      ∃ path, LooksUp txID path ∧ m.contractsResults path = .ok r := by
  simp only [← normalizeTransactionID_iff (u := u), Mirror.contractResultByTransaction]
  cases normalizeTransactionID u txID with
  | error e => simp
  | ok path => simp

end Transactions

/-! ### What is verified -/

/-- The first four bytes of a call of `openSession`. -/
def openSessionCall : List UInt8 := [0x5e, 0xa0, 0x2a, 0xd0]

/-- The transaction has succeeded, and has called `openSession` of the contract. -/
structure Opens (u : Unicode) (v : Verifier) (r : ContractResult) : Prop where
  success : r.result = "SUCCESS"
  contract : Alike u r.address v.contract ∨ r.contractID = v.contract
  call : ∃ args, hexBytes r.functionParameters = .ok (openSessionCall ++ args)

/-- The quote is for a session of the contract. -/
def Quote.Names (quote : Quote) (id : SessionId) : Prop :=
  decodeBytes32 quote.sessionID = .ok (bigEndian 32 id.val)

/-- The session has been funded as it was quoted. -/
structure Meets (u : Unicode) (quote : Quote) (s : SessionEscrow.Session) : Prop where
  deposited : 0 < s.deposited
  provider : Spells u quote.providerAddress s.provider
  price : (s.pricePerSecond : ℤ) = quote.pricePerSecond
  minSeconds : quote.minSeconds.toInt ≤ s.duration
  live : s.settled = false

/-- The call that reads a session. -/
def Verifier.getSession (v : Verifier) (id : SessionId) : CallRequest where
  data := "0x39b240bd" ++ String.ofList (encodeHex (bigEndian 32 id.val))
  «to» := ensure0x v.contract
  block := "latest"

/-- The mirror node answers that this is what the contract has stored, in either form. -/
def Verifier.Reads (v : Verifier) (id : SessionId) (s : Stored) : Prop :=
  ∃ f : Form, v.mirror.contractsCall (v.getSession id) =
    .ok ("0x" ++ String.ofList (encodeHex (f.encode s)))

/-- The mirror node does not answer. -/
def Verifier.Fails (v : Verifier) (id : SessionId) : Prop :=
  ∃ e, v.mirror.contractsCall (v.getSession id) = .error e

/-- The mirror node returns what the contract has stored. -/
def Verifier.Serves (v : Verifier) (sessions : SessionId → Stored) : Prop :=
  ∀ id, v.Reads id (sessions id)

/-- The mirror node returns what the contract has stored, when it answers. -/
def Verifier.Shows (v : Verifier) (sessions : SessionId → Stored) : Prop :=
  ∀ id, v.Reads id (sessions id) ∨ v.Fails id

/-- What the contract holds of every session, for an amount that is less than `2^63`. -/
def Stored.Paid (s : Stored) : Prop :=
  s.1.deposited = s.1.pricePerSecond * s.1.duration ∧ s.1.deposited < 2 ^ 63

section Verification

variable {u : Unicode} {v : Verifier} {quote : Quote} {sessions : SessionId → Stored}
  {id : SessionId} {s : Stored} {session : Session} {data txID : String} {bs args : List UInt8}

theorem evened_encodeHex (bs : List UInt8) : evened (encodeHex bs) = encodeHex bs := by
  rw [evened, if_neg]
  rw [length_encodeHex]
  omega

theorem decodeHex_prefixed (bs : List UInt8) :
    decodeHex ("0x" ++ String.ofList (encodeHex bs)) = .ok bs := by
  rw [decodeHex, bare_prefixed, evened_encodeHex, decodeHex_encodeHex]
  split
  case isTrue hnil => rw [encodeHex_injective (show encodeHex bs = encodeHex [] from hnil)]
  case isFalse => rfl

/-- What is asked for begins with the selector. -/
theorem ensure0x_getSession (bs : List UInt8) :
    ensure0x (selectorGetSession ++ String.ofList (encodeHex bs)) =
      "0x39b240bd" ++ String.ofList (encodeHex bs) := by
  have hspace :=
    not_space (by decide : selectorGetSession.toList.all (fun c => !Egress.isSpace c) = true) bs
  have hlist : (selectorGetSession ++ String.ofList (encodeHex bs)).toList =
      selectorGetSession.toList ++ encodeHex bs := by
    simp only [String.toList_append, String.toList_ofList]
  rw [ensure0x, hlist, trimSpace_eq_self hspace]
  show String.ofList ("0x39b240bd".toList ++ encodeHex bs) = _
  apply String.toList_inj.mp
  simp only [String.toList_append, String.toList_ofList]

/-- **The session of the id is read**, if the quote names one. -/
theorem session_eq (hread : v.Reads id s) (hid : quote.Names id) :
    v.session quote.sessionID = .ok s.view := by
  obtain ⟨f, hf⟩ := hread
  rw [Verifier.getSession] at hf
  have hcall : v.mirror.call v.contract
      (selectorGetSession ++ String.ofList (encodeHex (bigEndian 32 id.val))) =
        .ok (f.encode s) := by
    rw [Mirror.call, ensure0x_getSession, hf]
    simp only [decodeHex_prefixed]
  unfold Verifier.session encodeGetSession
  rw [hid]
  simp only [hcall, decodeSession_encode]

/-- A read that fails is an error. -/
theorem session_of_fails (hfails : v.Fails id) (hid : quote.Names id) :
    ∃ e, v.session quote.sessionID = .error e := by
  obtain ⟨e, he⟩ := hfails
  rw [Verifier.getSession] at he
  have hcall : v.mirror.call v.contract
      (selectorGetSession ++ String.ofList (encodeHex (bigEndian 32 id.val))) = .error e := by
    rw [Mirror.call, ensure0x_getSession, he]
  refine ⟨"read session " ++ quote.sessionID ++ ": " ++ e.text, ?_⟩
  unfold Verifier.session encodeGetSession
  rw [hid]
  simp only [hcall]

/-- A session that is returned has been read. -/
theorem session_ok_iff (hshows : v.Shows sessions) (hid : quote.Names id) :
    v.session quote.sessionID = .ok session ↔
      v.Reads id (sessions id) ∧ session = (sessions id).view := by
  constructor
  · intro h
    rcases hshows id with hread | hfails
    · rw [session_eq hread hid] at h
      exact ⟨hread, (Except.ok.inj h).symm⟩
    · obtain ⟨e, he⟩ := session_of_fails hfails hid
      rw [he] at h
      cases h
  · rintro ⟨hread, rfl⟩
    exact session_eq hread hid

/-- Nothing is read if it names none. -/
theorem names_of_session (h : v.session quote.sessionID = .ok session) :
    ∃ id, quote.Names id := by
  unfold Verifier.session encodeGetSession at h
  cases hraw : decodeBytes32 quote.sessionID with
  | error e =>
    rw [hraw] at h
    cases h
  | ok raw =>
    have hlength : raw.length = 32 := by
      rw [decodeBytes32] at hraw
      split at hraw
      · cases hraw
      · split at hraw
        case isTrue => cases hraw
        case isFalse hlength =>
          cases hraw
          exact not_not.mp hlength
    refine ⟨⟨number raw, ?_⟩, ?_⟩
    · exact lt_of_lt_of_eq (number_lt raw) (by rw [hlength]; norm_num)
    · show decodeBytes32 quote.sessionID = .ok (bigEndian 32 (number raw))
      rw [hraw, ← hlength, bigEndian_number]

theorem callArguments_iff :
    callArguments data = .ok (selectorOpenSession, args) ↔
      hexBytes data = .ok (openSessionCall ++ args) := by
  have hselector : selectorOpenSession = String.ofList (encodeHex openSessionCall) := by decide
  rw [callArguments]
  cases hexBytes data with
  | error e =>
    constructor
    · intro h
      cases h
    · intro h
      cases h
  | ok raw =>
    constructor
    · intro h
      simp only at h
      split at h
      case isTrue => cases h
      case isFalse =>
        simp only [Except.ok.injEq, Prod.mk.injEq, hselector] at h
        obtain ⟨hfirst, rfl⟩ := h
        have htake := encodeHex_injective (String.ofList_injective hfirst)
        rw [← htake, List.take_append_drop]
    · intro h
      obtain rfl := Except.ok.inj h
      rw [hselector]
      rfl

/-- What is compared with the quote is the stored session. -/
theorem checkSession_iff (hpaid : s.Paid) :
    checkSession u quote s.view = .ok session ↔ Meets u quote s.1 ∧ session = s.view := by
  obtain ⟨hdeposited, hsmall⟩ := hpaid
  have hprovider : sameAddress u s.view.provider quote.providerAddress = true ↔
      Spells u quote.providerAddress s.1.provider := by
    rw [sameAddress_iff, alike_comm]
    exact alike_iff (spells_view s.1.provider)
  -- A deposit pays for each second, so that the seconds are fewer than its tinybars.
  have hseconds : 0 < s.1.deposited → (Int64.ofNat s.view.duration < quote.minSeconds ↔
      (s.1.duration : ℤ) < quote.minSeconds.toInt) := by
    intro hpos
    have hprice : 0 < s.1.pricePerSecond := by
      by_contra hzero
      rw [Nat.eq_zero_of_not_pos hzero, Nat.zero_mul] at hdeposited
      omega
    have hle : s.1.duration ≤ s.1.deposited := by
      rw [hdeposited]
      exact Nat.le_mul_of_pos_left s.1.duration hprice
    rw [Int64.lt_iff_toInt_lt]
    show (Int64.ofNat s.1.duration).toInt < _ ↔ _
    rw [Int64.toInt_ofNat_of_lt (by omega)]
  constructor
  · intro h
    rw [checkSession] at h
    split at h
    case isTrue => cases h
    case isFalse hdep =>
    split at h
    case isTrue => cases h
    case isFalse hprov =>
    split at h
    case isTrue => cases h
    case isFalse hprice =>
    split at h
    case isTrue => cases h
    case isFalse hmin =>
    split at h
    case isTrue => cases h
    case isFalse hlive =>
    have hpos : 0 < s.1.deposited := Nat.pos_of_ne_zero hdep
    rw [hseconds hpos] at hmin
    obtain rfl := Except.ok.inj h
    exact ⟨⟨hpos, hprovider.mp (not_not.mp hprov), not_not.mp hprice, by omega,
      Bool.eq_false_iff.mpr hlive⟩, rfl⟩
  · rintro ⟨⟨hpos, hspells, hprice, hmin, hlive⟩, rfl⟩
    have hdep : s.view.deposited ≠ 0 := Nat.ne_of_gt hpos
    have hlong : ¬ Int64.ofNat s.view.duration < quote.minSeconds := by
      rw [hseconds hpos]
      omega
    have hquoted : ¬ (s.view.pricePerSecond : ℤ) ≠ quote.pricePerSecond := not_not.mpr hprice
    have hopen : ¬ s.view.settled = true := Bool.eq_false_iff.mp hlive
    rw [checkSession, if_neg hdep, if_neg (not_not.mpr (hprovider.mpr hspells)), if_neg hquoted,
      if_neg hlong, if_neg hopen]

/-- The session is asked for only if the transaction opens one. -/
theorem verifyDeposit_of_opens {r : ContractResult}
    (hr : v.mirror.contractResultByTransaction u txID = .ok r) (h : Opens u v r) :
    v.verifyDeposit u txID quote =
      match v.session quote.sessionID with
      | .error e => .error (.other e)
      | .ok session => checkSession u quote session := by
  obtain ⟨hsuccess, hcontract, args, hcall⟩ := h
  rw [← sameAddress_iff] at hcontract
  have hon : ¬ (¬ sameAddress u r.address v.contract = true ∧ r.contractID ≠ v.contract) := by
    rintro ⟨haddress, hcontractID⟩
    exact hcontract.elim haddress hcontractID
  rw [Verifier.verifyDeposit, hr]
  simp only [hsuccess, ne_eq, not_true_eq_false, if_false, if_neg hon, callArguments_iff.mpr hcall]

/-- Otherwise it is not returned, and all that is rejected is the transaction. -/
theorem verifyDeposit_of_not_opens
    (h : ∀ r, v.mirror.contractResultByTransaction u txID = .ok r → ¬ Opens u v r) :
    v.verifyDeposit u txID quote ≠ .ok session := by
  intro hok
  rw [Verifier.verifyDeposit] at hok
  split at hok
  · cases hok
  · cases hok
  next r hr =>
  refine h r hr ?_
  split at hok
  case isTrue => cases hok
  case isFalse hsuccess =>
  split at hok
  case isTrue => cases hok
  case isFalse hon =>
  split at hok
  · cases hok
  next selector args hcall =>
  split at hok
  case isTrue => cases hok
  case isFalse hselector =>
  obtain rfl := not_not.mp hselector
  refine ⟨not_not.mp hsuccess, ?_, args, callArguments_iff.mp hcall⟩
  rw [← sameAddress_iff]
  by_contra hneither
  exact hon ⟨fun hsame => hneither (.inl hsame), fun hid => hneither (.inr hid)⟩

/-- A session that has not been opened is waited for. -/
theorem verifyDeposit_of_zero {r : ContractResult} (hread : v.Reads id s)
    (hid : quote.Names id) (hzero : s.1 = .zero)
    (hr : v.mirror.contractResultByTransaction u txID = .ok r) (h : Opens u v r) :
    v.verifyDeposit u txID quote = .error .notYetVisible := by
  have hnothing : s.view.deposited = 0 := by
    show s.1.deposited = 0
    rw [hzero]
    rfl
  rw [verifyDeposit_of_opens hr h, session_eq hread hid]
  simp only [checkSession, if_pos hnothing]

/-- A read that fails is no rejection. -/
theorem verifyDeposit_of_fails {r : ContractResult} (hfails : v.Fails id) (hid : quote.Names id)
    (hr : v.mirror.contractResultByTransaction u txID = .ok r) (h : Opens u v r) :
    ∃ text, v.verifyDeposit u txID quote = .error (.other text) := by
  obtain ⟨e, he⟩ := session_of_fails hfails hid
  rw [verifyDeposit_of_opens hr h, he]
  exact ⟨e, rfl⟩

/-- **What is verified**, of a mirror node that need not answer. -/
theorem verifyDeposit_iff (hshows : v.Shows sessions)
    (hpaid : ∀ id, quote.Names id → (sessions id).Paid) :
    v.verifyDeposit u txID quote = .ok session ↔
      ∃ path r id, LooksUp txID path ∧ v.mirror.contractsResults path = .ok r ∧ Opens u v r ∧
        quote.Names id ∧ v.Reads id (sessions id) ∧ Meets u quote (sessions id).1 ∧
        session = (sessions id).view := by
  constructor
  · intro h
    by_cases hopens : ∃ r, v.mirror.contractResultByTransaction u txID = .ok r ∧ Opens u v r
    · obtain ⟨r, hr, hopens⟩ := hopens
      obtain ⟨path, hpath, hresult⟩ := contractResultByTransaction_iff.mp hr
      rw [verifyDeposit_of_opens hr hopens] at h
      cases hsession : v.session quote.sessionID with
      | error e =>
        rw [hsession] at h
        cases h
      | ok stored =>
        obtain ⟨id, hid⟩ := names_of_session hsession
        obtain ⟨hread, rfl⟩ := (session_ok_iff hshows hid).mp hsession
        rw [hsession] at h
        obtain ⟨hmeets, hview⟩ := (checkSession_iff (hpaid id hid)).mp h
        exact ⟨path, r, id, hpath, hresult, hopens, hid, hread, hmeets, hview⟩
    · exact absurd h (verifyDeposit_of_not_opens fun r hr hr' => hopens ⟨r, hr, hr'⟩)
  · rintro ⟨path, r, id, hpath, hresult, hopens, hid, hread, hmeets, hview⟩
    have hr : v.mirror.contractResultByTransaction u txID = .ok r :=
      contractResultByTransaction_iff.mpr ⟨path, hpath, hresult⟩
    rw [verifyDeposit_of_opens hr hopens, session_eq hread hid]
    exact (checkSession_iff (hpaid id hid)).mpr ⟨hmeets, hview⟩

end Verification

/-- Ten minutes at 3334 tinybars a second. -/
def tenMinutes : Stored where
  val := {
    renter := (0xcb41addf66bc21045fec301dde313e7f336ad942 : Address)
    provider := (0xf70ccc8f7f8771f8dced650fb5ce8279045e3e23 : Address)
    pricePerSecond := 3334
    startTime := 1757600000
    duration := 600
    deposited := 2000400
    settled := false }
  property := by norm_num

/-- The letters beyond ASCII are left as they are. -/
def Unicode.ascii : Unicode where
  lower := Char.toLower
  lower_ascii := fun _ _ => rfl
  quoted := fun s => s

/-- The mirror node, when every session is this one. -/
def servesTenMinutes : Verifier where
  mirror := {
    contractsResults := fun _ => .ok {
      result := "SUCCESS"
      contractID := "0.0.5005"
      address := "0xD583D91742F8888F5B106C3F3C854EACD7DB7143"
      functionParameters := "0x5ea02ad0"
      errorMessage := "" }
    contractsCall := fun _ =>
      .ok ("0x" ++ String.ofList (encodeHex (Form.prefixed.encode tenMinutes))) }
  contract := "0xd583d91742f8888f5b106c3f3c854eacd7db7143"

/-- The offer of the examples. -/
def quoteTenMinutes : Quote where
  sessionID := "0x1111111111111111111111111111111111111111111111111111111111111111"
  providerAddress := "F70CCC8F7F8771F8DCED650FB5CE8279045E3E23"
  pricePerSecond := 3334
  minSeconds := 300

/-- The nanoseconds are padded. -/
theorem looksUp_tenMinutes : LooksUp "0.0.1@1757600000.5" "0.0.1-1757600000-000000005" :=
  (normalizeTransactionID_iff (u := .ascii)).mp (by decide +kernel)

end Deposit
end Mach402
