import Mach402.Contracts.SessionEscrow
import Mach402.Library.Index

/-!
# The identity registry

`IdentityRegistry.sol`: a provider registers once, by `newAgent`, and keeps the id; `updateAgent`
moves it to another domain or address.  Two reverse indexes find an id by either.

* `newAgent`, `updateAgent`: the functions that write, and `identityRegistry`: their runs;
* `updateAgent_ok_iff`: the one description of what an update does;
* `World.Good`: the indexes are reverse indexes of the records;
* `identityRegister`: the command that registers a node, or adopts the id it has.

`keccak256` is a parameter.
-/

namespace Mach402
namespace IdentityRegistry

/-- The bytes of a `string`. -/
abbrev Domain : Type := List UInt8

/-- `AgentInfo`: the record of an agent. -/
structure AgentInfo where
  agentId : ℕ
  agentDomain : Domain
  agentAddress : Address
  deriving DecidableEq

/-- What an unknown id reads as. -/
def AgentInfo.zero : AgentInfo where
  agentId := 0
  agentDomain := []
  agentAddress := 0

/-- What the contract emits. -/
inductive Event
  | agentRegistered (agentId : ℕ) (agentDomain : Domain) (agentAddress : Address)
  | agentUpdated (agentId : ℕ) (agentDomain : Domain) (agentAddress : Address)
  deriving DecidableEq

/-- The id that an event registers. -/
def Event.registers : Event → Option ℕ
  | .agentRegistered id .. => some id
  | .agentUpdated .. => none

/-- Why a call reverts. -/
inductive Revert
  | notAgentAddress
  | emptyDomain
  | domainTaken
  | addressTaken
  | noSuchAgent
  | notAgentOwner
  /-- `_nextAgentId++` overflows. -/
  | panic
  deriving DecidableEq

/-- A transaction of `sender` has written `_idByAddress[agentAddress] = agentId`. -/
structure Binding where
  sender : Address
  agentAddress : Address
  agentId : ℕ
  deriving DecidableEq

/-- The storage of the contract, and its log. -/
structure World (Hash : Type) where
  nextAgentId : ℕ
  agents : ℕ → AgentInfo
  idByDomainHash : Hash → ℕ
  idByAddress : Address → ℕ
  log : List Event
  /-- A record of who has bound which address. -/
  bindings : List Binding

/-- The contract, deployed. -/
def World.initial (Hash : Type) : World Hash where
  nextAgentId := 1
  agents := fun _ => .zero
  idByDomainHash := fun _ => 0
  idByAddress := fun _ => 0
  log := []
  bindings := []

/-- A call of a function that writes.  Nobody calls from address zero. -/
inductive Entry
  | newAgent (agentDomain : Domain) (agentAddress : Address)
  | updateAgent (agentId : ℕ) (newDomain : Domain) (newAddress : Address)

/-- A transaction.  Nobody signs for the zero address. -/
structure Tx where
  sender : Address
  sender_ne : sender ≠ 0
  entry : Entry

variable {Hash : Type} (keccak256 : Domain → Hash)

section Functions

variable [DecidableEq Hash]

namespace World

/-! ### The functions -/

/-- What `newAgent` writes. -/
def register (w : World Hash) (sender : Address) (agentDomain : Domain) (agentAddress : Address) :
    World Hash :=
  let agentId := w.nextAgentId
  { nextAgentId := agentId + 1
    agents := Function.update w.agents agentId { agentId, agentDomain, agentAddress }
    idByDomainHash := Function.update w.idByDomainHash (keccak256 agentDomain) agentId
    idByAddress := Function.update w.idByAddress agentAddress agentId
    log := w.log ++ [.agentRegistered agentId agentDomain agentAddress]
    bindings := w.bindings ++ [⟨sender, agentAddress, agentId⟩] }

/-- `newAgent`: an agent registers itself. -/
def newAgent (w : World Hash) (sender : Address) (agentDomain : Domain) (agentAddress : Address) :
    Except Revert (World Hash × ℕ) :=
  if agentAddress ≠ sender then .error .notAgentAddress
  else if agentDomain.length = 0 then .error .emptyDomain
  else
    let domainHash := keccak256 agentDomain
    if w.idByDomainHash domainHash ≠ 0 then .error .domainTaken
    else if w.idByAddress agentAddress ≠ 0 then .error .addressTaken
    else
      let agentId := w.nextAgentId
      if SessionEscrow.wordSize ≤ agentId + 1 then .error .panic
      else .ok (w.register keccak256 sender agentDomain agentAddress, agentId)

/-- The old domain is released and the new one taken. -/
def setDomain (w : World Hash) (agentId : ℕ) (newDomain : Domain) : World Hash :=
  let a := w.agents agentId
  { w with
    idByDomainHash := Function.update
      (Function.update w.idByDomainHash (keccak256 a.agentDomain) 0) (keccak256 newDomain) agentId
    agents := Function.update w.agents agentId { a with agentDomain := newDomain } }

/-- The old address is released and the new one taken. -/
def setAddress (w : World Hash) (sender : Address) (agentId : ℕ) (newAddress : Address) :
    World Hash :=
  let a := w.agents agentId
  { w with
    idByAddress :=
      Function.update (Function.update w.idByAddress a.agentAddress 0) newAddress agentId
    agents := Function.update w.agents agentId { a with agentAddress := newAddress }
    bindings := w.bindings ++ [⟨sender, newAddress, agentId⟩] }

/-- The part of `updateAgent` that changes the domain. -/
def updateDomain (w : World Hash) (agentId : ℕ) (newDomain : Domain) :
    Except Revert (World Hash) :=
  let oldHash := keccak256 (w.agents agentId).agentDomain
  let newHash := keccak256 newDomain
  if newHash ≠ oldHash then
    if w.idByDomainHash newHash ≠ 0 then .error .domainTaken
    else .ok (w.setDomain keccak256 agentId newDomain)
  else .ok w

/-- The part that changes the address. -/
def updateAddress (w : World Hash) (sender : Address) (agentId : ℕ) (newAddress : Address) :
    Except Revert (World Hash) :=
  if newAddress ≠ (w.agents agentId).agentAddress then
    if w.idByAddress newAddress ≠ 0 then .error .addressTaken
    else .ok (w.setAddress sender agentId newAddress)
  else .ok w

/-- `emit AgentUpdated`, with the record as it now is. -/
def emitUpdated (w : World Hash) (agentId : ℕ) : World Hash :=
  let a := w.agents agentId
  { w with log := w.log ++ [.agentUpdated agentId a.agentDomain a.agentAddress] }

/-- `updateAgent`: what is empty or zero is left as it is. -/
def updateAgent (w : World Hash) (sender : Address) (agentId : ℕ) (newDomain : Domain)
    (newAddress : Address) : Except Revert (World Hash × Bool) :=
  let a := w.agents agentId
  if a.agentId = 0 then .error .noSuchAgent
  else if a.agentAddress ≠ sender then .error .notAgentOwner
  else if newDomain.length = 0 then .error .emptyDomain
  else if newAddress = 0 then .error .notAgentAddress
  else match w.updateDomain keccak256 agentId newDomain with
    | .error e => .error e
    | .ok w' => match w'.updateAddress sender agentId newAddress with
      | .error e => .error e
      | .ok w'' => .ok (w''.emitUpdated agentId, true)

/-- `getAgent`. -/
def getAgent (w : World Hash) (agentId : ℕ) : Except Revert AgentInfo :=
  let a := w.agents agentId
  if a.agentId = 0 then .error .noSuchAgent else .ok a

/-- `resolveByDomain`. -/
def resolveByDomain (w : World Hash) (agentDomain : Domain) : Except Revert AgentInfo :=
  let id := w.idByDomainHash (keccak256 agentDomain)
  if id = 0 then .error .noSuchAgent else .ok (w.agents id)

/-- `resolveByAddress`. -/
def resolveByAddress (w : World Hash) (agentAddress : Address) : Except Revert AgentInfo :=
  let id := w.idByAddress agentAddress
  if id = 0 then .error .noSuchAgent else .ok (w.agents id)

/-- `agentIdOf`: zero is none. -/
def agentIdOf (w : World Hash) (agentAddress : Address) : ℕ := w.idByAddress agentAddress

/-- `agentCount`. -/
def agentCount (w : World Hash) : ℕ := w.nextAgentId - 1

/-- One transaction.  A revert undoes all of it. -/
def send (w : World Hash) (t : Tx) : World Hash :=
  match t.entry with
  | .newAgent agentDomain agentAddress =>
    match w.newAgent keccak256 t.sender agentDomain agentAddress with
    | .ok (w', _) => w'
    | .error _ => w
  | .updateAgent agentId newDomain newAddress =>
    match w.updateAgent keccak256 t.sender agentId newDomain newAddress with
    | .ok (w', _) => w'
    | .error _ => w

end World

/-- **The contract**, for anyone to call. -/
def identityRegistry : System (World Hash) Tx where
  init := .initial Hash
  step w t := some (w.send keccak256 t)

/-! ### `identity-register` -/

/-- What the command prints, but for the transaction. -/
structure Registration where
  agentId : ℕ
  agentAddress : Address
  created : Bool
  deriving DecidableEq

/-- The command: `seen` is the state in which it asks for the id, `w` the one its transaction finds,
and `wait` what happens until it asks for the new id. -/
def identityRegister (seen w : World Hash) (wait : World Hash → World Hash) (operator : Address)
    (domain : Domain) : Except Revert (World Hash × Registration) :=
  let existing := seen.agentIdOf operator
  if 0 < existing then
    match w.updateAgent keccak256 operator existing domain operator with
    | .error e => .error e
    | .ok (w', _) => .ok (w', ⟨existing, operator, false⟩)
  else
    match w.newAgent keccak256 operator domain operator with
    | .error e => .error e
    | .ok (w', _) => .ok (wait w', ⟨(wait w').agentIdOf operator, operator, true⟩)

end Functions

/-! ### What a transaction writes -/

section Writes

variable [DecidableEq Hash] {keccak256} {w w' : World Hash} {t : Tx}

/-- One write of a transaction, with what has been checked by then. -/
inductive Write (keccak256 : Domain → Hash) (t : Tx) : World Hash → World Hash → Prop
  | register {w : World Hash} {d : Domain} (hentry : t.entry = .newAgent d t.sender)
      (hd : d ≠ []) (hdomain : w.idByDomainHash (keccak256 d) = 0)
      (haddress : w.idByAddress t.sender = 0) :
      Write keccak256 t w (w.register keccak256 t.sender d t.sender)
  | setDomain {w : World Hash} {id : ℕ} {d : Domain} {y : Address}
      (hentry : t.entry = .updateAgent id d y) (hid : (w.agents id).agentId ≠ 0)
      (howner : (w.agents id).agentAddress = t.sender) (hd : d ≠ [])
      (hdomain : w.idByDomainHash (keccak256 d) = 0) :
      Write keccak256 t w (w.setDomain keccak256 id d)
  | setAddress {w : World Hash} {id : ℕ} {d : Domain} {y : Address}
      (hentry : t.entry = .updateAgent id d y) (hid : (w.agents id).agentId ≠ 0)
      (howner : (w.agents id).agentAddress = t.sender) (hy : y ≠ 0) (hne : y ≠ t.sender)
      (haddress : w.idByAddress y = 0) :
      Write keccak256 t w (w.setAddress t.sender id y)
  | emitUpdated {w : World Hash} {id : ℕ} : Write keccak256 t w (w.emitUpdated id)

theorem newAgent_ok {sender a : Address} {d : Domain} {n : ℕ}
    (h : w.newAgent keccak256 sender d a = .ok (w', n)) :
    a = sender ∧ d ≠ [] ∧ w.idByDomainHash (keccak256 d) = 0 ∧ w.idByAddress a = 0 ∧
      n = w.nextAgentId ∧ w' = w.register keccak256 sender d a := by
  simp only [World.newAgent] at h
  split_ifs at h with h1 h2 h3 h4 h5
  cases h
  exact ⟨not_not.1 h1, fun hd => h2 (by rw [hd]; rfl), not_not.1 h3, not_not.1 h4, rfl, rfl⟩

theorem updateDomain_ok {id : ℕ} {d : Domain}
    (h : w.updateDomain keccak256 id d = .ok w') :
    w' = w ∨ w.idByDomainHash (keccak256 d) = 0 ∧ w' = w.setDomain keccak256 id d := by
  simp only [World.updateDomain] at h
  split_ifs at h with h1 h2 <;> cases h
  · exact Or.inr ⟨not_not.1 h2, rfl⟩
  · exact Or.inl rfl

omit [DecidableEq Hash] in
theorem updateAddress_ok {sender y : Address} {id : ℕ}
    (h : w.updateAddress sender id y = .ok w') :
    y = (w.agents id).agentAddress ∧ w' = w ∨
      y ≠ (w.agents id).agentAddress ∧ w.idByAddress y = 0 ∧ w' = w.setAddress sender id y := by
  simp only [World.updateAddress] at h
  split_ifs at h with h1 h2 <;> cases h
  · exact Or.inr ⟨h1, not_not.1 h2, rfl⟩
  · exact Or.inl ⟨not_not.1 h1, rfl⟩

theorem updateAgent_ok {sender y : Address} {id : ℕ} {d : Domain} {b : Bool}
    (h : w.updateAgent keccak256 sender id d y = .ok (w', b)) :
    (w.agents id).agentId ≠ 0 ∧ (w.agents id).agentAddress = sender ∧ d ≠ [] ∧ y ≠ 0 ∧
      ∃ w₁ w₂, w.updateDomain keccak256 id d = .ok w₁ ∧ w₁.updateAddress sender id y = .ok w₂ ∧
        w' = w₂.emitUpdated id := by
  simp only [World.updateAgent] at h
  split_ifs at h with h1 h2 h3 h4
  split at h
  · cases h
  · rename_i w₁ hw₁
    split at h
    · cases h
    · rename_i w₂ hw₂
      cases h
      exact ⟨h1, not_not.1 h2, fun hd => h3 (by rw [hd]; rfl), h4, w₁, w₂, hw₁, hw₂, rfl⟩

/-- The record of an agent that changes its domain. -/
@[simp] theorem setDomain_agents_self (w : World Hash) (id : ℕ) (d : Domain) :
    (w.setDomain keccak256 id d).agents id = { w.agents id with agentDomain := d } :=
  Function.update_self ..

/-- A transaction is a sequence of writes. -/
theorem send_writes (w : World Hash) (t : Tx) :
    Relation.ReflTransGen (Write keccak256 t) w (w.send keccak256 t) := by
  unfold World.send
  split
  · rename_i d a hentry
    split
    · rename_i w' n h
      obtain ⟨rfl, hd, hdomain, haddress, -, rfl⟩ := newAgent_ok h
      exact .single (.register hentry hd hdomain haddress)
    · exact .refl
  · rename_i id d y hentry
    split
    · rename_i w' b h
      obtain ⟨hid, howner, hd, hy, w₁, w₂, h₁, h₂, rfl⟩ := updateAgent_ok h
      have hw₁ : Relation.ReflTransGen (Write keccak256 t) w w₁ ∧ (w₁.agents id).agentId ≠ 0 ∧
          (w₁.agents id).agentAddress = t.sender := by
        rcases updateDomain_ok h₁ with rfl | ⟨hdomain, rfl⟩
        · exact ⟨.refl, hid, howner⟩
        · exact ⟨.single (.setDomain hentry hid howner hd hdomain), by simpa using hid,
            by simpa using howner⟩
      obtain ⟨hw₁, hid₁, howner₁⟩ := hw₁
      rcases updateAddress_ok h₂ with ⟨-, rfl⟩ | ⟨hne, haddress, rfl⟩
      · exact hw₁.tail .emitUpdated
      · exact (hw₁.tail (.setAddress hentry hid₁ howner₁ hy (howner₁ ▸ hne) haddress)).tail
          .emitUpdated
    · exact .refl

/-- What every write keeps, a transaction keeps. -/
theorem send_invariant {P : World Hash → Prop}
    (hwrite : ∀ u v, Write keccak256 t u v → P u → P v) (h : P w) : P (w.send keccak256 t) := by
  have hw : Relation.ReflTransGen (Write keccak256 t) w (w.send keccak256 t) := send_writes w t
  generalize w.send keccak256 t = w' at hw
  induction hw with
  | refl => exact h
  | tail _ huv ih => exact hwrite _ _ huv ih

end Writes

/-! ### The indexes -/

/-- The key of each agent that has a record. -/
def World.keys {κ : Type} (w : World Hash) (f : AgentInfo → κ) (id : ℕ) : Option κ :=
  if (w.agents id).agentId = 0 then none else some (f (w.agents id))

/-- The records, their ids and the indexes. -/
structure World.Good (w : World Hash) : Prop where
  next : 1 ≤ w.nextAgentId
  ids : ∀ id, (w.agents id).agentId = if 1 ≤ id ∧ id < w.nextAgentId then id else 0
  named : ∀ id, (w.agents id).agentId ≠ 0 →
    (w.agents id).agentDomain ≠ [] ∧ (w.agents id).agentAddress ≠ 0
  domains : Indexes (w.keys fun a => keccak256 a.agentDomain) w.idByDomainHash
  addresses : Indexes (w.keys AgentInfo.agentAddress) w.idByAddress

section Good

variable {keccak256} {w w' : World Hash} {t : Tx} {id : ℕ}

theorem keys_of_ne {κ : Type} {f : AgentInfo → κ} (h : (w.agents id).agentId ≠ 0) :
    w.keys f id = some (f (w.agents id)) := if_neg h

theorem keys_eq_some {κ : Type} {f : AgentInfo → κ} {k : κ} :
    w.keys f id = some k ↔ (w.agents id).agentId ≠ 0 ∧ f (w.agents id) = k := by
  unfold World.keys
  split_ifs with h <;> simp [h]

/-- The keys, when one record is written. -/
theorem keys_update {κ : Type} {f : AgentInfo → κ} {a : AgentInfo} (ha : a.agentId ≠ 0)
    (h : w'.agents = Function.update w.agents id a) :
    w'.keys f = Function.update (w.keys f) id (some (f a)) := by
  funext j
  unfold World.keys
  rw [h]
  by_cases hj : j = id
  · rw [hj, Function.update_self, Function.update_self, if_neg ha]
  · rw [Function.update_of_ne hj, Function.update_of_ne hj]

/-- The keys are as before, if the record that is written has its old one. -/
theorem keys_update_self {κ : Type} {f : AgentInfo → κ} {a : AgentInfo}
    (hid : (w.agents id).agentId ≠ 0) (ha : a.agentId ≠ 0) (hf : f a = f (w.agents id))
    (h : w'.agents = Function.update w.agents id a) : w'.keys f = w.keys f := by
  rw [keys_update ha h, hf, ← keys_of_ne hid, Function.update_eq_self]

theorem initial_good : (World.initial Hash).Good keccak256 where
  next := le_rfl
  ids id := by
    rw [if_neg (by simp only [World.initial]; omega)]
    rfl
  named id h := absurd rfl h
  domains := Indexes.empty
  addresses := Indexes.empty

namespace World.Good

theorem registered_iff (h : w.Good keccak256) :
    (w.agents id).agentId ≠ 0 ↔ 1 ≤ id ∧ id < w.nextAgentId := by
  rw [h.ids]
  split_ifs with hid
  · exact ⟨fun _ => hid, fun _ => by omega⟩
  · exact ⟨fun h0 => absurd rfl h0, fun h => absurd h hid⟩

theorem agentId_eq (h : w.Good keccak256) (hid : (w.agents id).agentId ≠ 0) :
    (w.agents id).agentId = id := by
  rw [h.ids, if_pos (h.registered_iff.1 hid)]

theorem next_free (h : w.Good keccak256) : (w.agents w.nextAgentId).agentId = 0 := by
  rw [h.ids, if_neg (by omega)]

/-- One record is written under its own id. -/
theorem ids_update (h : w.Good keccak256) {a : AgentInfo}
    (ha : a.agentId = (w.agents id).agentId) (j : ℕ) :
    (Function.update w.agents id a j).agentId =
      if 1 ≤ j ∧ j < w.nextAgentId then j else 0 := by
  rw [← h.ids j]
  by_cases hj : j = id
  · rw [hj, Function.update_self, ha]
  · rw [Function.update_of_ne hj]

section Writes

variable [DecidableEq Hash]

theorem register (h : w.Good keccak256) {x : Address} {d : Domain} (hx : x ≠ 0) (hd : d ≠ [])
    (hdomain : w.idByDomainHash (keccak256 d) = 0) (haddress : w.idByAddress x = 0) :
    (w.register keccak256 x d x).Good keccak256 := by
  have hnext : w.nextAgentId ≠ 0 := Nat.one_le_iff_ne_zero.1 h.next
  have hnone : ∀ {κ : Type} (f : AgentInfo → κ), w.keys f w.nextAgentId = none := fun f =>
    if_pos h.next_free
  refine ⟨?_, fun id => ?_, fun id hid => ?_, ?_, ?_⟩
  · simp [World.register]
  · show (Function.update w.agents w.nextAgentId _ id).agentId =
      if 1 ≤ id ∧ id < w.nextAgentId + 1 then id else 0
    by_cases hid : id = w.nextAgentId
    · rw [hid, Function.update_self, if_pos ⟨h.next, by omega⟩]
    · rw [Function.update_of_ne hid, h.ids]
      split_ifs <;> omega
  · simp only [World.register] at hid ⊢
    by_cases hj : id = w.nextAgentId
    · rw [hj, Function.update_self]
      exact ⟨hd, hx⟩
    · rw [Function.update_of_ne hj] at hid ⊢
      exact h.named id hid
  · rw [keys_update hnext rfl]
    exact h.domains.insert hnext (hnone _) hdomain
  · rw [keys_update hnext rfl]
    exact h.addresses.insert hnext (hnone _) haddress

theorem setDomain (h : w.Good keccak256) {d : Domain} (hid : (w.agents id).agentId ≠ 0)
    (hd : d ≠ []) (hdomain : w.idByDomainHash (keccak256 d) = 0) :
    (w.setDomain keccak256 id d).Good keccak256 := by
  have hset : (w.setDomain keccak256 id d).agents =
      Function.update w.agents id { w.agents id with agentDomain := d } := rfl
  refine ⟨h.next, h.ids_update rfl, fun j hj => ?_, ?_, ?_⟩
  · simp only [World.setDomain] at hj ⊢
    by_cases hji : j = id
    · rw [hji, Function.update_self]
      exact ⟨hd, (h.named id hid).2⟩
    · rw [Function.update_of_ne hji] at hj ⊢
      exact h.named j hj
  · rw [keys_update (by exact hid) hset]
    exact h.domains.move (keys_of_ne hid) hdomain
  · rw [keys_update_self hid (by exact hid) (by rfl) hset]
    exact h.addresses

omit [DecidableEq Hash] in
theorem setAddress (h : w.Good keccak256) {x y : Address} (hid : (w.agents id).agentId ≠ 0)
    (hy : y ≠ 0) (haddress : w.idByAddress y = 0) : (w.setAddress x id y).Good keccak256 := by
  have hset : (w.setAddress x id y).agents =
      Function.update w.agents id { w.agents id with agentAddress := y } := rfl
  refine ⟨h.next, h.ids_update rfl, fun j hj => ?_, ?_, ?_⟩
  · simp only [World.setAddress] at hj ⊢
    by_cases hji : j = id
    · rw [hji, Function.update_self]
      exact ⟨(h.named id hid).1, hy⟩
    · rw [Function.update_of_ne hji] at hj ⊢
      exact h.named j hj
  · rw [keys_update_self hid (by exact hid) (by rfl) hset]
    exact h.domains
  · rw [keys_update (by exact hid) hset]
    exact h.addresses.move (keys_of_ne hid) haddress

/-- **A write keeps the indexes.** -/
theorem write (h : w.Good keccak256) (hw : Write keccak256 t w w') : w'.Good keccak256 := by
  cases hw with
  | register _ hd hdomain haddress => exact h.register t.sender_ne hd hdomain haddress
  | setDomain _ hid _ hd hdomain => exact h.setDomain hid hd hdomain
  | setAddress _ hid _ hy _ haddress => exact h.setAddress hid hy haddress
  | emitUpdated => exact ⟨h.next, h.ids, h.named, h.domains, h.addresses⟩

end Writes

end World.Good

variable [DecidableEq Hash]

/-- What every write of the transactions `D` keeps, a run of them keeps. -/
theorem run_invariant {P : World Hash → Prop} {D : Tx → Prop} (hg : w.Good keccak256) (h0 : P w)
    (hwrite : ∀ t u v, D t → Write keccak256 t u v → u.Good keccak256 → P u → P v)
    (h : (identityRegistry keccak256).Run (fun _ t => D t) w w') : w'.Good keccak256 ∧ P w' := by
  refine h.invariant (I := fun w => w.Good keccak256 ∧ P w) ⟨hg, h0⟩ fun u t v hu ht hv => ?_
  cases hv
  exact send_invariant (P := fun w => w.Good keccak256 ∧ P w)
    (fun u v huv hu => ⟨hu.1.write huv, hwrite t u v ht huv hu.1 hu.2⟩) hu

/-- What holds of the deployed contract and is kept by every write holds in every state reached. -/
theorem reach_invariant {P : World Hash → Prop} (h0 : P (.initial Hash))
    (hwrite : ∀ t u v, Write keccak256 t u v → u.Good keccak256 → P u → P v)
    (h : (identityRegistry keccak256).Reachable w) : w.Good keccak256 ∧ P w :=
  run_invariant (D := fun _ => True) initial_good h0 (fun t u v _ => hwrite t u v) h

theorem reach_good (h : (identityRegistry keccak256).Reachable w) : w.Good keccak256 :=
  (reach_invariant (P := fun _ => True) trivial (fun _ _ _ _ _ _ => trivial) h).1

end Good

end IdentityRegistry
end Mach402
