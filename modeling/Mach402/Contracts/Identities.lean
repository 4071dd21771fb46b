import Mach402.Contracts.IdentityRegistry
import Mathlib.Data.List.Range

/-!
# Identities

What the runs of the identity registry guarantee.

* `lookups_agree`: the records and the two indexes describe one set of agents;
* `untouched_by_others`: nobody changes an identity but its holder, and no id is used twice;
* `Custody`, `bound_by_holder`: an address has an id because it has created it, or because the
  holder has moved it there; `newAgent` alone asks for the address's own signature.
-/

namespace Mach402
namespace IdentityRegistry

variable {Hash : Type} [DecidableEq Hash] {keccak256 : Domain → Hash} {w w' : World Hash}
  {id : ℕ} {x : Address}

/-! ### The lookups -/

/-- The records and the indexes agree, and so do the functions that read them. -/
structure World.Agrees (keccak256 : Domain → Hash) (w : World Hash) : Prop where
  registered : ∀ id, (w.agents id).agentId ≠ 0 ↔ 1 ≤ id ∧ id < w.nextAgentId
  agentId : ∀ id, (w.agents id).agentId ≠ 0 → (w.agents id).agentId = id
  named : ∀ id, (w.agents id).agentId ≠ 0 →
    (w.agents id).agentDomain ≠ [] ∧ (w.agents id).agentAddress ≠ 0
  byDomain : ∀ id, (w.agents id).agentId ≠ 0 →
    w.idByDomainHash (keccak256 (w.agents id).agentDomain) = id
  byDomain_zero : ∀ d, (∀ id, (w.agents id).agentId ≠ 0 → (w.agents id).agentDomain ≠ d) →
    w.idByDomainHash (keccak256 d) = 0
  byHash_zero : ∀ hash, (∀ id, (w.agents id).agentId ≠ 0 →
    keccak256 (w.agents id).agentDomain ≠ hash) → w.idByDomainHash hash = 0
  byAddress : ∀ id, (w.agents id).agentId ≠ 0 → w.idByAddress (w.agents id).agentAddress = id
  byAddress_zero : ∀ x, (∀ id, (w.agents id).agentId ≠ 0 → (w.agents id).agentAddress ≠ x) →
    w.idByAddress x = 0
  getAgent : ∀ id a, w.getAgent id = .ok a ↔ (1 ≤ id ∧ id < w.nextAgentId) ∧ a = w.agents id
  resolveByDomain : ∀ d a, w.resolveByDomain keccak256 d = .ok a ↔
    w.getAgent a.agentId = .ok a ∧ a.agentDomain = d
  resolveByAddress : ∀ x a, w.resolveByAddress x = .ok a ↔
    w.getAgent a.agentId = .ok a ∧ a.agentAddress = x
  domain_unshared : ∀ id id', (w.agents id).agentId ≠ 0 → (w.agents id').agentId ≠ 0 →
    (w.agents id).agentDomain = (w.agents id').agentDomain → id = id'
  address_unshared : ∀ id id', (w.agents id).agentId ≠ 0 → (w.agents id').agentId ≠ 0 →
    (w.agents id).agentAddress = (w.agents id').agentAddress → id = id'

omit [DecidableEq Hash] in
theorem getAgent_ok_iff {a : AgentInfo} :
    w.getAgent id = .ok a ↔ (w.agents id).agentId ≠ 0 ∧ a = w.agents id := by
  by_cases h : (w.agents id).agentId = 0
  · simp [World.getAgent, h]
  · simp [World.getAgent, h, eq_comm]

omit [DecidableEq Hash] in
/-- A lookup through an index finds the record that has the key. -/
theorem resolve_ok_iff {κ : Type} {f : AgentInfo → κ} {index : κ → ℕ} {k : κ} {a : AgentInfo}
    (hg : w.Good keccak256) (hi : Indexes (w.keys f) index) :
    ((if index k = 0 then .error .noSuchAgent else .ok (w.agents (index k)) :
      Except Revert AgentInfo) = .ok a) ↔ w.getAgent a.agentId = .ok a ∧ f a = k := by
  rw [getAgent_ok_iff]
  constructor
  · intro h
    split_ifs at h with hk
    cases h
    obtain ⟨hid, hf⟩ := keys_eq_some.1 (hi.keyed k hk)
    rw [hg.agentId_eq hid]
    exact ⟨⟨hid, rfl⟩, hf⟩
  · rintro ⟨⟨hid, ha⟩, hf⟩
    have hindex : index k = a.agentId := hi.record k _ (keys_eq_some.2 ⟨hid, ha ▸ hf⟩)
    have hne : a.agentId ≠ 0 := by
      rwa [← ha] at hid
    rw [hindex, if_neg hne, ← ha]

/-- **The lookups agree** in every state reached. -/
theorem lookups_agree (hk : Function.Injective keccak256)
    (h : (identityRegistry keccak256).Reachable w) : w.Agrees keccak256 := by
  have hg := reach_good h
  have hhash : ∀ hash, (∀ id, (w.agents id).agentId ≠ 0 →
      keccak256 (w.agents id).agentDomain ≠ hash) → w.idByDomainHash hash = 0 := fun hash hno =>
    hg.domains.eq_zero_iff.2 fun id hid => hno id (keys_eq_some.1 hid).1 (keys_eq_some.1 hid).2
  exact {
    registered := fun _ => hg.registered_iff
    agentId := fun _ => hg.agentId_eq
    named := hg.named
    byDomain := fun id hid => hg.domains.record _ id (keys_of_ne hid)
    byDomain_zero := fun d hno => hhash _ fun id hid he => hno id hid (hk he)
    byHash_zero := hhash
    byAddress := fun id hid => hg.addresses.record _ id (keys_of_ne hid)
    byAddress_zero := fun x hno => hg.addresses.eq_zero_iff.2 fun id hid =>
      hno id (keys_eq_some.1 hid).1 (keys_eq_some.1 hid).2
    getAgent := fun id a => by rw [getAgent_ok_iff, hg.registered_iff]
    resolveByDomain := fun d a => by
      rw [← hk.eq_iff]
      exact resolve_ok_iff hg hg.domains
    resolveByAddress := fun x a => resolve_ok_iff hg hg.addresses
    domain_unshared := fun id id' hid hid' he =>
      hg.domains.injective (keys_of_ne hid) (he ▸ keys_of_ne hid')
    address_unshared := fun id id' hid hid' he =>
      hg.addresses.injective (keys_of_ne hid) (he ▸ keys_of_ne hid') }

/-- Two providers register.  The first moves to another domain, and the second takes over the
domain that it leaves, with another address. -/
def rehomed : List Tx :=
  [⟨5, by decide, .newAgent [1] 5⟩, ⟨6, by decide, .newAgent [2] 6⟩,
    ⟨5, by decide, .updateAgent 1 [3] 5⟩, ⟨6, by decide, .updateAgent 2 [1] 7⟩]

theorem lookups_agree_rehomed :
    ∃ w, (identityRegistry fun d : Domain => d).Reachable w ∧
      ((w.agentCount = 2 ∧ w.idByDomainHash [1] = 2 ∧ w.idByDomainHash [2] = 0) ∧
        w.idByDomainHash [3] = 1 ∧ w.agentIdOf 7 = 2 ∧ w.agentIdOf 6 = 0) ∧
      w.Agrees fun d => d := by
  obtain ⟨w, hw, hp⟩ := System.exists_reach (S := identityRegistry fun d : Domain => d)
    (C := System.Any) (p := fun w => decide ((w.agentCount = 2 ∧ w.idByDomainHash [1] = 2 ∧
      w.idByDomainHash [2] = 0) ∧ w.idByDomainHash [3] = 1 ∧ w.agentIdOf 7 = 2 ∧
      w.agentIdOf 6 = 0)) rehomed (by decide)
  exact ⟨w, hw, of_decide_eq_true hp, lookups_agree (fun _ _ h => h) hw⟩

/-! ### Third parties -/

/-- A write of a transaction that the holder has not sent leaves the record alone. -/
theorem write_frame {t : Tx} {u v : World Hash} (hw : Write keccak256 t u v)
    (hg : u.Good keccak256) (hid : (u.agents id).agentId ≠ 0)
    (hx : (u.agents id).agentAddress ≠ t.sender) : v.agents id = u.agents id := by
  cases hw with
  | register =>
    have hne : id ≠ u.nextAgentId := by
      rintro rfl
      exact hid hg.next_free
    exact Function.update_of_ne hne ..
  | setDomain _ _ howner =>
    refine Function.update_of_ne ?_ ..
    rintro rfl
    exact hx howner
  | setAddress _ _ howner =>
    refine Function.update_of_ne ?_ ..
    rintro rfl
    exact hx howner
  | emitUpdated => rfl

/-- So do the transactions of others. -/
theorem run_frame (hg : w.Good keccak256) (hid : (w.agents id).agentId ≠ 0)
    (hrun : (identityRegistry keccak256).Run
      (fun _ t => t.sender ≠ (w.agents id).agentAddress) w w') :
    w'.Good keccak256 ∧ w'.agents id = w.agents id :=
  run_invariant (P := fun u => u.agents id = w.agents id) hg rfl
    (fun t u v ht huv hgu hu => by
      rw [write_frame huv hgu (hu ▸ hid) (hu ▸ ht.symm), hu]) hrun

/-- What every write adds to the log. -/
theorem write_log {t : Tx} {u v : World Hash} (hw : Write keccak256 t u v) :
    ∃ e, v.log = u.log ++ e ∧ (v.nextAgentId = u.nextAgentId ∧ e.filterMap Event.registers = [] ∨
      v.nextAgentId = u.nextAgentId + 1 ∧ e.filterMap Event.registers = [u.nextAgentId]) := by
  cases hw with
  | @register d => exact ⟨[.agentRegistered u.nextAgentId d t.sender], rfl, Or.inr ⟨rfl, rfl⟩⟩
  | setDomain | setAddress => exact ⟨[], (List.append_nil _).symm, Or.inl ⟨rfl, rfl⟩⟩
  | @emitUpdated id =>
    exact ⟨[.agentUpdated id (u.agents id).agentDomain (u.agents id).agentAddress], rfl,
      Or.inl ⟨rfl, rfl⟩⟩

/-- The ids are given out in order. -/
theorem registers_eq (h : (identityRegistry keccak256).Reachable w) :
    w.log.filterMap Event.registers = List.range' 1 w.agentCount := by
  refine (reach_invariant (P := fun w => w.log.filterMap Event.registers =
    List.range' 1 w.agentCount) rfl (fun t u v huv hg hu => ?_) h).2
  obtain ⟨e, hlog, ⟨hnext, he⟩ | ⟨hnext, he⟩⟩ := write_log huv
  · rw [hlog, List.filterMap_append, he, hu, List.append_nil, World.agentCount, World.agentCount,
      hnext]
  · have hcount : v.agentCount = u.agentCount + 1 := by
      have := hg.next
      simp only [World.agentCount]
      omega
    have hlast : 1 + u.agentCount = u.nextAgentId := by
      have := hg.next
      simp only [World.agentCount]
      omega
    rw [hlog, List.filterMap_append, he, hu, hcount, List.range'_1_concat, hlast]

theorem run_grows (hg : w.Good keccak256)
    (hrun : (identityRegistry keccak256).Run System.Any w w') :
    w'.Good keccak256 ∧ w.nextAgentId ≤ w'.nextAgentId ∧ w.log <+: w'.log :=
  run_invariant (D := fun _ => True)
    (P := fun u => w.nextAgentId ≤ u.nextAgentId ∧ w.log <+: u.log) hg
    ⟨le_rfl, List.prefix_rfl⟩
    (fun t u v _ huv _ hu => by
      obtain ⟨e, hlog, hnext⟩ := write_log huv
      refine ⟨?_, hlog ▸ hu.2.trans (List.prefix_append _ _)⟩
      rcases hnext with ⟨hnext, -⟩ | ⟨hnext, -⟩ <;> have := hu.1 <;> omega) hrun

/-- **Third parties.**  What others send leaves an agent's record and the lookups of its domain and
address as they are; no id is registered twice or lost, and the count never falls. -/
theorem untouched_by_others (h : (identityRegistry keccak256).Reachable w) :
    (∀ id x w', (w.agents id).agentId ≠ 0 → (w.agents id).agentAddress = x →
      (identityRegistry keccak256).Run (fun _ t => t.sender ≠ x) w w' →
      w'.agents id = w.agents id ∧ w'.getAgent id = w.getAgent id ∧
      w'.idByDomainHash (keccak256 (w.agents id).agentDomain) = id ∧
      w.idByDomainHash (keccak256 (w.agents id).agentDomain) = id ∧
      w'.resolveByDomain keccak256 (w.agents id).agentDomain =
        w.resolveByDomain keccak256 (w.agents id).agentDomain ∧
      w'.agentIdOf x = id ∧ w.agentIdOf x = id ∧
      w'.resolveByAddress x = w.resolveByAddress x) ∧
    (∀ w', (identityRegistry keccak256).Run System.Any w w' →
      w.agentCount ≤ w'.agentCount ∧ w.log <+: w'.log ∧
      w'.log.filterMap Event.registers = List.range' 1 w'.agentCount ∧
      ∀ id, (w.agents id).agentId ≠ 0 → (w'.agents id).agentId = (w.agents id).agentId) := by
  have hg := reach_good h
  refine ⟨fun id x w' hid hx hrun => ?_, fun w' hrun => ?_⟩
  · subst hx
    obtain ⟨hg', hagents⟩ := run_frame hg hid hrun
    have hdomain := hg.domains.record _ id (keys_of_ne hid)
    have haddress := hg.addresses.record _ id (keys_of_ne hid)
    have hdomain' := hg'.domains.record _ id (keys_of_ne (hagents ▸ hid))
    have haddress' := hg'.addresses.record _ id (keys_of_ne (hagents ▸ hid))
    rw [hagents] at hdomain' haddress'
    refine ⟨hagents, ?_, hdomain', hdomain, ?_, haddress', haddress, ?_⟩
    · simp only [World.getAgent, hagents]
    · simp only [World.resolveByDomain, hdomain, hdomain', hagents]
    · simp only [World.resolveByAddress, haddress, haddress', hagents]
  · obtain ⟨hg', hnext, hlog⟩ := run_grows hg hrun
    refine ⟨Nat.sub_le_sub_right hnext 1, hlog, registers_eq (h.trans hrun), fun id hid => ?_⟩
    have hlt := hg.registered_iff.1 hid
    rw [hg.agentId_eq hid, hg'.agentId_eq (hg'.registered_iff.2 ⟨hlt.1, by omega⟩)]

/-- One registers, then another registers and moves twice. -/
theorem untouched_by_others_rehomed :
    ∃ w w', (identityRegistry fun d : Domain => d).Reachable w ∧
      (identityRegistry fun d : Domain => d).Run (fun _ t => t.sender ≠ 5) w w' ∧
      ((w'.agents 2).agentAddress = 7 ∧ (w'.agents 1).agentAddress = 5) ∧
      w'.agents 1 = w.agents 1 ∧ w.agentCount ≤ w'.agentCount := by
  let w := (identityRegistry fun d : Domain => d).init.send (fun d => d)
    ⟨5, by decide, .newAgent [1] 5⟩
  have hw : (identityRegistry fun d : Domain => d).Reachable w := System.Reach.init.step trivial rfl
  let w' := ((w.send (fun d => d) ⟨6, by decide, .newAgent [2] 6⟩).send (fun d => d)
    ⟨6, by decide, .updateAgent 2 [3] 7⟩).send (fun d => d) ⟨7, by decide, .updateAgent 2 [4] 7⟩
  let ls : List Tx := [⟨6, by decide, .newAgent [2] 6⟩, ⟨6, by decide, .updateAgent 2 [3] 7⟩,
    ⟨7, by decide, .updateAgent 2 [4] 7⟩]
  have hexec : (identityRegistry fun d : Domain => d).exec (fun _ t => t.sender ≠ 5) w ls =
      some w' := rfl
  have hrun := System.run_of_exec hexec
  have h := untouched_by_others hw
  exact ⟨w, w', hw, hrun, by decide, (h.1 1 5 w' (by decide) (by decide) hrun).1,
    (h.2 w' (System.Run.mono (fun _ _ _ => trivial) hrun)).1⟩

/-! ### Custody -/

/-- A chain of custody of an id: its first holder has bound themselves to it, and everyone after
them has been bound to it by the holder before. -/
inductive Custody (id : ℕ) : List Binding → Address → Prop
  | created (x : Address) : Custody id [⟨x, x, id⟩] x
  | moved {bs : List Binding} {x y : Address} (h : Custody id bs x) (hyx : y ≠ x) :
    Custody id (bs ++ [⟨x, y, id⟩]) y

/-- Who holds the id has been bound to it. -/
theorem Custody.bound {bs : List Binding} (h : Custody id bs x) :
    ∃ sender, (⟨sender, x, id⟩ : Binding) ∈ bs ∧ (sender = x → bs = [⟨x, x, id⟩]) := by
  cases h with
  | created => exact ⟨x, List.mem_singleton.2 rfl, fun _ => rfl⟩
  | @moved bs y _ h hyx =>
    exact ⟨y, List.mem_append_right _ (List.mem_singleton.2 rfl), fun he => absurd he.symm hyx⟩

/-- The bindings of an id. -/
def World.bindingsOf (w : World Hash) (id : ℕ) : List Binding :=
  w.bindings.filter fun b => b.agentId = id

/-- Every id that is in use is held by a chain of custody, and no other has been bound. -/
structure World.Held (w : World Hash) : Prop where
  custody : ∀ id, (w.agents id).agentId ≠ 0 →
    Custody id (w.bindingsOf id) (w.agents id).agentAddress
  unbound : ∀ b ∈ w.bindings, b.agentId < w.nextAgentId

omit [DecidableEq Hash] in
theorem bindingsOf_append {b : Binding} (h : w'.bindings = w.bindings ++ [b]) :
    w'.bindingsOf id = w.bindingsOf id ++ if b.agentId = id then [b] else [] := by
  rw [World.bindingsOf, h, List.filter_append]
  by_cases hb : b.agentId = id <;> simp [hb, World.bindingsOf]

omit [DecidableEq Hash] in
theorem bindingsOf_of_lt (hu : ∀ b ∈ w.bindings, b.agentId < id) : w.bindingsOf id = [] :=
  List.filter_eq_nil_iff.2 fun b hb he => by
    have := hu b hb
    rw [decide_eq_true_eq] at he
    omega

omit [DecidableEq Hash] in
/-- An id is bound to an address. -/
theorem World.Held.bind (h : w.Held) {a : AgentInfo} (sender : Address)
    (hagents : w'.agents = Function.update w.agents id a)
    (hbind : w'.bindings = w.bindings ++ [⟨sender, a.agentAddress, id⟩])
    (hnext : w.nextAgentId ≤ w'.nextAgentId) (hid : id < w'.nextAgentId)
    (hc : Custody id (w.bindingsOf id ++ [⟨sender, a.agentAddress, id⟩]) a.agentAddress) :
    w'.Held := by
  refine ⟨fun j hj => ?_, fun b hb => ?_⟩
  · rw [bindingsOf_append hbind]
    rw [hagents] at hj ⊢
    by_cases hji : j = id
    · subst hji
      rw [if_pos rfl, Function.update_self]
      exact hc
    · rw [Function.update_of_ne hji] at hj ⊢
      rw [if_neg (Ne.symm hji), List.append_nil]
      exact h.custody j hj
  · rw [hbind, List.mem_append, List.mem_singleton] at hb
    rcases hb with hb | rfl
    · exact (h.unbound b hb).trans_le hnext
    · exact hid

/-- A write keeps the custody of every id. -/
theorem World.Held.write {t : Tx} (h : w.Held) (hg : w.Good keccak256)
    (hw : Write keccak256 t w w') : w'.Held := by
  cases hw with
  | @register d =>
    refine h.bind t.sender rfl rfl (Nat.le_succ _) (Nat.lt_succ_self _) ?_
    rw [bindingsOf_of_lt h.unbound]
    exact .created t.sender
  | @setDomain n d y _ hn =>
    refine ⟨fun id hid => ?_, h.unbound⟩
    by_cases hne : id = n
    · subst hne
      rw [setDomain_agents_self]
      exact h.custody id hn
    · simp only [World.setDomain, Function.update_of_ne hne] at hid ⊢
      exact h.custody id hid
  | @setAddress n d y _ hn howner hy hne =>
    refine h.bind t.sender rfl rfl le_rfl (hg.registered_iff.1 hn).2 ?_
    exact .moved (howner ▸ h.custody n hn) hne
  | emitUpdated => exact ⟨h.custody, h.unbound⟩

theorem reach_held (h : (identityRegistry keccak256).Reachable w) : w.Held :=
  (reach_invariant (P := World.Held) ⟨fun _ hid => absurd rfl hid, fun _ hb => by cases hb⟩
    (fun _ _ _ huv hg hu => hu.write hg huv) h).2

/-- Who has an id holds it by a chain of custody. -/
theorem custody_of_agentIdOf (h : (identityRegistry keccak256).Reachable w)
    (hx : w.agentIdOf x ≠ 0) : Custody (w.agentIdOf x) (w.bindingsOf (w.agentIdOf x)) x := by
  obtain ⟨hid, haddress⟩ := keys_eq_some.1 ((reach_good h).addresses.keyed x hx)
  have hc := (reach_held h).custody _ hid
  rwa [haddress] at hc

/-- An update that names `x` goes through. -/
def Names (keccak256 : Domain → Hash) (w : World Hash) (t : Tx) (x : Address) : Prop :=
  ∃ id d r, t.entry = .updateAgent id d x ∧ w.updateAgent keccak256 t.sender id d x = .ok r

/-- An update that does not go through changes nothing. -/
theorem send_of_not_names {t : Tx} {d : Domain} (hentry : t.entry = .updateAgent id d x)
    (h : ¬ Names keccak256 w t x) : w.send keccak256 t = w := by
  simp only [World.send, hentry]
  split
  · rename_i w' b hok
    exact absurd ⟨id, d, _, hentry, hok⟩ h
  · rfl

/-- An address that has no id keeps having none, if neither it nor an update to it is sent. -/
theorem send_unregistered {t : Tx} (h0 : w.idByAddress x = 0) (hx : t.sender ≠ x)
    (hn : ¬ Names keccak256 w t x) : (w.send keccak256 t).idByAddress x = 0 := by
  by_cases hentry : ∃ id d, t.entry = .updateAgent id d x
  · obtain ⟨id, d, hentry⟩ := hentry
    rw [send_of_not_names hentry hn, h0]
  · refine send_invariant (P := fun u => u.idByAddress x = 0) (fun u v huv hu => ?_) h0
    cases huv with
    | register =>
      simp only [World.register, Function.update_of_ne hx.symm]
      exact hu
    | setDomain | emitUpdated => exact hu
    | @setAddress id d y hy =>
      have hyx : x ≠ y := by
        rintro rfl
        exact hentry ⟨id, d, hy⟩
      simp only [World.setAddress, Function.update_of_ne hyx]
      by_cases hold : x = (u.agents id).agentAddress
      · rw [hold, Function.update_self]
      · rw [Function.update_of_ne hold, hu]

theorem run_unregistered (h0 : w.idByAddress x = 0)
    (hrun : (identityRegistry keccak256).Run
      (fun u t => t.sender ≠ x ∧ ¬ Names keccak256 u t x) w w') : w'.idByAddress x = 0 :=
  hrun.invariant (I := fun u => u.idByAddress x = 0) h0 fun u t v hu hC hv => by
    cases hv
    exact send_unregistered hu hC.1 hC.2

theorem newAgent_ne_addressTaken (h0 : w.idByAddress x = 0) (d : Domain) :
    w.newAgent keccak256 x d x ≠ .error .addressTaken := by
  simp only [World.newAgent, h0]
  split_ifs <;> simp_all

/-- What the command reports is the id that its first question has found, or a new one. -/
theorem identityRegister_adopts {seen : World Hash} {wait : World Hash → World Hash} {d : Domain}
    {r : Registration} (h : identityRegister keccak256 seen w wait x d = .ok (w', r)) :
    if seen.agentIdOf x = 0 then r.created = true
    else r = ⟨seen.agentIdOf x, x, false⟩ := by
  simp only [identityRegister] at h
  split_ifs with h0
  · rw [if_neg (by omega)] at h
    split at h <;> cases h
    rfl
  · rw [if_pos (by omega)] at h
    split at h <;> cases h
    rfl

/-- **Who gives an address an identity.**  It is bound to it by the address itself, in `newAgent`,
or by the holder, in `updateAgent`.  Unless such an update names `x`, what others send leaves an
unregistered `x` unregistered, so its own `newAgent` is not refused for its address; and
`identity-register` adopts only an id of which `x` has custody. -/
theorem bound_by_holder (h : (identityRegistry keccak256).Reachable w) (x : Address) :
    (w.agentIdOf x ≠ 0 →
      Custody (w.agentIdOf x) (w.bindingsOf (w.agentIdOf x)) x ∧
      ((∀ b ∈ w.bindings, b.agentAddress = x → b.sender = x) →
        w.bindingsOf (w.agentIdOf x) = [⟨x, x, w.agentIdOf x⟩])) ∧
    (∀ sender d r, w.newAgent keccak256 sender d x = .ok r → x = sender) ∧
    (∀ w', w.agentIdOf x = 0 →
      (identityRegistry keccak256).Run
        (fun u t => t.sender ≠ x ∧ ¬ Names keccak256 u t x) w w' →
      w'.agentIdOf x = 0 ∧ (∀ d, w'.newAgent keccak256 x d x ≠ .error .addressTaken) ∧
      ∀ u wait d v r, identityRegister keccak256 w' u wait x d = .ok (v, r) → r.created = true) ∧
    ∀ u wait d v r, identityRegister keccak256 w u wait x d = .ok (v, r) → r.created = false →
      Custody r.agentId (w.bindingsOf r.agentId) x := by
  refine ⟨fun hx => ⟨custody_of_agentIdOf h hx, fun hself => ?_⟩, fun sender d r hr => ?_,
    fun w' h0 hrun => ?_, fun u wait d v r hr hcreated => ?_⟩
  · obtain ⟨sender, hmem, hcreated⟩ := (custody_of_agentIdOf h hx).bound
    exact hcreated (hself _ (List.mem_of_mem_filter hmem) rfl)
  · obtain ⟨v, n⟩ := r
    exact (newAgent_ok hr).1
  · have h0' : w'.agentIdOf x = 0 := run_unregistered h0 hrun
    refine ⟨h0', newAgent_ne_addressTaken h0', fun u wait d v r hr => ?_⟩
    have hr' := identityRegister_adopts hr
    rwa [if_pos h0'] at hr'
  · have hr' := identityRegister_adopts hr
    split_ifs at hr' with h0
    · rw [hcreated] at hr'
      cases hr'
    · subst hr'
      exact custody_of_agentIdOf h h0

/-- The state in which `5` has registered and moved its id to `6`, who has sent nothing. -/
def squatted : World Domain :=
  ((World.initial Domain).send (fun d => d) ⟨5, by decide, .newAgent [1] 5⟩).send (fun d => d)
    ⟨5, by decide, .updateAgent 1 [1] 6⟩

theorem squatted_reachable : (identityRegistry fun d : Domain => d).Reachable squatted :=
  (System.Reach.init.step (l := ⟨5, by decide, .newAgent [1] 5⟩) trivial rfl).step
    (l := ⟨5, by decide, .updateAgent 1 [1] 6⟩) trivial rfl

theorem registered_by_another :
    ∃ w, (identityRegistry fun d : Domain => d).Reachable w ∧ w.agentIdOf 6 = 1 ∧
      (∀ b ∈ w.bindings, b.sender ≠ 6) ∧
      w.newAgent (fun d => d) 6 [2] 6 = .error .addressTaken ∧
      ∃ w', identityRegister (fun d => d) w w (fun w => w) 6 [2] = .ok (w', ⟨1, 6, false⟩) :=
  ⟨squatted, squatted_reachable, rfl, by decide, rfl, _, rfl⟩

theorem bound_by_holder_squatted :
    Custody 1 (squatted.bindingsOf 1) 6 ∧
      ∀ sender d r, squatted.newAgent (fun d => d) sender d 6 = .ok r → 6 = sender :=
  ⟨((bound_by_holder squatted_reachable 6).1 (by decide)).1,
    (bound_by_holder squatted_reachable 6).2.1⟩

end IdentityRegistry
end Mach402
