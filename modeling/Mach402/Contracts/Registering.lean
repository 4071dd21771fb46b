import Mach402.Contracts.Identities
import Mach402.Library.Threads

/-!
# Registering a node

`cleargate-node register` asks the contract for the id of the node's operator, and registers the
operator or updates the id it has.  It is run by hand, as often as the provider likes: runs may
overlap, and a run may be cut off at any of its calls, whether or not the call is executed.

* `Pc`, `act`: `identity-register` and `RegisterIdentity`, call by call;
* `registering`: any number of runs for one operator, while others use the contract;
* `act_identityRegister`: by itself, a run is the command of `IdentityRegistry`;
* `registered_once`: all runs report the one id of the operator, and at most one has minted it.
-/

namespace Mach402
namespace IdentityRegistry

/-- The address of a node's key. -/
abbrev Operator : Type := {a : Address // a ≠ 0}

/-- The transaction of a run that has found the id `existing`, or none. -/
def registerTx (operator : Operator) (existing : ℕ) (domain : Domain) : Tx where
  sender := operator
  sender_ne := operator.2
  entry :=
    if 0 < existing then .updateAgent existing domain operator else .newAgent domain operator

/-- How a call of a run ends: it is answered, or the run is over, and the transaction of the call
may have been executed. -/
inductive Outcome
  | answered
  | lost (executed : Bool)
  deriving DecidableEq

/-- Where a run is. -/
inductive Pc
  | asking (domain : Domain)
  | writing (domain : Domain) (existing : ℕ)
  | reading
  | done (r : Registration)
  | failed
  deriving DecidableEq

section Machine

variable {Hash : Type} [DecidableEq Hash] (keccak256 : Domain → Hash) (operator : Operator)

/-- Whether a transaction goes through. -/
def World.accepts (w : World Hash) (t : Tx) : Bool :=
  match t.entry with
  | .newAgent d a => (w.newAgent keccak256 t.sender d a).isOk
  | .updateAgent id d a => (w.updateAgent keccak256 t.sender id d a).isOk

/-- The next call of a run, and the transaction it sends, if any. -/
def act (w : World Hash) : Pc → Outcome → Option (Option Tx × Pc)
  | .asking domain, .answered => some (none, .writing domain (w.agentIdOf operator))
  | .asking _, .lost _ => some (none, .failed)
  | .writing domain existing, .answered =>
    let t := registerTx operator existing domain
    if w.accepts keccak256 t then
      some (some t, if 0 < existing then .done ⟨existing, operator, false⟩ else .reading)
    else some (none, .failed)
  | .writing domain existing, .lost executed =>
    some (if executed then some (registerTx operator existing domain) else none, .failed)
  | .reading, .answered =>
    -- `RegisterIdentity` refuses the id zero
    if w.agentIdOf operator = 0 then some (none, .failed)
    else some (none, .done ⟨w.agentIdOf operator, operator, true⟩)
  | .reading, .lost _ => some (none, .failed)
  | .done _, _ | .failed, _ => none

/-- A transaction, or none. -/
def World.sendOption (w : World Hash) : Option Tx → World Hash
  | none => w
  | some t => w.send keccak256 t

/-- **The runs for one operator.**  The environment sends the transactions of others. -/
def registering : Machine (World Hash) (Option Tx) Pc Outcome Domain Tx where
  act := act keccak256 operator
  apply := World.sendOption keccak256
  start := .asking
  env w t := if t.sender = operator then w else w.send keccak256 t

/-- The runs for one operator, from an empty registry. -/
abbrev registeringSystem := (registering keccak256 operator).system (World.initial Hash)

end Machine

section Runs

variable {Hash : Type} [DecidableEq Hash] {keccak256 : Domain → Hash} {operator : Operator}
  {w : World Hash} {t : Tx} {p p' : Pc} {op : Option Tx}

/-- What a run does next. -/
inductive Acts (keccak256 : Domain → Hash) (operator : Operator) (w : World Hash) :
    Pc → Option Tx → Pc → Prop
  | asked {d : Domain} :
    Acts keccak256 operator w (.asking d) none (.writing d (w.agentIdOf operator))
  | updated {d : Domain} {existing : ℕ} (hpos : 0 < existing)
    (hok : w.accepts keccak256 (registerTx operator existing d) = true) :
    Acts keccak256 operator w (.writing d existing) (some (registerTx operator existing d))
      (.done ⟨existing, operator, false⟩)
  | minted {d : Domain} (hok : w.accepts keccak256 (registerTx operator 0 d) = true) :
    Acts keccak256 operator w (.writing d 0) (some (registerTx operator 0 d)) .reading
  | lost {d : Domain} {existing : ℕ} :
    Acts keccak256 operator w (.writing d existing) (some (registerTx operator existing d)) .failed
  | failed {p : Pc} : Acts keccak256 operator w p none .failed
  | read (hid : w.agentIdOf operator ≠ 0) :
    Acts keccak256 operator w .reading none (.done ⟨w.agentIdOf operator, operator, true⟩)

theorem acts_of_act {o : Outcome} (ha : act keccak256 operator w p o = some (op, p')) :
    Acts keccak256 operator w p op p' := by
  cases p with
  | asking d =>
    cases o with
    | answered => cases ha; exact .asked
    | lost => cases ha; exact .failed
  | writing d existing =>
    cases o with
    | answered =>
      simp only [act] at ha
      split_ifs at ha with hok hpos
      · cases ha
        exact .updated hpos hok
      · obtain rfl : existing = 0 := by omega
        cases ha
        exact .minted hok
      · cases ha
        exact .failed
    | lost executed =>
      cases executed with
      | true => cases ha; exact .lost
      | false => cases ha; exact .failed
  | reading =>
    cases o with
    | answered =>
      simp only [act] at ha
      split_ifs at ha with hid
      · cases ha
        exact .failed
      · cases ha
        exact .read hid
    | lost => cases ha; exact .failed
  | done => cases ha
  | failed => cases ha

/-! ### One run by itself -/

theorem registerTx_of_pos {existing : ℕ} (h : 0 < existing) (d : Domain) :
    registerTx operator existing d = ⟨operator, operator.2, .updateAgent existing d operator⟩ := by
  simp only [registerTx, if_pos h]

theorem registerTx_zero (d : Domain) :
    registerTx operator 0 d = ⟨operator, operator.2, .newAgent d operator⟩ := rfl

/-- **A run is the command**: if `seen` is the state in which it asks and `w` the one that its
transaction finds, it reports what the command does, or goes on to ask for the new id. -/
theorem act_identityRegister {seen w' : World Hash} {wait : World Hash → World Hash} {d : Domain}
    {r : Registration}
    (h : identityRegister keccak256 seen w wait operator d = .ok (w', r)) :
    ∃ t p, act keccak256 operator seen (.asking d) .answered =
        some (none, .writing d (seen.agentIdOf operator)) ∧
      act keccak256 operator w (.writing d (seen.agentIdOf operator)) .answered =
        some (some t, p) ∧
      (p = .done r ∧ w' = w.send keccak256 t ∨
        p = .reading ∧ w' = wait (w.send keccak256 t) ∧
          r = ⟨w'.agentIdOf operator, operator, true⟩) := by
  unfold identityRegister at h
  by_cases hpos : 0 < seen.agentIdOf operator
  · simp only [if_pos hpos] at h
    split at h
    · cases h
    · rename_i w₁ b hok
      cases h
      refine ⟨registerTx operator (seen.agentIdOf operator) d,
        .done ⟨seen.agentIdOf operator, operator, false⟩, rfl, ?_, Or.inl ⟨rfl, ?_⟩⟩
      · simp only [act, registerTx_of_pos hpos, World.accepts, hok, if_pos hpos]
        rfl
      · simp only [registerTx_of_pos hpos, World.send, hok]
  · have hzero : seen.agentIdOf operator = 0 := Nat.eq_zero_of_not_pos hpos
    simp only [if_neg hpos] at h
    split at h
    · cases h
    · rename_i w₁ n hok
      cases h
      rw [hzero]
      refine ⟨registerTx operator 0 d, .reading, ?_, ?_, Or.inr ⟨rfl, ?_, rfl⟩⟩
      · simp only [act, hzero]
      · simp only [act, registerTx_zero, World.accepts, hok]
        rfl
      · simp only [registerTx_zero, World.send, hok]

/-! ### What the operator holds -/

/-- A transaction of the operator that does not give its id away, or one of someone else. -/
def Keeps (operator : Operator) (t : Tx) : Prop :=
  t.sender = operator.1 → ∀ id d y, t.entry = .updateAgent id d y → y = operator.1

theorem keeps_registerTx (operator : Operator) (existing : ℕ) (d : Domain) :
    Keeps operator (registerTx operator existing d) := by
  intro _ id d' y hentry
  unfold registerTx at hentry
  split_ifs at hentry
  cases hentry
  rfl

/-- **An id that the operator holds stays**, whatever is written. -/
theorem agentIdOf_write {u v : World Hash} (ht : Keeps operator t) (huv : Write keccak256 t u v)
    (h : u.agentIdOf operator ≠ 0) : v.agentIdOf operator = u.agentIdOf operator := by
  cases huv with
  | register _ _ _ haddress =>
    have hsender : operator.1 ≠ t.sender := fun he => h (he ▸ haddress)
    exact Function.update_of_ne hsender _ _
  | setDomain | emitUpdated => rfl
  | @setAddress id d y hentry hid howner hy hyne haddress =>
    have hold : operator.1 ≠ y := fun he => h (he ▸ haddress)
    have hsender : operator.1 ≠ (u.agents id).agentAddress := by
      rw [howner]
      intro he
      exact hyne ((ht he.symm id d y hentry).trans he)
    show Function.update (Function.update _ _ _) _ _ _ = _
    rw [Function.update_of_ne hold, Function.update_of_ne hsender]
    rfl

theorem agentIdOf_send (ht : Keeps operator t) (h : w.agentIdOf operator ≠ 0) :
    (w.send keccak256 t).agentIdOf operator = w.agentIdOf operator := by
  refine send_invariant (P := fun u => u.agentIdOf operator = w.agentIdOf operator)
    (fun u v huv hu => ?_) rfl
  rw [agentIdOf_write ht huv (hu ▸ h), hu]

/-- An event that registers the operator. -/
def mints (operator : Operator) : Event → Bool
  | .agentRegistered _ _ a => decide (a = operator.1)
  | .agentUpdated .. => false

/-- How often an id has been minted for the operator. -/
def World.minted (operator : Operator) (w : World Hash) : ℕ := w.log.countP (mints operator)

omit [DecidableEq Hash] in
theorem minted_append (operator : Operator) {v : World Hash} {e : List Event}
    (h : v.log = w.log ++ e) :
    v.minted operator = w.minted operator + e.countP (mints operator) := by
  rw [World.minted, h, List.countP_append, World.minted]

theorem minted_le_send (w : World Hash) (t : Tx) :
    w.minted operator ≤ (w.send keccak256 t).minted operator := by
  refine send_invariant (P := fun u => w.minted operator ≤ u.minted operator)
    (fun u v huv hu => ?_) le_rfl
  obtain ⟨e, he, -⟩ := write_log huv
  rw [minted_append operator he]
  exact hu.trans (Nat.le_add_right _ _)

/-- **Who holds an id is not registered again.** -/
theorem minted_write {u v : World Hash} (huv : Write keccak256 t u v)
    (h : u.agentIdOf operator ≠ 0) : v.minted operator = u.minted operator := by
  cases huv with
  | @register d hentry hd hdomain haddress =>
    have hsender : t.sender ≠ operator.1 := fun he => h (he ▸ haddress)
    have hm := minted_append operator (w := u) (v := u.register keccak256 t.sender d t.sender)
      (e := [.agentRegistered _ _ _]) rfl
    rw [hm]
    simp [mints, hsender]
  | setDomain | setAddress => rfl
  | emitUpdated => exact minted_append operator (e := [.agentUpdated _ _ _]) rfl

theorem minted_send (ht : Keeps operator t) (h : w.agentIdOf operator ≠ 0) :
    (w.send keccak256 t).minted operator = w.minted operator := by
  refine (send_invariant (P := fun u => u.agentIdOf operator = w.agentIdOf operator ∧
    u.minted operator = w.minted operator) (fun u v huv ⟨hid, hm⟩ => ⟨?_, ?_⟩) ⟨rfl, rfl⟩).2
  · rw [agentIdOf_write ht huv (hid ▸ h), hid]
  · rw [minted_write huv (hid ▸ h), hm]

/-- **The operator is registered at most once**, and then holds an id. -/
structure World.Once (keccak256 : Domain → Hash) (operator : Operator) (w : World Hash) : Prop where
  good : w.Good keccak256
  once : w.minted operator = 0 ∨ w.minted operator = 1 ∧ w.agentIdOf operator ≠ 0

theorem World.Once.write {u v : World Hash} (hu : u.Once keccak256 operator)
    (ht : Keeps operator t) (huv : Write keccak256 t u v) : v.Once keccak256 operator := by
  refine ⟨hu.good.write huv, ?_⟩
  have hstays : v.minted operator = u.minted operator →
      v.minted operator = 0 ∨ v.minted operator = 1 ∧ v.agentIdOf operator ≠ 0 := by
    intro hm
    rw [hm]
    refine hu.once.imp_right fun ⟨hone, hid⟩ => ⟨hone, ?_⟩
    rw [agentIdOf_write ht huv hid]
    exact hid
  cases huv with
  | @register d hentry hd hdomain haddress =>
    have hm := minted_append operator (w := u) (v := u.register keccak256 t.sender d t.sender)
      (e := [.agentRegistered _ _ _]) rfl
    by_cases hsender : t.sender = operator.1
    · -- the operator has had no id
      have hzero : u.agentIdOf operator = 0 := hsender ▸ haddress
      have hnone : u.minted operator = 0 := hu.once.resolve_right fun h => h.2 hzero
      refine Or.inr ⟨?_, ?_⟩
      · rw [hm, hnone]
        simp [mints, hsender]
      · have hid : (u.register keccak256 t.sender d t.sender).agentIdOf operator =
            u.nextAgentId := by
          rw [hsender]
          exact Function.update_self ..
        rw [hid]
        exact Nat.one_le_iff_ne_zero.1 hu.good.next
    · refine hstays (hm.trans ?_)
      simp [mints, hsender]
  | setDomain | setAddress => exact hstays rfl
  | emitUpdated =>
    refine hstays ((minted_append operator (e := [.agentUpdated _ _ _]) rfl).trans ?_)
    rfl

theorem World.Once.send (h : w.Once keccak256 operator) (ht : Keeps operator t) :
    (w.send keccak256 t).Once keccak256 operator :=
  send_invariant (P := fun u => u.Once keccak256 operator) (fun _ _ huv hu => hu.write ht huv) h

omit [DecidableEq Hash] in
theorem World.Once.initial (keccak256 : Domain → Hash) (operator : Operator) :
    (World.initial Hash).Once keccak256 operator := ⟨initial_good, Or.inl rfl⟩

/-- A registration of the operator that goes through. -/
theorem minted_of_accepts {d : Domain}
    (hok : w.accepts keccak256 (registerTx operator 0 d) = true) :
    (w.send keccak256 (registerTx operator 0 d)).minted operator = w.minted operator + 1 ∧
      w.agentIdOf operator = 0 := by
  simp only [World.accepts, registerTx_zero] at hok
  cases hnew : w.newAgent keccak256 operator d operator with
  | error e =>
    rw [hnew] at hok
    cases hok
  | ok r =>
    obtain ⟨w', n⟩ := r
    obtain ⟨-, -, -, haddress, -, rfl⟩ := newAgent_ok hnew
    refine ⟨?_, haddress⟩
    simp only [World.send, registerTx_zero, hnew]
    rw [minted_append operator (w := w) (e := [.agentRegistered _ _ _]) rfl]
    simp [mints]

/-! ### All runs -/

/-- What a run knows of the contract. -/
def Pc.Knows (operator : Operator) (w : World Hash) : Pc → Prop
  | .writing _ existing => existing ≠ 0 → w.agentIdOf operator = existing
  | .reading => w.agentIdOf operator ≠ 0
  | .done r => r.agentId ≠ 0 ∧ r.agentId = w.agentIdOf operator ∧ r.agentAddress = operator.1
  | .asking _ | .failed => True

theorem Pc.Knows.send (h : p.Knows operator w) (ht : Keeps operator t) :
    p.Knows operator (w.send keccak256 t) := by
  cases p with
  | asking | failed => trivial
  | writing d existing =>
    intro hne
    have hid := h hne
    rw [agentIdOf_send ht (hid.symm ▸ hne), hid]
  | reading =>
    have hid : w.agentIdOf operator ≠ 0 := h
    exact fun h0 => hid ((agentIdOf_send ht hid).symm.trans h0)
  | done r =>
    obtain ⟨hne, hid, haddress⟩ := h
    refine ⟨hne, ?_, haddress⟩
    rw [agentIdOf_send ht (hid ▸ hne), hid]

/-- A run sends nothing that gives the id away. -/
theorem Acts.keeps (ha : Acts keccak256 operator w p (some t) p') : Keeps operator t := by
  cases ha <;> exact keeps_registerTx _ _ _

theorem Acts.knows (ha : Acts keccak256 operator w p op p') (hI : w.Once keccak256 operator)
    (h : p.Knows operator w) : p'.Knows operator (w.sendOption keccak256 op) := by
  cases ha with
  | asked => exact fun _ => rfl
  | @updated d existing hpos hok =>
    have hid : w.agentIdOf operator = existing := h hpos.ne'
    refine ⟨hpos.ne', ?_, rfl⟩
    show existing = World.agentIdOf (w.send keccak256 _) operator
    rw [agentIdOf_send (keeps_registerTx _ _ _) (hid.symm ▸ hpos.ne'), hid]
  | @minted d hok =>
    have honce := hI.send (keeps_registerTx operator 0 d)
    obtain ⟨hminted, -⟩ := minted_of_accepts hok
    refine (honce.once.resolve_left fun h0 => ?_).2
    rw [h0] at hminted
    cases hminted
  | lost | failed => trivial
  | read hid => exact ⟨hid, rfl, rfl⟩

/-- What all runs keep, and what a run knows where it stands. -/
def registeringOutline (keccak256 : Domain → Hash) (operator : Operator) :
    Machine.Outline (registering keccak256 operator) (World.initial Hash) System.Any where
  I w := w.Once keccak256 operator
  A w p := p.Knows operator w
  X _ _ := True
  init := .initial keccak256 operator
  symm _ _ _ := trivial
  start _ _ := trivial
  apart _ _ := trivial
  envI w t h := by
    show World.Once keccak256 operator (if t.sender = operator.1 then w else w.send keccak256 t)
    split_ifs with hsender
    · exact h
    · exact h.send fun he => absurd he hsender
  envA w t p h := by
    show p.Knows operator (if t.sender = operator.1 then w else w.send keccak256 t)
    split_ifs with hsender
    · exact h
    · exact h.send fun he => absurd he hsender
  act c i o p op p' _ _ _ hI hA ha := by
    refine ⟨?_, (acts_of_act ha).knows hI hA⟩
    cases op with
    | none => exact hI
    | some t => exact hI.send (acts_of_act ha).keeps
  free c i j o p q op p' _ _ _ _ _ _ _ hq _ ha := by
    refine ⟨?_, trivial⟩
    cases op with
    | none => exact hq
    | some t => exact hq.send (acts_of_act ha).keeps

/-- A run that has registered the operator. -/
def Pc.created : Pc → Bool
  | .reading => true
  | .done r => r.created
  | .asking _ | .writing .. | .failed => false

theorem countP_created_le {c : Machine.Config (World Hash) Pc}
    (h : (registeringSystem keccak256 operator).Reachable c) :
    c.threads.countP Pc.created ≤ c.shared.minted operator := by
  have hle := Machine.account_le (M := registering keccak256 operator) (C := System.Any) (k := 0)
    (m := fun w => (w.minted operator : ℤ)) (f := fun p => -(if p.created then 1 else 0)) le_rfl
    (fun _ => le_rfl) (fun w t => ?_) (fun c i o p op p' _ _ _ ha => ?_) h
  · rw [Machine.weigh_neg, Machine.weigh_count] at hle
    omega
  · show (w.minted operator : ℤ) ≤
      World.minted operator (if t.sender = operator.1 then w else w.send keccak256 t)
    split_ifs
    · exact le_rfl
    · exact_mod_cast minted_le_send w t
  · show (c.shared.minted operator : ℤ) + _ ≤
      World.minted operator (c.shared.sendOption keccak256 op) + _
    cases acts_of_act ha with
    | asked | read => exact le_rfl
    | failed =>
      cases hcreated : p.created <;> simp [World.sendOption, Pc.created]
    | @lost d existing | @updated d existing =>
      have hgrows : c.shared.minted operator ≤
          (c.shared.send keccak256 (registerTx operator existing d)).minted operator :=
        minted_le_send _ _
      simpa [World.sendOption, Pc.created] using hgrows
    | minted hok =>
      have hminted := (minted_of_accepts hok).1
      simp only [World.sendOption, Pc.created, hminted]
      omega

/-- **The id of the operator stays**, once there is one, and nobody is registered for it again. -/
theorem held_of_run {c d : Machine.Config (World Hash) Pc}
    (h : (registeringSystem keccak256 operator).Run System.Any c d)
    (hid : c.shared.agentIdOf operator ≠ 0) :
    d.shared.agentIdOf operator = c.shared.agentIdOf operator ∧
      d.shared.minted operator = c.shared.minted operator := by
  refine h.invariant (I := fun d => d.shared.agentIdOf operator = c.shared.agentIdOf operator ∧
    d.shared.minted operator = c.shared.minted operator) ⟨rfl, rfl⟩
    fun d l d' ⟨hd, hm⟩ _ hs => ?_
  have hsent : ∀ t, Keeps operator t →
      (d.shared.send keccak256 t).agentIdOf operator = c.shared.agentIdOf operator ∧
        (d.shared.send keccak256 t).minted operator = c.shared.minted operator := by
    intro t ht
    have hne : d.shared.agentIdOf operator ≠ 0 := hd.symm ▸ hid
    rw [agentIdOf_send ht hne, minted_send ht hne]
    exact ⟨hd, hm⟩
  cases l with
  | env t =>
    cases hs
    by_cases hsender : t.sender = operator.1
    · have hsame : (registering keccak256 operator).env d.shared t = d.shared := if_pos hsender
      rw [hsame]
      exact ⟨hd, hm⟩
    · have hsend : (registering keccak256 operator).env d.shared t = d.shared.send keccak256 t :=
        if_neg hsender
      rw [hsend]
      exact hsent t fun he => absurd he hsender
  | start d' =>
    cases hs
    exact ⟨hd, hm⟩
  | run i o =>
    obtain ⟨p, op, p', -, ha, rfl⟩ := Machine.step_run hs
    cases op with
    | none => exact ⟨hd, hm⟩
    | some t => exact hsent t (acts_of_act ha).keeps

/-- **A node is registered once**, however often its provider runs the command, whatever is cut off
and whatever others do: all runs report the one id that the operator holds, and at most one of them
has minted it.  Once the operator holds an id, whoever has seen to it, later runs report that id and
mint none. -/
theorem registered_once {c : Machine.Config (World Hash) Pc}
    (h : (registeringSystem keccak256 operator).Reachable c) :
    (∀ r, Pc.done r ∈ c.threads → r.agentId = c.shared.agentIdOf operator ∧ r.agentId ≠ 0 ∧
      r.agentAddress = operator.1 ∧
      ∃ d, c.shared.getAgent r.agentId = .ok ⟨r.agentId, d, operator⟩) ∧
      c.threads.countP Pc.created ≤ c.shared.minted operator ∧ c.shared.minted operator ≤ 1 ∧
      (c.shared.agentIdOf operator ≠ 0 →
        ∀ d, (registeringSystem keccak256 operator).Run System.Any c d →
          d.shared.agentIdOf operator = c.shared.agentIdOf operator ∧
          d.shared.minted operator = c.shared.minted operator ∧
          ∀ r, Pc.done r ∈ d.threads → r.agentId = c.shared.agentIdOf operator) := by
  have hholds := (registeringOutline keccak256 operator).holds h
  have honce : c.shared.Once keccak256 operator := hholds.shared
  refine ⟨fun r hr => ?_, countP_created_le h, ?_, fun hne d hd => ?_⟩
  · obtain ⟨i, hi⟩ := List.getElem?_of_mem hr
    obtain ⟨hne, hid, haddress⟩ := hholds.annot i _ hi
    refine ⟨hid, hne, haddress, (c.shared.agents r.agentId).agentDomain, ?_⟩
    have hindex : c.shared.idByAddress operator = r.agentId := hid.symm
    have hkeyed := honce.good.addresses.keyed operator.1 (by rw [hindex]; exact hne)
    rw [hindex] at hkeyed
    obtain ⟨hagent, hoperator⟩ := keys_eq_some.1 hkeyed
    have hself : (c.shared.agents r.agentId).agentId = r.agentId := by
      have hids := honce.good.ids r.agentId
      split_ifs at hids
      · exact hids
      · exact absurd hids hagent
    rw [getAgent_ok_iff, ← hoperator]
    refine ⟨hagent, ?_⟩
    generalize c.shared.agents r.agentId = a at hself ⊢
    obtain ⟨id, d, x⟩ := a
    cases hself
    rfl
  · rcases honce.once with h0 | ⟨h1, -⟩ <;> omega
  · obtain ⟨hid, hminted⟩ := held_of_run hd hne
    refine ⟨hid, hminted, fun r hr => ?_⟩
    obtain ⟨i, hi⟩ := List.getElem?_of_mem hr
    have hlater := (registeringOutline keccak256 operator).holds (Relation.ReflTransGen.trans h hd)
    rw [← hid]
    exact (hlater.annot i _ hi).2.1

end Runs

theorem five_ne_zero : (5 : Address) ≠ 0 := by decide

theorem six_ne_zero : (6 : Address) ≠ 0 := by decide

/-- The operator of the examples. -/
def sampleOperator : Operator := ⟨5, five_ne_zero⟩

/-- Any number of runs for it. -/
abbrev sampleRuns := registeringSystem (fun d : Domain => d) sampleOperator

/-- The first run is cut off, while its transaction is under way; someone else registers in
between. -/
def cutOff : List (Machine.Label Outcome Domain Tx) :=
  [.start [1], .run 0 .answered, .env ⟨6, six_ne_zero, .newAgent [2] 6⟩, .run 0 (.lost true)]

/-- The second one adopts the id. -/
theorem registered_once_rerun :
    ∃ c d, sampleRuns.Reachable c ∧ sampleRuns.Run System.Any c d ∧ c.threads = [.failed] ∧
      d.threads = [.failed, .done ⟨2, 5, false⟩] ∧
      c.shared.minted sampleOperator ≤ 1 ∧
      d.shared.agentIdOf 5 = c.shared.agentIdOf 5 ∧
      d.shared.minted sampleOperator = c.shared.minted sampleOperator ∧
      ∀ r, Pc.done r ∈ d.threads → r.agentId = c.shared.agentIdOf 5 := by
  obtain ⟨c, hc, hp⟩ := System.exists_reach (S := sampleRuns) (C := System.Any)
    (p := fun c => decide (c.threads = [.failed] ∧ c.shared.agentIdOf 5 ≠ 0 ∧
      ((sampleRuns.exec System.Any c [.start [3], .run 1 .answered, .run 1 .answered]).any fun d =>
        decide (d.threads = [.failed, .done ⟨2, 5, false⟩])) = true)) cutOff (by decide)
  obtain ⟨hcut, hid, hrerun⟩ := of_decide_eq_true hp
  obtain ⟨d, hd, hadopts⟩ := (Option.any_eq_true _ _).1 hrerun
  have hrun := System.run_of_exec hd
  obtain ⟨-, -, hminted, hstays⟩ := registered_once hc
  exact ⟨c, d, hc, hrun, hcut, of_decide_eq_true hadopts, hminted, hstays hid d hrun⟩

end IdentityRegistry
end Mach402
