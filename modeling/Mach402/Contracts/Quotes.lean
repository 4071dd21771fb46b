import Mach402.Contracts.Payouts

/-!
# Quotes and settlements

`quoteSettlement` is a copy of the arithmetic of `settle` that looks at one thing less: it does not
ask whether the session is settled.

* `Settles`: a settlement of a session goes through, whatever the payees do, and pays and emits a
  split;
* `quotes_iff`: quotes and settlements of a session agree just if it has not been settled.
-/

namespace Mach402

namespace SessionEscrow

/-! ### Settlements -/

/-- The call settles the session by this split, for this sender. -/
def Pc.settling (sender : Address) (id : SessionId) (q : Split) : Pc → Prop
  | .payProvider s i r | .payRenter s i r | .settled s i r => s = sender ∧ i = id ∧ r = q
  | .deferProvider s i r _ | .deferRenter s i r _ => s = sender ∧ i = id ∧ r = q
  | _ => False

/-- The session has just been settled by this split, for this sender. -/
structure World.JustSettled (w : World) (sender : Address) (id : SessionId) (q : Split) : Prop where
  emitted : ∃ log, w.log =
    log ++ [.sessionSettled id q.elapsed q.providerAmount q.refundAmount sender]
  paid : w.PaidOut id q

/-- **`settle` succeeds and pays `q`**: the call does not revert, whatever the payees do it can come
to its end, and when it has, the split is paid and emitted. -/
def Settles (chain : Chain) (c : Program.Config World Pc) (sender : Address) (id : SessionId)
    (q : Split) : Prop :=
  ∃ w, c.state.call chain ⟨sender, 0, .settle id⟩ = some (w, .payProvider sender id q) ∧
    (∃ d, (escrowSystem chain).Run (Program.Within c.stack)
      ⟨w, .running c.state (.payProvider sender id q) :: c.stack⟩ d ∧ d.stack = c.stack) ∧
    ∀ d, (escrowSystem chain).Run (Program.Within c.stack)
      ⟨w, .running c.state (.payProvider sender id q) :: c.stack⟩ d → d.stack = c.stack →
        d.state.JustSettled sender id q

section Settling

variable {chain : Chain} {w : World} {p : Pc} {sender : Address} {id : SessionId} {q : Split}

theorem Pc.settling_session (h : p.settling sender id q) : p.session = some id := by
  cases p <;> first | exact congrArg some h.2.1 | exact h.elim

theorem stays_pay {Q : Pc → Prop} {R : World → Prop} {payee : Address} {tinybars : ℕ}
    {paid deferred : Pc} (hpaid : Q paid) (hdeferred : Q deferred) :
    (w.pay chain id payee tinybars paid deferred).Stays Q R := by
  unfold World.pay
  split
  · exact ⟨hpaid, hdeferred⟩
  · exact hdeferred

theorem stays_defer {Q : Pc → Prop} {R : World → Prop} {payee : Address} {tinybars n : ℕ}
    {paid : Pc} (h : (w.defer id payee tinybars paid).Proceeds Pc.rank n) (hpaid : Q paid) :
    (w.defer id payee tinybars paid).Stays Q R := by
  unfold World.defer at h ⊢
  split at h
  · exact hpaid
  · exact h.elim

/-- **A settlement stays one** until it returns. -/
theorem stays_settling (hk : p.Knows w) (hproc : (w.act chain p).Proceeds Pc.rank p.rank)
    (h : p.settling sender id q) :
    (w.act chain p).Stays (Pc.settling sender id q) (World.JustSettled · sender id q) := by
  cases p with
  | payProvider s i r | payRenter s i r =>
    simp only [World.act]
    split_ifs
    · exact stays_pay h h
    · exact h
  | deferProvider s i r payee | deferRenter s i r payee => exact stays_defer hproc h
  | settled s i r =>
    obtain ⟨rfl, rfl, rfl⟩ := h
    exact ⟨⟨w.log, rfl⟩, hk.2.same ⟨rfl, rfl, rfl⟩⟩
  | _ => exact h.elim

end Settling

/-! ### Deposits -/

/-- A deposit fits in a word. -/
def World.Fits (w : World) : Prop := ∀ id, (w.sessions id).deposited < wordSize

section Fits

variable {chain : Chain} {w w' : World} {p : Pc}

theorem mul_lt {a b n : ℕ} (h : mul a b = .ok n) : n < wordSize := by
  unfold mul at h
  split_ifs at h with hlt
  cases h
  exact hlt

theorem World.Fits.update (h : w.Fits) {id : SessionId} {s : Session} (hs : s.deposited < wordSize)
    (hw : w'.sessions = Function.update w.sessions id s) : w'.Fits := by
  intro j
  rw [hw, Function.update_apply]
  split_ifs
  · exact hs
  · exact h j

theorem World.openSession_lt {sender provider : Address} {value pricePerSecond duration : ℕ}
    {id : SessionId}
    (h : w.openSession sender value id provider pricePerSecond duration = .ok w') :
    value < wordSize := by
  unfold openSession at h
  split_ifs at h
  split at h
  · cases h
  · rename_i owed howed
    split_ifs at h with hv
    rw [not_not.1 hv]
    exact mul_lt howed

theorem World.topUp_lt {value addedDuration : ℕ} {id : SessionId}
    (h : w.topUp value id addedDuration = .ok w') :
    (w.sessions id).deposited + value < wordSize := by
  by_contra hlt
  have hadd : add (w.sessions id).deposited value = .error .panic := if_neg hlt
  simp only [topUp, hadd] at h
  (repeat' split at h) <;> cases h

theorem fits_call (h : w.Fits) {c : Call} (hw : w.call chain c = some (w', p)) : w'.Fits := by
  obtain ⟨-, hcalled⟩ := called_of_call hw
  cases hcalled with
  | openSession id provider pricePerSecond duration _ hsender hok =>
    have hlt := World.openSession_lt hok
    obtain ⟨-, -, rfl⟩ := World.openSession_ok hok
    exact h.update (s := ⟨c.sender, provider, pricePerSecond, w.timestamp, duration, c.value,
      false⟩) hlt rfl
  | topUp id addedDuration _ hok =>
    have hlt := World.topUp_lt hok
    obtain ⟨-, -, -, rfl⟩ := World.topUp_ok hok
    exact h.update (s := { w.sessions id with
      duration := (w.sessions id).duration + addedDuration
      deposited := (w.sessions id).deposited + c.value }) hlt rfl
  | settle id _ hok =>
    obtain ⟨-, -, -, rfl⟩ := World.settle_ok hok
    exact h.update (s := { w.sessions id with settled := true }) (h id) rfl
  | withdraw _ hok =>
    obtain ⟨-, rfl⟩ := World.withdraw_ok hok
    exact h

/-- Every deposit fits in a word, as an invariant of the contract. -/
def fitsOutline (chain : Chain) :
    Program.Outline (sessionEscrow chain) (World.initial chain) fun _ => true where
  I _ w := w.Fits
  init _ := Nat.two_pow_pos 256
  start _ _ _ _ _ h hw := fits_call h hw
  act _ _ _ h := Act.Keeps.mono isolated_act fun _ _ hu id => by
    rw [hu.sessions]
    exact h id
  env _ w _ _ _ _ h hw := by
    obtain ⟨_, -, -, rfl⟩ | ⟨_, rfl⟩ := World.happen_some hw
    · exact h
    · exact h

end Fits

section Reachable

variable {chain : Chain} {c : Program.Config World Pc} {sender : Address} {id : SessionId}
  {q : Split}

/-- **A settlement that starts comes to its end.** -/
theorem settles_of_call (h : (escrowSystem chain).Reachable c) (hy : c.yielded = true) {w : World}
    (hw : c.state.call chain ⟨sender, 0, .settle id⟩ = some (w, .payProvider sender id q)) :
    Settles chain c sender id q := by
  have hstart : (escrowSystem chain).Reachable
      ⟨w, .running c.state (.payProvider sender id q) :: c.stack⟩ := by
    refine h.step (l := .call ⟨sender, 0, .settle id⟩) trivial ?_
    simp only [Program.system, Program.step, hy, if_true]
    exact Option.map_eq_some_iff.2 ⟨_, hw, rfl⟩
  have hact : ∀ s entry p, (escrowSystem chain).Reachable ⟨s, .running entry p :: c.stack⟩ →
      p.settling sender id q →
      (s.act chain p).Stays (Pc.settling sender id q) (World.JustSettled · sender id q) ∧
        (s.act chain p).Proceeds Pc.rank p.rank := by
    intro s entry p hs hp
    have hproc := proceeds_of_reachable hs rfl (by rw [Pc.settling_session hp]; simp)
    have hk := (accounts_of_reachable hs).knows p
      (by simp [Program.Config.points, Program.Frame.point])
    exact ⟨stays_settling hk hproc hp, hproc⟩
  refine ⟨w, hw, Program.exists_return hact hstart ⟨rfl, rfl, rfl⟩, fun d hd hstack => ?_⟩
  obtain ⟨-, hcall⟩ := Program.returned_of_run (fun s entry p hs hp => (hact s entry p hs hp).1)
    hstart (Or.inl ⟨[], _, rfl, ⟨rfl, rfl, rfl⟩⟩) hd
  rcases hcall with ⟨fs, f, hfs, -⟩ | ⟨-, hsettled⟩
  · have hlen := congrArg List.length (hfs.symm.trans hstack)
    simp only [List.length_append, List.length_cons] at hlen
    omega
  · exact hsettled

/-- Every session that exists is quoted. -/
theorem exists_quote (h : (escrowSystem chain).Reachable c)
    (hr : (c.state.sessions id).renter ≠ 0) : ∃ q, c.state.quoteSettlement id = .ok q := by
  obtain ⟨hd, ht⟩ := priced_of_reachable h id hr
  obtain ⟨q, hq⟩ := Session.exists_split hd ht (((fitsOutline chain).holds_of_reachable h).state id)
  exact ⟨q, by rw [World.quoteSettlement, if_neg hr, hq]⟩

/-- A settlement is of a session that exists and is not settled. -/
theorem Settles.unsettled (h : Settles chain c sender id q) :
    (c.state.sessions id).renter ≠ 0 ∧ (c.state.sessions id).settled = false := by
  obtain ⟨w, hw, -⟩ := h
  obtain ⟨-, hcalled⟩ := called_of_call hw
  cases hcalled with
  | settle id' he hok =>
    cases he
    obtain ⟨hr, hs, -⟩ := World.settle_ok hok
    exact ⟨hr, hs⟩

/-- **Quotes and settlements agree** just until the session is settled. -/
theorem quotes_iff (h : (escrowSystem chain).Reachable c) (hy : c.yielded = true)
    (h0 : sender ≠ 0) (hself : sender ≠ chain.self) (id : SessionId) :
    (∀ q, c.state.quoteSettlement id = .ok q ↔ Settles chain c sender id q) ↔
      (c.state.sessions id).renter = 0 ∨ (c.state.sessions id).settled = false := by
  constructor
  · intro hagree
    by_contra hnot
    obtain ⟨hr, hs⟩ := not_or.1 hnot
    obtain ⟨q, hq⟩ := exists_quote h hr
    exact hs ((hagree q).1 hq).unsettled.2
  · intro hcond q
    by_cases hr : (c.state.sessions id).renter = 0
    · rw [World.quoteSettlement, if_pos hr]
      exact iff_of_false (by simp) fun hset => hset.unsettled.1 hr
    · obtain ⟨w, r, hw, hquote, -⟩ :=
        settle_of_reachable h hr (hcond.resolve_left hr) h0 hself
      rw [hquote]
      constructor
      · intro heq
        cases heq
        exact settles_of_call h hy hw
      · rintro ⟨w', hw', -⟩
        rw [hw] at hw'
        cases hw'
        rfl

end Reachable

/-- A session is opened, and settled after five seconds. -/
def settleOnce : List (Program.Label Call Happening) :=
  [.call ⟨2, 20, .openSession 1 3 2 10⟩, .run, .env (.advance 5), .call ⟨9, 0, .settle 1⟩,
    .run, .ret true, .run, .ret true, .run]

/-- After five seconds the session is quoted, and settles as quoted. -/
theorem quotes_beforeSettlement : ∃ c, (escrowSystem .small).Reachable c ∧
    c.state.quoteSettlement 1 = .ok ⟨5, 10, 10⟩ ∧ Settles .small c 9 1 ⟨5, 10, 10⟩ := by
  obtain ⟨c, hc, hp⟩ := System.exists_reach (S := escrowSystem .small) (C := fun _ _ => True)
    (p := fun c => c.yielded && decide ((c.state.sessions 1).settled = false ∧
      c.state.quoteSettlement 1 = .ok ⟨5, 10, 10⟩)) (settleOnce.take 3) (by decide +kernel)
  obtain ⟨hy, hp⟩ := (Bool.and_eq_true _ _).mp hp
  obtain ⟨hs, hquote⟩ := of_decide_eq_true hp
  have hagree := (quotes_iff hc.reachable hy (by decide : (9 : Address) ≠ 0)
    (by decide : (9 : Address) ≠ 1) 1).2 (Or.inr hs)
  exact ⟨c, hc.reachable, hquote, (hagree _).1 hquote⟩

/-- **A settled session is still quoted.** -/
theorem not_quotes : ¬ ∀ (chain : Chain) (c : Program.Config World Pc),
    (escrowSystem chain).Reachable c → c.yielded = true → ∀ sender, sender ≠ 0 →
      sender ≠ chain.self → ∀ id q, c.state.quoteSettlement id = .ok q ↔
        Settles chain c sender id q := by
  intro h
  obtain ⟨c, hc, hp⟩ := System.exists_reach (S := escrowSystem .small) (C := fun _ _ => True)
    (p := fun c => c.yielded && decide ((c.state.sessions 1).settled = true ∧
      c.state.quoteSettlement 1 = .ok ⟨5, 10, 10⟩)) settleOnce (by decide +kernel)
  obtain ⟨hy, hp⟩ := (Bool.and_eq_true _ _).mp hp
  obtain ⟨hs, hquote⟩ := of_decide_eq_true hp
  have hsettles := (h .small c hc.reachable hy 9 (by decide) (by decide) 1 _).1 hquote
  exact absurd hsettles.unsettled.2 (by simp [hs])

end SessionEscrow
end Mach402
