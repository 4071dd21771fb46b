import Mach402.Agent.CreateSession

/-!
# Opening a session, as a thread of the node

`handleCreateSession` by itself and the thread of the node that opens a session, when no other
thread moves and the clock stands still: whatever the calls to the outside return, the thread gets
to the same node and to the same session.

* `leads_startLease`, `leads_publishLease`, `leads_stopLease`: the parts;
* `Reply.Answers`, `Ends`: the same session, or none;
* `reachable_handleCreateSession`: what the handler does, the node can do.
-/

namespace Mach402

variable {cfg : PaymentConfig} {q : CreateRequest} {w : Outside} {s s' : Node} {r r' : Run}
  {o : Opening} {x : Reply × Run}

/-! ### The lease -/

/-- By itself, a thread of the node gets there. -/
abbrev PaymentConfig.Leads (cfg : PaymentConfig) : Node → Pc → Node → Pc → Prop :=
  (node cfg.toNodeConfig).Leads

theorem leads_step {p p' p'' : Pc} {op : Op} (out : Outcome)
    (ha : s.act cfg.toNodeConfig p out = some (op, p')) (h : cfg.Leads (s.apply op) p' s' p'') :
    cfg.Leads s p s' p'' :=
  .step ha h

/-- The clock stands still. -/
theorem clock_leads {p p' : Pc} (h : cfg.Leads s p s' p') : s'.clock = s.clock := by
  obtain ⟨outs, h⟩ := h
  refine Machine.alone_invariant (I := fun s' _ => s'.clock = s.clock)
    (fun t p out op p' ht _ => ?_) rfl h
  exact (Node.clock_apply t op).trans ht

theorem leads_stopLease (cfg : PaymentConfig) (r : Run) (id : LeaseId) (status : LeaseStatus)
    (resp : Response) : cfg.Leads r.node (.stopLease id status (.abort resp))
      (r.stopLease id status).node (.done resp) := by
  by_cases h : (r.node.lease id).status.isTerminal
  · refine leads_step .unavailable (by rw [Node.act, if_pos h]) (leads_step .unavailable rfl ?_)
    rw [Run.stopLease, if_pos h]
    exact .refl
  · refine leads_step .unavailable (by rw [Node.act, if_neg h]) (leads_step .unavailable rfl
      (leads_step .unavailable rfl (leads_step .unavailable rfl ?_)))
    rw [Run.stopLease, if_neg h]
    exact .refl

theorem provisionLease_append (id : LeaseId) (ks ls : List ProvisionStep) (r : Run) :
    provisionLease w id (ks ++ ls) r = match provisionLease w id ks r with
      | (some err, r) => (some err, r)
      | (none, r) => provisionLease w id ls r := by
  induction ks generalizing r with
  | nil => rfl
  | cons k ks ih =>
    simp only [List.cons_append, provisionLease]
    split_ifs
    · exact ih _
    · exact ih _
    · split
      · rfl
      · exact ih _

/-- Only the container's id is stored with the lease. -/
theorem node_provisionLease (w : Outside) (id : LeaseId) (ks : List ProvisionStep)
    (hk : .storeContainer ∉ ks) (r : Run) : (provisionLease w id ks r).2.node = r.node := by
  induction ks generalizing r with
  | nil => rfl
  | cons k ks ih =>
    rw [List.mem_cons, not_or] at hk
    rw [provisionLease, if_neg (Ne.symm hk.1)]
    split_ifs
    · exact ih hk.2 r
    · split
      · rfl
      · exact ih hk.2 _

/-- The steps before the container is stored, and after. -/
theorem ProvisionStep.all_eq : all = [.createNetwork, .createVolume, .createProxy, .storeProxy,
    .connectProxy, .startProxy, .createContainer] ++
      .storeContainer :: [.startContainer, .containerIP, .awaitJupyter] := rfl

theorem leads_provision {err : Option String}
    (h : provisionLease w o.id ProvisionStep.all r = (err, r')) :
    cfg.Leads r.node (.provision o) r'.node (match err with
      | some err => .failLease o err
      | none => .activate o) := by
  rw [ProvisionStep.all_eq, provisionLease_append] at h
  have hbefore := node_provisionLease w o.id [.createNetwork, .createVolume, .createProxy,
    .storeProxy, .connectProxy, .startProxy, .createContainer] (by decide) r
  split at h
  · next err r₁ hp =>
    cases h
    rw [hp] at hbefore
    exact leads_step (.fail err) rfl (hbefore ▸ .refl)
  · next r₁ hp =>
    rw [hp] at hbefore
    have hafter := node_provisionLease w o.id [.startContainer, .containerIP, .awaitJupyter]
      (by decide) (r₁.apply (.lease o.id (.setContainer w.containerID)))
    rw [provisionLease, if_pos rfl] at h
    rw [h] at hafter
    refine leads_step (.ok w.containerID "") rfl ?_
    rw [← show r₁.node = r.node from hbefore, show r'.node = _ from hafter]
    cases err with
    | some err => exact leads_step (.fail err) rfl .refl
    | none => exact leads_step (.ok "" "") rfl .refl

/-- A specification that is in order for the node is refused when the host's part of it fails. -/
theorem validateLeaseSpec_fail {chunk : ℤ} {out : Outcome} (err : String)
    (h : validateLeaseSpec cfg.toNodeConfig s chunk out = none) :
    validateLeaseSpec cfg.toNodeConfig s chunk (.fail err) = some err := by
  unfold validateLeaseSpec at h ⊢
  split at h
  · cases h
  · rfl

theorem leads_startLease {err : Option String} (h : startLease cfg w o r = (err, r'))
    (hclock : w.claimedAt = r.node.clock) :
    cfg.Leads r.node (.startLease o) r'.node (match err with
      | some err => .done (.notStarted err)
      | none => .sign o) := by
  unfold startLease at h
  split at h
  · next err hv =>
    cases h
    exact leads_step w.recheckSpec (by rw [Node.act, hv]) .refl
  · next hv =>
    split at h
    · next err _ =>
      cases h
      exact leads_step (.fail ("mint a Jupyter token: " ++ err))
        (by rw [Node.act, validateLeaseSpec_fail _ hv]) .refl
    · refine leads_step w.recheckSpec (by rw [Node.act, hv]) ?_
      split_ifs at h with hb
      · cases h
        exact leads_step .unavailable (by rw [Node.act]; exact if_pos hb) .refl
      · refine leads_step .unavailable (by rw [Node.act]; exact if_neg hb) ?_
        rw [hclock] at h
        dsimp only at h
        split at h
        · next err r₁ hp =>
          cases h
          refine (leads_provision hp).trans ?_
          exact leads_step .unavailable rfl (leads_step .unavailable rfl
            (leads_step .unavailable rfl .refl))
        · next r₁ hp =>
          cases h
          exact (leads_provision hp).trans (leads_step .unavailable rfl .refl)

theorem leads_publishLease (cfg : PaymentConfig) (o : Opening) {err : Option String}
    (h : publishLease w o.id r = (err, r')) :
    cfg.Leads r.node (.sign o) r'.node (match err with
      | some err => .stopLease o.id .failed (.abort (.notPublished err))
      | none => .settleOpening o) := by
  unfold publishLease at h
  split at h
  · next err _ =>
    cases h
    exact leads_step (.fail err) rfl .refl
  · refine leads_step (.ok "" "") rfl ?_
    dsimp only at h
    split at h
    · next err _ =>
      cases h
      exact leads_step (.fail err) rfl .refl
    · refine leads_step (.ok "" "") rfl ?_
      split at h
      · next err _ =>
        cases h
        exact leads_step (.fail err) rfl .refl
      · cases h
        exact leads_step (.ok "" "") rfl .refl

/-! ### The answer -/

/-- The same session, or none. -/
def Reply.Answers (reply : Reply) (resp : Response) : Prop :=
  ∀ session, resp = .created session ↔ ∃ amount, reply = .created amount session

/-- By itself, the thread ends in this node, with the same session or none. -/
def PaymentConfig.Ends (cfg : PaymentConfig) (s : Node) (p : Pc) (x : Reply × Run) : Prop :=
  ∃ resp, cfg.Leads s p x.2.node (.done resp) ∧ x.1.Answers resp

theorem Reply.Refuses.answers {reply : Reply} (h : reply.Refuses) {resp : Response}
    (hresp : ∀ session, resp ≠ .created session) : reply.Answers resp := fun session =>
  iff_of_false (hresp session) fun ⟨amount, hcreated⟩ => h amount session hcreated

theorem ends_of_leads {p p' : Pc} (h : cfg.Leads s p s' p') (h' : cfg.Ends s' p' x) :
    cfg.Ends s p x := by
  obtain ⟨resp, hr, ha⟩ := h'
  exact ⟨resp, h.trans hr, ha⟩

theorem ends_step {p p' : Pc} {op : Op} (out : Outcome)
    (ha : s.act cfg.toNodeConfig p out = some (op, p')) (h : cfg.Ends (s.apply op) p' x) :
    cfg.Ends s p x :=
  ends_of_leads (leads_step out ha .refl) h

/-- A step that changes nothing. -/
theorem ends_skip {p p' : Pc} (out : Outcome)
    (ha : s.act cfg.toNodeConfig p out = some (.skip, p')) (h : cfg.Ends s p' x) : cfg.Ends s p x :=
  ends_step out ha h

theorem ends_fundSession {st : SettleResponse} (amount : String)
    (hclock : w.meteredAt = r.node.clock) :
    cfg.Ends (r.node.apply (.settle o.id o.amount)) (.markMetered o st.payer st.transaction)
      (.created amount (sessionCreated cfg.toNodeConfig
        ((fundSession cfg w o st o.amount r).node.lease o.id) o
        { id := o.id, amount := o.amount, payer := st.payer, transaction := st.transaction
          opening := some o }), fundSession cfg w o st o.amount r) := by
  simp only [fundSession, Run.node_apply, hclock]
  refine ends_step .unavailable rfl (ends_step .unavailable rfl (ends_step .unavailable rfl
    (ends_skip .unavailable rfl (ends_step .unavailable rfl (ends_skip .unavailable rfl ?_)))))
  refine ⟨_, .refl, fun session => ⟨?_, ?_⟩⟩
  · rintro ⟨⟩
    exact ⟨amount, rfl⟩
  · rintro ⟨-, ⟨⟩⟩
    rfl

theorem ends_settleOpening {payload : PaymentPayload} {reqs : PaymentRequirements}
    (h : settleOpening cfg q w o payload reqs r = x) (hamount : reqs.amount = toString o.amount)
    (hclock : w.meteredAt = r.node.clock) : cfg.Ends r.node (.settleOpening o) x := by
  have hrefuse : ∀ message, cfg.Ends r.node (.settleOpening o)
      (challengeFor cfg q w message (toString o.amount) (sessionDescription cfg o.chunk),
        (r.call (.settle ⟨x402Version, payload, reqs⟩ false)).stopLease o.id .failed) :=
      fun message => by
    refine ends_step (.fail message) rfl ⟨_, leads_stopLease cfg
      (r.call (.settle ⟨x402Version, payload, reqs⟩ false)) o.id .failed _,
      (challengeFor_refuses _ _ _).answers (by simp)⟩
  unfold settleOpening at h
  dsimp only at h
  split at h
  · subst h
    exact hrefuse _
  · next st _ =>
    split_ifs at h
    · rw [hamount, Decimal.parse_toString] at h
      subst h
      exact ends_step (.ok st.payer st.transaction) rfl
        (ends_fundSession (r := r.call (.settle ⟨x402Version, payload, reqs⟩ true)) _ hclock)
    · subst h
      exact hrefuse _

theorem ends_openSessionFor {seconds chunk : ℤ} {price : ℕ} {payload : PaymentPayload}
    {reqs : PaymentRequirements}
    (h : openSessionFor cfg q w seconds chunk price payload reqs r = x)
    (hamount : reqs.amount = toString ((price : ℤ) * chunk))
    (hclaimed : w.claimedAt = r.node.clock) (hmetered : w.meteredAt = r.node.clock) :
    cfg.Ends r.node (.mint seconds chunk price) x := by
  unfold openSessionFor at h
  split at h
  · subst h
    exact ends_step .unavailable rfl
      ⟨_, .refl, (Reply.refuses_response _).answers (by simp)⟩
  · next nonce _ =>
    let o : Opening := { id := r.node.nextLease, seconds, chunk, price, sessionID := "0x" ++ nonce
                         token := w.accessToken }
    have hmint : r.node.act cfg.toNodeConfig (.mint seconds chunk price)
        (.ok nonce w.accessToken) = some (.mint, .startLease o) := rfl
    refine ends_step _ hmint ?_
    dsimp only at h
    split at h
    · next err r₁ hstart =>
      subst h
      exact ⟨_, leads_startLease hstart hclaimed,
        (Reply.refuses_response _).answers (by simp [Response.notStarted])⟩
    · next r₁ hstart =>
      have hled := leads_startLease hstart hclaimed
      refine ends_of_leads hled ?_
      split at h
      · next err r₂ hpublish =>
        subst h
        exact ⟨_, (leads_publishLease cfg o hpublish).trans (leads_stopLease cfg r₂ _ .failed _),
          (Reply.refuses_response _).answers (by simp [Response.notPublished])⟩
      · next r₂ hpublish =>
        have hled' := leads_publishLease cfg o hpublish
        refine ends_of_leads hled' (ends_settleOpening h hamount ?_)
        rw [clock_leads hled', clock_leads hled]
        exact hmetered

/-! ### The handler -/

/-- **By itself, the thread does what the handler does.** -/
theorem ends_handleCreateSession {seconds : ℤ} (hseconds : ∀ n, q.seconds = .ok n → n = seconds)
    (hclaimed : w.claimedAt = s.clock) (hmetered : w.meteredAt = s.clock) :
    cfg.Ends s (.create seconds) (handleCreateSession cfg q w s) := by
  -- An answer before anything has been called.
  have hearly : ∀ (p : Pc) (out : Outcome) (resp : Response),
      s.act cfg.toNodeConfig p out = some (.skip, .done resp) →
      (∀ session, resp ≠ .created session) → cfg.Ends s p (.response resp, ⟨s, []⟩) :=
    fun p out resp ha hresp =>
      ends_skip out ha ⟨resp, .refl, (Reply.refuses_response resp).answers hresp⟩
  generalize h : handleCreateSession cfg q w s = x
  unfold handleCreateSession at h
  dsimp only at h
  split at h
  · next hs =>
    subst h
    exact hearly _ .unavailable _ (by rw [Node.act, if_pos hs]; simp)
      (by simp [Response.notEnabled])
  next hs =>
  split at h
  · next err _ =>
    subst h
    exact hearly _ (.fail err) _ (by rw [Node.act, if_neg hs]) (by simp)
  next n hn =>
  obtain rfl := hseconds n hn
  split at h
  · next err hv =>
    subst h
    exact hearly _ .unavailable _ (by rw [Node.act, if_neg hs, hv]; simp) (by simp)
  next hv =>
  refine ends_skip .unavailable (by rw [Node.act, if_neg hs, hv]; simp) ?_
  split at h
  · next err hspec =>
    subst h
    exact hearly _ w.checkSpec _ (by rw [Node.act, hspec]) (by simp)
  next hspec =>
  refine ends_skip w.checkSpec (by rw [Node.act, hspec]) ?_
  split at h
  · next hpaused =>
    subst h
    exact hearly _ .unavailable _ (by rw [Node.act, if_pos hpaused])
      (by simp [Response.notAccepting])
  next hpaused =>
  split at h
  · next err hprice =>
    subst h
    exact hearly _ .unavailable _ (by rw [Node.act, if_neg hpaused, hprice]) (by simp)
  next price hprice =>
  refine ends_skip .unavailable (by rw [Node.act, if_neg hpaused, hprice]) ?_
  split at h
  · next reply r₁ hpay =>
    obtain ⟨hnode, -, hreply⟩ := collectPayment_spec hpay
    subst h
    refine ends_step .unavailable rfl
      ⟨.unreachable, ?_, hreply.answers (by simp [Response.unreachable])⟩
    rw [show r₁.node = s from hnode]
    exact .refl
  · next payload reqs r₁ hpay =>
    obtain ⟨hnode, -, -, ⟨feePayer, rfl⟩, -⟩ := collectPayment_spec hpay
    obtain rfl : r₁.node = s := hnode
    exact ends_step (.ok "" "") rfl (ends_openSessionFor h rfl hclaimed hmetered)

/-- **What the handler does, the node can do**: next to threads that wait, while the clock stands
still. -/
theorem reachable_handleCreateSession {c : Machine.Config Node Pc} {seconds : ℤ}
    (hc : (nodeSystem cfg.toNodeConfig).Reachable c)
    (hseconds : ∀ n, q.seconds = .ok n → n = seconds) (hclaimed : w.claimedAt = c.shared.clock)
    (hmetered : w.meteredAt = c.shared.clock) :
    ∃ resp, (handleCreateSession cfg q w c.shared).1.Answers resp ∧
      (nodeSystem cfg.toNodeConfig).Reachable
        ⟨(handleCreateSession cfg q w c.shared).2.node, c.threads ++ [.done resp]⟩ := by
  obtain ⟨resp, hled, hanswers⟩ : cfg.Ends c.shared (.create seconds)
      (handleCreateSession cfg q w c.shared) := ends_handleCreateSession hseconds hclaimed hmetered
  refine ⟨resp, hanswers, ?_⟩
  have hstart : (nodeSystem cfg.toNodeConfig).Reachable
      ⟨c.shared, c.threads ++ [.create seconds]⟩ :=
    hc.step (l := .start (.create seconds)) trivial rfl
  have hrun := Machine.Leads.reachable (c := ⟨c.shared, c.threads ++ [.create seconds]⟩)
    (i := c.threads.length) hled (by simp) hstart
  simpa using hrun

end Mach402
