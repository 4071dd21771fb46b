import Mach402.Agent.NodeInvariant
import Mach402.Library.Submissions

/-!
# The audit trail

`Publish` submits every message from a goroutine of its own, in the background, and the topic
orders the messages by their arrival.

* `publisher`: the messages published, those under way, and the topic;
* `trail`: the node together with its publisher, and `outbox_of_reach`: what the node publishes is
  a sequence of calls to `Publish`;
* `trail_order`: every message reaches the topic once at most, and after what had reached it when
  it was published; a session of which each message is published after its last submission has
  ended has its messages in order.
-/

namespace Mach402

/-- **The publisher** and its topic: any messages, and any scheduling of the submissions. -/
abbrev publisher : System (Outbox AuditMessage) (OutboxStep AuditMessage) := outbox AuditMessage

/-- The node, and what becomes of the messages it publishes. -/
structure Trail where
  node : Machine.Config Node Pc
  outbox : Outbox AuditMessage

/-- A step of the node, or the end of the submission of a message. -/
inductive TrailStep
  | node (l : Machine.Label Outcome Request Event)
  | arrive (place : ℕ)
  | drop (place : ℕ)

/-- The submission under way of the message at this place. -/
def Outbox.under (b : Outbox AuditMessage) (place : ℕ) : Option (Submission AuditMessage) :=
  b.pending.find? fun m => m.place = place

/-- **The node with its publisher**: what a step adds to the audit log is published. -/
def trail (cfg : NodeConfig) : System Trail TrailStep where
  init := ⟨(nodeSystem cfg).init, publisher.init⟩
  step t
    | .node l => ((node cfg).step t.node l).map fun c =>
      ⟨c, (c.shared.audit.drop t.node.shared.audit.length).foldl Outbox.publish t.outbox⟩
    | .arrive place => (t.outbox.under place).bind fun m =>
      (t.outbox.step (.arrive m)).map fun b => { t with outbox := b }
    | .drop place => (t.outbox.under place).bind fun m =>
      (t.outbox.step (.drop m)).map fun b => { t with outbox := b }

/-! ### What the node publishes -/

section Reach

variable {cfg : NodeConfig}

/-- A step publishes one message at most. -/
theorem audit_step {c c' : Machine.Config Node Pc} {l : Machine.Label Outcome Request Event}
    (h : (node cfg).step c l = some c') :
    c'.shared.audit = c.shared.audit ∨ ∃ m, c'.shared.audit = c.shared.audit ++ [m] := by
  cases l with
  | env e => cases h; cases e <;> exact Or.inl rfl
  | start r => cases h; exact Or.inl rfl
  | run i out =>
    obtain ⟨p, op, p', -, -, rfl⟩ := Machine.step_run h
    show (c.shared.apply op).audit = _ ∨ ∃ m, (c.shared.apply op).audit = _
    rw [Node.audit_apply]
    cases op with
    | publish message => exact Or.inr ⟨message, rfl⟩
    | _ => exact Or.inl rfl

/-- **The node makes calls to `Publish`**, and the submissions are scheduled in any way. -/
theorem outbox_of_reach {C : Trail → TrailStep → Prop} {t : Trail} (h : (trail cfg).Reach C t) :
    publisher.Reachable t.outbox ∧ t.outbox.published = t.node.shared.audit := by
  refine h.invariant (I := fun t => publisher.Reachable t.outbox ∧
    t.outbox.published = t.node.shared.audit) ⟨.init, rfl⟩ fun t l t' _ ⟨hb, hp⟩ _ hs => ?_
  cases l with
  | node l =>
    obtain ⟨c, hc, rfl⟩ := Option.map_eq_some_iff.1 hs
    dsimp only
    rcases audit_step hc with ha | ⟨m, ha⟩
    · rw [ha, List.drop_length]
      exact ⟨hb, hp⟩
    · rw [ha, List.drop_left]
      exact ⟨hb.step (l := .publish m) trivial rfl, by simp [Outbox.publish, hp]⟩
  | arrive place =>
    obtain ⟨m, -, hs⟩ := Option.bind_eq_some_iff.1 hs
    obtain ⟨b, hb', rfl⟩ := Option.map_eq_some_iff.1 hs
    exact ⟨hb.step (l := .arrive m) trivial hb', (Outbox.published_step hb').trans hp⟩
  | drop place =>
    obtain ⟨m, -, hs⟩ := Option.bind_eq_some_iff.1 hs
    obtain ⟨b, hb', rfl⟩ := Option.map_eq_some_iff.1 hs
    exact ⟨hb.step (l := .drop m) trivial hb', (Outbox.published_step hb').trans hp⟩

end Reach

/-! ### The order of the topic -/

/-- **What the order of the trail is.**  A message reaches the topic once at most, and it is one
that was published; whatever reaches it later was under way or is published later; and if every
message of one session is published after the session's last submission has ended, those that reach
the topic are in the order in which they were published. -/
theorem trail_order {b : Outbox AuditMessage} (h : publisher.Reachable b) :
    (b.topic.map Submission.place).Nodup ∧
    (∀ m ∈ b.topic, b.published[m.place]? = some m.message) ∧
    (∀ b', publisher.Run System.Any b b' → ∃ rest, b'.topic = b.topic ++ rest ∧
      ∀ m ∈ rest, m ∈ b.pending ∨ b.published.length ≤ m.place) ∧
    (∀ session, publisher.Reach (Outbox.Alone AuditMessage.sessionID session) b →
      ((b.topic.filter fun m => m.message.sessionID = session).map Submission.message).Sublist
        (b.published.filter fun a => a.sessionID = session)) := by
  have hb := Outbox.sound_of_reach h
  exact ⟨hb.places_nodup, fun m hm => hb.found m (List.mem_append_left _ hm),
    fun b' hr => (Outbox.topic_of_run hr).topic, fun _ ho => Outbox.messages_sublist ho⟩

/-- The checkpoint and the closing record of a session. -/
def checkpoint : AuditMessage :=
  { kind := .sessionBurn, jobID := 0, sessionID := "0xab", payer := "ab", amountTinybars := 15,
    refundTinybars := some 45, pricePerSecond := some 1, elapsedSecs := 15 }

/-- The last message of a session. -/
def closing : AuditMessage :=
  { kind := .sessionSettled, jobID := 0, sessionID := "0xab", transaction := "ab", payer := "ab",
    amountTinybars := 15, refundTinybars := some 45, pricePerSecond := some 1, elapsedSecs := 15 }

/-- The checkpoint arrives before the session is closed, and stays the first. -/
theorem trail_order_closing :
    ∃ b, publisher.Reachable b ∧ b.topic = [⟨0, checkpoint⟩, ⟨1, closing⟩] ∧
      (b.topic.map Submission.place).Nodup ∧
      [checkpoint, closing].Sublist (b.published.filter fun a => a.sessionID = "0xab") := by
  obtain ⟨b, hb, hp⟩ := System.exists_reach (S := publisher)
    (C := Outbox.Alone AuditMessage.sessionID "0xab")
    (p := fun b => decide (b.topic = [⟨0, checkpoint⟩, ⟨1, closing⟩]))
    [.publish checkpoint, .arrive ⟨0, checkpoint⟩, .publish closing, .arrive ⟨1, closing⟩]
    (by decide +kernel)
  have htopic := of_decide_eq_true hp
  obtain ⟨hnodup, -, -, hsub⟩ := trail_order hb.reachable
  refine ⟨b, hb.reachable, htopic, hnodup, ?_⟩
  have hsession := hsub "0xab" hb
  rw [htopic] at hsession
  exact hsession

/-- A session is metered, and stopped by its renter. -/
def meteredAndStopped : List TrailStep :=
  (openSession ++ .env (.advance 15000000000) :: .start .sweep :: turns 1 10 ++
    .start (.stop sessionPath "t") :: turns 2 15).map .node

/-- **The closing record can arrive before a checkpoint**: both are under way at once. -/
theorem not_trail_order :
    ¬ ∀ (cfg : NodeConfig) (t : Trail), (trail cfg).Reachable t →
      t.outbox.topic.Pairwise fun m n =>
        m.message.sessionID = n.message.sessionID → m.place < n.place := by
  intro h
  obtain ⟨t, ht, hp⟩ := System.exists_reach (S := trail .small) (C := System.Any)
    (p := fun t => decide (t.outbox.topic = [⟨3, closing⟩, ⟨2, checkpoint⟩]))
    (meteredAndStopped ++ [.arrive 3, .arrive 2]) (by decide +kernel)
  have hpairs := h .small t ht
  rw [of_decide_eq_true hp] at hpairs
  exact absurd hpairs (by decide)

end Mach402
