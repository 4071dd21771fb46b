import Mathlib.Data.List.Perm.Basic
import Mathlib.Data.List.Nodup
import Mach402.Library.Transition

/-!
# Background submissions

Messages are published one after the other.  Each is then submitted on its own, in the background:
it arrives at the topic after some time, or is dropped.

* `Outbox`: what has been published, what is under way, and what has arrived, in the order of
  arrival;
* `Outbox.Sound`: every message arrives once at most;
* `topic_of_run`: what arrives later was under way, or is published later;
* `Outbox.Ordered`, `messages_sublist`: the messages of one key arrive in the order in which they
  were published, if each of them is published after the submission of the last one has ended.
-/

namespace Mach402

/-- A message, with its place among those published. -/
structure Submission (α : Type) where
  place : ℕ
  message : α
  deriving DecidableEq, Repr

/-- What has been published, and what became of it. -/
structure Outbox (α : Type) where
  published : List α
  /-- The submissions under way. -/
  pending : List (Submission α)
  /-- The messages that have arrived, in the order of arrival. -/
  topic : List (Submission α)
  deriving DecidableEq, Repr

/-- A message is published, arrives, or is dropped. -/
inductive OutboxStep (α : Type)
  | publish (a : α)
  | arrive (m : Submission α)
  | drop (m : Submission α)
  deriving DecidableEq, Repr

namespace Outbox

variable {α : Type}

/-- Nothing has been published. -/
def empty : Outbox α := ⟨[], [], []⟩

/-- A message is published, and its submission starts. -/
def publish (b : Outbox α) (a : α) : Outbox α :=
  { b with published := b.published ++ [a], pending := b.pending ++ [⟨b.published.length, a⟩] }

variable [DecidableEq α]

/-- One step, if it can be taken. -/
def step (b : Outbox α) : OutboxStep α → Option (Outbox α)
  | .publish a => some (b.publish a)
  | .arrive m =>
    if m ∈ b.pending then some { b with pending := b.pending.erase m, topic := b.topic ++ [m] }
    else none
  | .drop m => if m ∈ b.pending then some { b with pending := b.pending.erase m } else none

end Outbox

/-- **The outbox** as a system. -/
def outbox (α : Type) [DecidableEq α] : System (Outbox α) (OutboxStep α) where
  init := .empty
  step := Outbox.step

namespace Outbox

variable {α : Type}

/-! ### Once at most -/

/-- A message is submitted once, and it is one that was published. -/
structure Sound (b : Outbox α) : Prop where
  nodup : (b.topic ++ b.pending).Nodup
  found : ∀ m ∈ b.topic ++ b.pending, b.published[m.place]? = some m.message

theorem Sound.lt {b : Outbox α} (h : b.Sound) {m : Submission α} (hm : m ∈ b.topic ++ b.pending) :
    m.place < b.published.length :=
  (List.getElem?_eq_some_iff.1 (h.found m hm)).1

theorem Sound.publish {b : Outbox α} (h : b.Sound) (a : α) : (b.publish a).Sound := by
  have hlist : (b.publish a).topic ++ (b.publish a).pending =
      (b.topic ++ b.pending) ++ [⟨b.published.length, a⟩] := by
    simp [Outbox.publish]
  refine ⟨?_, fun m hm => ?_⟩
  · rw [hlist, List.nodup_append]
    refine ⟨h.nodup, List.nodup_singleton _, fun m hm n hn hmn => ?_⟩
    rw [List.mem_singleton] at hn
    rw [hmn, hn] at hm
    exact Nat.lt_irrefl _ (h.lt hm)
  · rw [hlist, List.mem_append, List.mem_singleton] at hm
    rcases hm with hm | rfl
    · exact List.getElem?_append_left (h.lt hm) ▸ h.found m hm
    · simp [Outbox.publish]

/-- No message has two places, and no two messages one. -/
theorem Sound.places_nodup {b : Outbox α} (h : b.Sound) : (b.topic.map Submission.place).Nodup := by
  refine List.Nodup.map_on (fun m hm n hn hmn => ?_) (List.nodup_append.1 h.nodup).1
  have hm := h.found m (List.mem_append_left _ hm)
  have hn := h.found n (List.mem_append_left _ hn)
  rw [hmn, hn, Option.some.injEq] at hm
  cases m
  cases n
  simp_all

/-- Messages in the order of their places are some of those published, in their order. -/
theorem sublist_of_pairwise {xs : List α} {ms : List (Submission α)}
    (ho : ms.Pairwise fun m n => m.place < n.place)
    (hf : ∀ m ∈ ms, xs[m.place]? = some m.message) :
    (ms.map Submission.message).Sublist xs := by
  have hlt : ∀ m ∈ ms, m.place < xs.length := fun m hm =>
    (List.getElem?_eq_some_iff.1 (hf m hm)).1
  have hsub := List.map_getElem_sublist
    (ho.pmap hlt fun m hm n hn (hmn : m.place < n.place) =>
      show (⟨m.place, hm⟩ : Fin xs.length) < ⟨n.place, hn⟩ from hmn)
  rw [List.map_pmap] at hsub
  rw [← List.pmap_eq_map hlt, List.pmap_congr_left ms fun m hm h _ => ?_]
  · exact hsub
  · exact Option.some.inj ((List.getElem?_eq_getElem h).symm.trans (hf m hm)).symm

variable [DecidableEq α]

/-- **What is published after a step.** -/
theorem published_step {b b' : Outbox α} {l : OutboxStep α} (hs : b.step l = some b') :
    b'.published = match l with
      | .publish a => b.published ++ [a]
      | _ => b.published := by
  cases l with
  | publish a => cases hs; rfl
  | arrive m | drop m =>
    simp only [Outbox.step] at hs
    split_ifs at hs
    cases hs
    rfl

/-- A submission that arrives moves from one list to the other. -/
theorem perm_arrive {b : Outbox α} {m : Submission α} (hm : m ∈ b.pending) :
    ((b.topic ++ [m]) ++ b.pending.erase m).Perm (b.topic ++ b.pending) := by
  rw [List.append_assoc]
  exact (List.perm_cons_erase hm).symm.append_left b.topic

theorem Sound.step {b b' : Outbox α} (h : b.Sound) {l : OutboxStep α} (hs : b.step l = some b') :
    b'.Sound := by
  cases l with
  | publish a => cases hs; exact h.publish a
  | arrive m =>
    simp only [Outbox.step] at hs
    split_ifs at hs with hm
    cases hs
    have hp := perm_arrive hm
    exact ⟨hp.nodup_iff.2 h.nodup, fun n hn => h.found n (hp.mem_iff.1 hn)⟩
  | drop m =>
    simp only [Outbox.step] at hs
    split_ifs at hs
    cases hs
    have hsub : (b.topic ++ b.pending.erase m).Sublist (b.topic ++ b.pending) :=
      List.erase_sublist.append_left _
    exact ⟨h.nodup.sublist hsub, fun n hn => h.found n (hsub.subset hn)⟩

variable {C : Outbox α → OutboxStep α → Prop} {b b' : Outbox α}

theorem sound_of_reach (h : (outbox α).Reach C b) : b.Sound :=
  h.invariant ⟨List.nodup_nil, by simp [outbox, empty]⟩ fun _ _ _ _ hb _ hs => hb.step hs

/-! ### What arrives later -/

/-- Nothing is unpublished, and nothing that has arrived goes away. -/
structure Later (b b' : Outbox α) : Prop where
  published : ∃ new, b'.published = b.published ++ new
  topic : ∃ rest, b'.topic = b.topic ++ rest ∧
    ∀ m ∈ rest, m ∈ b.pending ∨ b.published.length ≤ m.place
  pending : ∀ m ∈ b'.pending, m ∈ b.pending ∨ b.published.length ≤ m.place

theorem Later.step {b₀ : Outbox α} (h : Later b₀ b) {l : OutboxStep α}
    (hs : b.step l = some b') : Later b₀ b' := by
  obtain ⟨⟨new, hnew⟩, ⟨rest, hrest, hold⟩, hpending⟩ := h
  cases l with
  | publish a =>
    cases hs
    refine ⟨⟨new ++ [a], by simp [publish, hnew]⟩, ⟨rest, hrest, hold⟩, fun m hm => ?_⟩
    rcases List.mem_append.1 hm with hm | hm
    · exact hpending m hm
    · rw [List.mem_singleton] at hm
      simp [hm, hnew]
  | arrive m =>
    simp only [Outbox.step] at hs
    split_ifs at hs with hm
    cases hs
    refine ⟨⟨new, hnew⟩, ⟨rest ++ [m], by simp [hrest], fun n hn => ?_⟩,
      fun n hn => hpending n (List.mem_of_mem_erase hn)⟩
    rcases List.mem_append.1 hn with hn | hn
    · exact hold n hn
    · rw [List.mem_singleton.1 hn]
      exact hpending m hm
  | drop m =>
    simp only [Outbox.step] at hs
    split_ifs at hs
    cases hs
    exact ⟨⟨new, hnew⟩, ⟨rest, hrest, hold⟩, fun n hn => hpending n (List.mem_of_mem_erase hn)⟩

/-- **What arrives later** was under way, or is published later. -/
theorem topic_of_run (h : (outbox α).Run C b b') : Later b b' :=
  h.invariant (I := Later b) ⟨⟨[], by simp⟩, ⟨[], by simp⟩, fun _ => Or.inl⟩
    fun _ _ _ hb _ hs => hb.step hs

/-! ### One after the other -/

section Key

variable {κ : Type} (key : α → κ) (k : κ)

/-- A message of this key is published once the submissions of the key have ended. -/
def Alone (b : Outbox α) : OutboxStep α → Prop
  | .publish a => key a = k → ∀ m ∈ b.pending, key m.message ≠ k
  | _ => True

instance [DecidableEq κ] (b : Outbox α) : (l : OutboxStep α) → Decidable (b.Alone key k l)
  | .publish a => inferInstanceAs (Decidable (key a = k → ∀ m ∈ b.pending, key m.message ≠ k))
  | .arrive _ | .drop _ => inferInstanceAs (Decidable True)

/-- The messages of the key are in their order, and one at most is under way. -/
structure Ordered (b : Outbox α) : Prop where
  places : (b.topic ++ b.pending).Pairwise fun m n =>
    key m.message = k → key n.message = k → m.place < n.place
  apart : b.pending.Pairwise fun m n => key m.message = k → key n.message ≠ k

variable {key k}

omit [DecidableEq α] in
theorem Ordered.publish (h : b.Ordered key k) (hb : b.Sound) {a : α}
    (hl : key a = k → ∀ m ∈ b.pending, key m.message ≠ k) : (b.publish a).Ordered key k := by
  refine ⟨?_, ?_⟩
  · show (b.topic ++ (b.pending ++ _)).Pairwise _
    rw [← List.append_assoc, List.pairwise_append]
    refine ⟨h.places, List.pairwise_singleton _ _, fun m hm n hn _ _ => ?_⟩
    rw [List.mem_singleton.1 hn]
    exact hb.lt hm
  · show (b.pending ++ _).Pairwise _
    rw [List.pairwise_append]
    refine ⟨h.apart, List.pairwise_singleton _ _, fun m hm n hn hkm => ?_⟩
    rw [List.mem_singleton.1 hn]
    exact fun hka => hl hka m hm hkm

theorem Ordered.arrive (h : b.Ordered key k) {m : Submission α} (hm : m ∈ b.pending) :
    Ordered key k { b with pending := b.pending.erase m, topic := b.topic ++ [m] } := by
  -- if it has the key, no other message under way has it
  have hcons : (m :: b.pending.erase m).Pairwise fun m n => key m.message = k → key n.message ≠ k :=
    (List.perm_cons_erase hm).pairwise h.apart fun hmn hn hm => hmn hm hn
  obtain ⟨htopic, hpending, hcross⟩ := List.pairwise_append.1 h.places
  refine ⟨?_, (List.pairwise_cons.1 hcons).2⟩
  rw [List.append_assoc, List.pairwise_append]
  refine ⟨htopic, ?_, fun n hn q hq => ?_⟩
  · rw [List.singleton_append, List.pairwise_cons]
    refine ⟨fun n hn hkm hkn => absurd hkn ((List.pairwise_cons.1 hcons).1 n hn hkm), ?_⟩
    exact hpending.sublist List.erase_sublist
  · exact hcross n hn q ((List.perm_cons_erase hm).mem_iff.2 hq)

theorem Ordered.step (h : b.Ordered key k) (hb : b.Sound) {l : OutboxStep α}
    (hl : b.Alone key k l) (hs : b.step l = some b') : b'.Ordered key k := by
  cases l with
  | publish a =>
    cases hs
    exact h.publish hb hl
  | arrive m =>
    simp only [Outbox.step] at hs
    split_ifs at hs with hm
    cases hs
    exact h.arrive hm
  | drop m =>
    simp only [Outbox.step] at hs
    split_ifs at hs
    cases hs
    exact ⟨h.places.sublist (List.erase_sublist.append_left _),
      h.apart.sublist List.erase_sublist⟩

theorem ordered_of_reach (h : (outbox α).Reach (Alone key k) b) : b.Ordered key k :=
  h.invariant ⟨List.Pairwise.nil, List.Pairwise.nil⟩ fun _ _ _ hr hb hl hs =>
    hb.step (sound_of_reach hr) hl hs

/-- **The messages of the key arrive in their order**, if at all. -/
theorem messages_sublist [DecidableEq κ] (h : (outbox α).Reach (Alone key k) b) :
    ((b.topic.filter fun m => key m.message = k).map Submission.message).Sublist
      (b.published.filter fun a => key a = k) := by
  have hb := sound_of_reach h
  have hplaces := (List.pairwise_append.1 (ordered_of_reach h).places).1
  have hsub : ((b.topic.filter fun m => key m.message = k).map Submission.message).Sublist
      b.published := sublist_of_pairwise ?_ fun m hm =>
    hb.found m (List.mem_append_left _ (List.mem_of_mem_filter hm))
  · have hfilter := hsub.filter fun a => decide (key a = k)
    rwa [List.filter_eq_self.2 fun a ha => ?_] at hfilter
    obtain ⟨m, hm, rfl⟩ := List.mem_map.1 ha
    exact (List.mem_filter.1 hm).2
  · refine (hplaces.filter _).imp_of_mem fun {m n} hm hn hmn => hmn ?_ ?_
    · simpa using (List.mem_filter.1 hm).2
    · simpa using (List.mem_filter.1 hn).2

end Key

end Outbox

end Mach402
