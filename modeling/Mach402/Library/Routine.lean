import Mach402.Library.Transition

/-!
# Programs that make calls

A program makes calls of a service and goes on with their replies.  Any number of programs run at
once over what they share; the environment may change it between two calls, and a crash ends all
programs at once.

* `Routine`: a program as the tree of its calls; it is a monad;
* `Service`: what the calls, the environment and a crash do to what is shared, and `Service.system`,
  its runs;
* `Safe`: every call of a program keeps `I` and changes the state as `G` says, whatever happens
  between its calls, as long as the state is changed as `N` allows; `Safe.bind`;
* `Keeps.reach`, `Keeps.spares`: if every program that is started is safe, then `I` holds in every
  state reached, and programs change it as `G` says;
* `alone`, `alone_forEach`: a program by itself, with a service that always replies in one way.
-/

namespace Mach402

variable {S C O J E α β : Type} {R : C → Type}

/-- A program that makes calls `c : C`, of which the replies are in `R c`, and returns an `α`. -/
inductive Routine (C : Type) (R : C → Type) (α : Type) : Type
  | pure (a : α)
  | call (c : C) (k : R c → Routine C R α)

namespace Routine

/-- One program after another. -/
def bind : Routine C R α → (α → Routine C R β) → Routine C R β
  | .pure a, f => f a
  | .call c k, f => .call c fun r => (k r).bind f

instance : Monad (Routine C R) where
  pure := .pure
  bind := bind

/-- One call. -/
def lift (c : C) : Routine C R (R c) := .call c .pure

/-- One program for each entry of a list, in its order. -/
def forEach (f : β → Routine C R Unit) : List β → Routine C R Unit
  | [] => .pure ()
  | b :: bs => (f b).bind fun _ => forEach f bs

/-- A program by itself. -/
def alone (respond : S → (c : C) → S × R c) : Routine C R α → S → S × α
  | .pure a, s => (s, a)
  | .call c k, s => (k (respond s c).2).alone respond (respond s c).1

section Alone

variable {respond : S → (c : C) → S × R c} {s : S}

@[simp] theorem alone_pure (a : α) : (pure a : Routine C R α).alone respond s = (s, a) := rfl

theorem alone_bind (p : Routine C R α) (f : α → Routine C R β) :
    (p.bind f).alone respond s =
      (f (p.alone respond s).2).alone respond (p.alone respond s).1 := by
  induction p generalizing s with
  | pure a => rfl
  | call c k ih => exact ih _

/-- **A loop.**  If every round keeps `I`, brings about `P` of its own entry and keeps it of the
others, then `I` and all of `P` hold after the loop. -/
theorem alone_forEach {I : S → Prop} {P : β → S → Prop} {f : β → Routine C R Unit} {bs : List β}
    (hround : ∀ b ∈ bs, ∀ t, I t → I ((f b).alone respond t).1 ∧ P b ((f b).alone respond t).1 ∧
      ∀ b', P b' t → P b' ((f b).alone respond t).1) (h0 : I s) :
    I ((forEach f bs).alone respond s).1 ∧ (∀ b ∈ bs, P b ((forEach f bs).alone respond s).1) ∧
      ∀ b', P b' s → P b' ((forEach f bs).alone respond s).1 := by
  induction bs generalizing s with
  | nil => exact ⟨h0, List.forall_mem_nil _, fun _ h => h⟩
  | cons b bs ih =>
    obtain ⟨hI, hP, hkeep⟩ := hround b List.mem_cons_self s h0
    rw [forEach, alone_bind]
    obtain ⟨hI', hP', hkeep'⟩ := ih (fun b' hb' => hround b' (List.mem_cons_of_mem _ hb')) hI
    refine ⟨hI', fun b' hb' => ?_, fun b' h => hkeep' b' (hkeep b' h)⟩
    rcases List.mem_cons.1 hb' with rfl | hb'
    · exact hkeep' b' hP
    · exact hP' b' hb'

end Alone

end Routine

/-- What is shared, and who changes it: a call with its outcome, a request that starts a program,
the environment, and a crash. -/
structure Service (S C : Type) (R : C → Type) (O J E : Type) where
  serve : S → (c : C) → O → Option (S × R c)
  start : S → J → Option (S × Routine C R Unit)
  env : S → E → Option S
  crash : S → S

namespace Service

/-- What is shared, and what is left of the programs. -/
structure Config (S C : Type) (R : C → Type) where
  shared : S
  threads : List (Routine C R Unit)

/-- What happens. -/
inductive Label (O J E : Type)
  | env (e : E)
  | start (j : J)
  | run (i : ℕ) (o : O)
  | crash

/-- One step, if it can be taken. -/
def step (V : Service S C R O J E) (c : Config S C R) : Label O J E → Option (Config S C R)
  | .env e => (V.env c.shared e).map fun s => { c with shared := s }
  | .start j => (V.start c.shared j).map fun a => ⟨a.1, c.threads ++ [a.2]⟩
  | .run i o =>
    match c.threads[i]? with
    | some (.call q k) =>
      (V.serve c.shared q o).map fun a => ⟨a.1, c.threads.set i (k a.2)⟩
    | _ => none
  | .crash => some ⟨V.crash c.shared, []⟩

/-- The runs from `s`. -/
def system (V : Service S C R O J E) (s : S) : System (Config S C R) (Label O J E) where
  init := ⟨s, []⟩
  step := V.step

variable {V : Service S C R O J E} {I : S → Prop} {N G : S → S → Prop}

/-- **A call of a program** is what one of its steps is. -/
theorem step_run {c c' : Config S C R} {i : ℕ} {o : O} (h : V.step c (.run i o) = some c') :
    ∃ (q : C) (k : R q → Routine C R Unit) (s : S) (r : R q), c.threads[i]? = some (.call q k) ∧
      V.serve c.shared q o = some (s, r) ∧ c' = ⟨s, c.threads.set i (k r)⟩ := by
  unfold step at h
  simp only at h
  split at h
  case h_1 q k hp =>
    obtain ⟨⟨s, r⟩, hs, rfl⟩ := Option.map_eq_some_iff.1 h
    exact ⟨q, k, s, r, hp, hs, rfl⟩
  case h_2 => cases h

/-- Every call keeps `I` and changes the state as `G` says, and so do all that follow it, whatever
happens in between that `N` allows.  The program returns with `Q`. -/
def Safe (V : Service S C R O J E) (I : S → Prop) (N G : S → S → Prop) (Q : S → α → Prop) :
    Routine C R α → S → Prop
  | .pure a, s => Q s a
  | .call c k, s => ∀ t o u r, N s t → I t → V.serve t c o = some (u, r) →
      I u ∧ G t u ∧ Safe V I N G Q (k r) u

/-- What others may do at any time, and programs may do themselves. -/
structure Rely (N G : S → S → Prop) : Prop where
  refl : ∀ s, N s s
  trans : ∀ s t u, N s t → N t u → N s u
  own : ∀ s t, G s t → N s t

variable {Q : S → α → Prop} {Q' : S → β → Prop}

/-- Safety is not lost while others run. -/
theorem Safe.later (hN : Rely N G) (hQ : ∀ s t a, N s t → Q s a → Q t a) {p : Routine C R α}
    {s t : S} (h : V.Safe I N G Q p s) (hst : N s t) : V.Safe I N G Q p t := by
  cases p with
  | pure a => exact hQ s t a hst h
  | call c k =>
    intro u o v r htu hI hs
    exact h u o v r (hN.trans s t u hst htu) hI hs

/-- **One program after another.** -/
theorem Safe.bind (hN : Rely N G) {p : Routine C R α} {f : α → Routine C R β} {s : S}
    (h : V.Safe I N G Q p s) (hf : ∀ t a, N s t → Q t a → V.Safe I N G Q' (f a) t) :
    V.Safe I N G Q' (p.bind f) s := by
  induction p generalizing s with
  | pure a => exact hf s a (hN.refl s) h
  | call c k ih =>
    intro t o u r hst hI hs
    obtain ⟨hu, htu, hk⟩ := h t o u r hst hI hs
    refine ⟨hu, htu, ih r hk fun v a huv hQ => ?_⟩
    exact hf v a (hN.trans s t v hst (hN.trans t u v (hN.own t u htu) huv)) hQ

/-- One program after another, the second only if the first does not fail. -/
theorem Safe.bindExcept {ε : Type} {Q : S → Except ε α → Prop} {Q' : S → Except ε β → Prop}
    (hN : Rely N G) {p : ExceptT ε (Routine C R) α} {f : α → ExceptT ε (Routine C R) β} {s : S}
    (h : V.Safe I N G Q p.run s)
    (hf : ∀ t a, N s t → Q t (.ok a) → V.Safe I N G Q' (f a).run t)
    (he : ∀ t e, Q t (.error e) → Q' t (.error e)) : V.Safe I N G Q' (p >>= f).run s := by
  refine h.bind hN fun t r hst hQ => ?_
  cases r with
  | ok a => exact hf t a hst hQ
  | error e => exact he t e hQ

/-- One round after another. -/
theorem Safe.forEach (hN : Rely N G) {f : β → Routine C R Unit} {s : S} {bs : List β}
    (hf : ∀ b ∈ bs, ∀ t, N s t → V.Safe I N G (fun _ _ => True) (f b) t) :
    V.Safe I N G (fun _ _ => True) (Routine.forEach f bs) s := by
  induction bs generalizing s with
  | nil => trivial
  | cons b bs ih =>
    refine (hf b List.mem_cons_self s (hN.refl s)).bind hN fun t _ hst _ => ?_
    exact ih fun b' hb' u htu =>
      hf b' (List.mem_cons_of_mem _ hb') u (hN.trans s t u hst htu)

/-- **The obligations.**  The environment and what starts a program keep `I` and change the state as
`N` allows, the program is safe, and `I` survives a crash. -/
structure Keeps (V : Service S C R O J E) (I : S → Prop) (N G : S → S → Prop) : Prop
    extends Rely N G where
  env : ∀ s e t, I s → V.env s e = some t → I t ∧ N s t
  start : ∀ s j t p, I s → V.start s j = some (t, p) →
    I t ∧ G s t ∧ V.Safe I N G (fun _ _ => True) p t
  crash : ∀ s, I s → I (V.crash s) ∧ G s (V.crash s)

/-- Every program is safe. -/
def Config.AllSafe (V : Service S C R O J E) (I : S → Prop) (N G : S → S → Prop)
    (c : Config S C R) : Prop :=
  I c.shared ∧ ∀ p ∈ c.threads, V.Safe I N G (fun _ _ => True) p c.shared

/-- A step that is not the environment's. -/
def Label.IsOwn : Label O J E → Prop
  | .env _ => False
  | _ => True

/-- **One step** keeps all safe, and changes the state as `G` says if it is not the
environment's. -/
theorem Keeps.step (hV : V.Keeps I N G) {c c' : Config S C R} {l : Label O J E}
    (hc : c.AllSafe V I N G) (h : V.step c l = some c') :
    c'.AllSafe V I N G ∧ (l.IsOwn → G c.shared c'.shared) := by
  obtain ⟨hI, hsafe⟩ := hc
  have hlater : ∀ t, N c.shared t → ∀ p ∈ c.threads, V.Safe I N G (fun _ _ => True) p t :=
    fun t ht p hp => (hsafe p hp).later hV.toRely (fun _ _ _ _ _ => trivial) ht
  cases l with
  | env e =>
    obtain ⟨t, ht, rfl⟩ := Option.map_eq_some_iff.1 h
    obtain ⟨hIt, hN⟩ := hV.env _ _ _ hI ht
    exact ⟨⟨hIt, hlater t hN⟩, fun hown => hown.elim⟩
  | start j =>
    obtain ⟨⟨t, p⟩, ht, rfl⟩ := Option.map_eq_some_iff.1 h
    obtain ⟨hIt, hG, hp⟩ := hV.start _ _ _ _ hI ht
    refine ⟨⟨hIt, fun q hq => ?_⟩, fun _ => hG⟩
    rcases List.mem_append.1 hq with hq | hq
    · exact hlater t (hV.own _ _ hG) q hq
    · cases List.mem_singleton.1 hq
      exact hp
  | run i o =>
    obtain ⟨q, k, s, r, hp, hs, rfl⟩ := step_run h
    have hcall : V.Safe I N G (fun _ _ => True) (.call q k) c.shared :=
      hsafe _ (List.mem_of_getElem? hp)
    obtain ⟨hIs, hG, hk⟩ := hcall c.shared o s r (hV.refl c.shared) hI hs
    refine ⟨⟨hIs, fun p hp' => ?_⟩, fun _ => hG⟩
    rcases List.mem_or_eq_of_mem_set hp' with hp' | rfl
    · exact hlater s (hV.own _ _ hG) p hp'
    · exact hk
  | crash =>
    cases h
    obtain ⟨hIc, hG⟩ := hV.crash _ hI
    exact ⟨⟨hIc, fun p hp => by cases hp⟩, fun _ => hG⟩

/-- **Safe programs keep the invariant**, whatever their order, and whenever they crash. -/
theorem Keeps.reach (hV : V.Keeps I N G) {s : S} (h0 : I s) {c : Config S C R}
    (h : (V.system s).Reachable c) : c.AllSafe V I N G := by
  refine h.invariant (I := fun d => d.AllSafe V I N G) ⟨h0, fun p hp => ?_⟩
    fun d l d' _ hd _ hs => (hV.step hd hs).1
  cases hp

/-- **What every program spares** is there after any run without the environment. -/
theorem Keeps.spares (hV : V.Keeps I N G) {P : S → Prop} (hP : ∀ s t, G s t → P s → P t) {s : S}
    {c c' : Config S C R} (hc : c.AllSafe V I N G)
    (h : (V.system s).Run (fun _ l => l.IsOwn) c c') (h0 : P c.shared) : P c'.shared := by
  have hboth := System.Run.invariant (I := fun d => d.AllSafe V I N G ∧ P d.shared) h ⟨hc, h0⟩
    fun d l d' ⟨hd, hPd⟩ hown hs => ?_
  · exact hboth.2
  · obtain ⟨hd', hG⟩ := hV.step hd hs
    exact ⟨hd', hP _ _ (hG hown) hPd⟩

end Service
end Mach402
