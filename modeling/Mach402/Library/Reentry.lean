import Mach402.Library.Transition

/-!
# Programs that call out

A program whose code hands control to code outside of it, in the middle of what it does.  The code
outside may call the program again, to any depth; when it gives control back it may also fail, and
then everything since is undone.

* `Program`: the entry points, what the code does at each of its points, and what else may happen to
  the state;
* `Frame`, `Config`: the stack of calls, each with the snapshots it may be rolled back to;
* `Outline`: an invariant that may speak of the points at which the calls in progress will go on,
  and `Outline.holds`: it holds of every state reached, and of every snapshot;
* `Within`: the steps until one call returns, with `returned_of_run`, what holds when it has, and
  `exists_return`, that it can.
-/

namespace Mach402

/-- What a program does at a point. -/
inductive Act (S P : Type)
  /-- It goes on at `p`. -/
  | next (s : S) (p : P)
  /-- Code outside takes over.  The program goes on at `ok`, or, once everything since is undone, at
  `fail`. -/
  | yield (s : S) (ok fail : P)
  /-- The call returns. -/
  | stop (s : S)
  /-- The call fails, and is undone. -/
  | revert

/-- A program: `start` is a call, or `none` if it fails at once; `env` tells whether it is between
two transactions that something happens. -/
structure Program (S C P E : Type) where
  start : S → C → Option (S × P)
  act : S → P → Act S P
  env : Bool → S → E → Option S

namespace Program

variable {S C P E : Type}

/-- A call in progress, or code outside; with snapshots of the state at its start and at the point
where the call handed over control. -/
inductive Frame (S P : Type)
  | running (entry : S) (p : P)
  | waiting (entry saved : S) (ok fail : P)
  | outside (saved : S)

/-- The code of the program is running. -/
def Frame.inside : Frame S P → Bool
  | .running .. => true
  | _ => false

/-- Where a call in progress goes on. -/
def Frame.point : Frame S P → Option P
  | .running _ p => some p
  | .waiting _ _ ok _ => some ok
  | .outside _ => none

/-- The state and the stack, the latest frame first. -/
structure Config (S P : Type) where
  state : S
  stack : List (Frame S P)

namespace Config

/-- The points of the calls in progress. -/
def points (c : Config S P) : List P := c.stack.filterMap Frame.point

/-- Code outside has control. -/
def yielded (c : Config S P) : Bool := c.stack.head?.all fun f => !f.inside

end Config

/-- What happens: a call; a step of the code; code outside is entered, returns or fails; something
else changes the state. -/
inductive Label (C E : Type)
  | call (c : C)
  | run
  | enter
  | ret (ok : Bool)
  | env (e : E)

/-- A step of the code in the frame on top. -/
def resume (G : Program S C P E) (s : S) : List (Frame S P) → Option (Config S P)
  | .running entry p :: fs =>
    match G.act s p with
    | .next s' p' => some ⟨s', .running entry p' :: fs⟩
    | .yield s' ok fail => some ⟨s', .waiting entry s ok fail :: fs⟩
    | .stop s' => some ⟨s', fs⟩
    | .revert => some ⟨entry, fs⟩
  | _ => none

/-- Code outside gives control back. -/
def handBack (ok : Bool) (s : S) : List (Frame S P) → Option (Config S P)
  | .waiting entry saved p q :: fs =>
    some (if ok then ⟨s, .running entry p :: fs⟩ else ⟨saved, .running entry q :: fs⟩)
  | .outside saved :: fs => some ⟨if ok then s else saved, fs⟩
  | _ => none

/-- One step.  A call that fails at once changes nothing, and is none. -/
def step (G : Program S C P E) (c : Config S P) : Label C E → Option (Config S P)
  | .call x =>
    if c.yielded then
      (G.start c.state x).map fun a => ⟨a.1, .running c.state a.2 :: c.stack⟩
    else none
  | .run => G.resume c.state c.stack
  | .enter => if c.yielded then some ⟨c.state, .outside c.state :: c.stack⟩ else none
  | .ret ok => handBack ok c.state c.stack
  | .env e =>
    if c.yielded then (G.env c.stack.isEmpty c.state e).map fun s => ⟨s, c.stack⟩ else none

/-- The program as a transition system. -/
def system (G : Program S C P E) (s : S) : System (Config S P) (Label C E) where
  init := ⟨s, []⟩
  step := G.step

/-- Of the other things that may happen, only these do. -/
def Only (K : E → Bool) (_ : Config S P) : Label C E → Prop
  | .env e => K e
  | _ => True

instance (K : E → Bool) (c : Config S P) : (l : Label C E) → Decidable (Only K c l)
  | .env e => inferInstanceAs (Decidable (K e = true))
  | .call _ | .run | .enter | .ret _ => inferInstanceAs (Decidable True)

/-! ### Invariants -/

end Program

/-- What a step keeps of an invariant.  `I ps s` is about the state `s` while the calls in progress
are to go on at the points `ps`.  Where the code hands over control, it holds with the point of a
success afterwards, and with the point of a failure before. -/
def Act.Keeps {S P : Type} (I : List P → S → Prop) (ps : List P) (s : S) : Act S P → Prop
  | .next s' p => I (p :: ps) s'
  | .yield s' ok fail => I (ok :: ps) s' ∧ I (fail :: ps) s
  | .stop s' => I ps s'
  | .revert => True

/-- An invariant may be weakened. -/
theorem Act.Keeps.mono {S P : Type} {I J : List P → S → Prop} {ps : List P} {s : S} {a : Act S P}
    (h : a.Keeps I ps s) (hIJ : ∀ qs s, I qs s → J qs s) : a.Keeps J ps s := by
  cases a with
  | next s' p => exact hIJ _ _ h
  | yield s' ok fail => exact ⟨hIJ _ _ h.1, hIJ _ _ h.2⟩
  | stop s' => exact hIJ _ _ h
  | revert => trivial

/-- What is kept of two invariants is kept of both. -/
theorem Act.Keeps.and {S P : Type} {I J : List P → S → Prop} {ps : List P} {s : S} {a : Act S P}
    (hI : a.Keeps I ps s) (hJ : a.Keeps J ps s) : a.Keeps (fun qs t => I qs t ∧ J qs t) ps s := by
  cases a with
  | next s' p => exact ⟨hI, hJ⟩
  | yield s' ok fail => exact ⟨⟨hI.1, hJ.1⟩, hI.2, hJ.2⟩
  | stop s' => exact ⟨hI, hJ⟩
  | revert => trivial

/-- The call does not revert, and has less of its own left to do, whichever way it goes on. -/
def Act.Proceeds {S P : Type} (rank : P → ℕ) (n : ℕ) : Act S P → Prop
  | .next _ p => rank p < n
  | .yield _ ok fail => rank ok < n ∧ rank fail < n
  | .stop _ => True
  | .revert => False

namespace Program

variable {S C P E : Type}

/-- An invariant of a program in which only `K` happens on its own. -/
structure Outline (G : Program S C P E) (s₀ : S) (K : E → Bool) where
  I : List P → S → Prop
  init : I [] s₀
  start : ∀ ps s c s' p, I ps s → G.start s c = some (s', p) → I (p :: ps) s'
  act : ∀ ps s p, I (p :: ps) s → (G.act s p).Keeps I ps s
  env : ∀ ps s idle e s', K e → I ps s → G.env idle s e = some s' → I ps s'

namespace Outline

variable {G : Program S C P E} {s₀ : S} {K : E → Bool} (L : Outline G s₀ K)

/-- What an outline says about the snapshots of a frame above calls that go on at `ps`. -/
def OnFrame (ps : List P) : Frame S P → Prop
  | .running entry _ => L.I ps entry
  | .waiting entry saved _ fail => L.I ps entry ∧ L.I (fail :: ps) saved
  | .outside saved => L.I ps saved

/-- What it says about the snapshots of a stack. -/
def OnStack : List (Frame S P) → Prop
  | [] => True
  | f :: fs => L.OnFrame (fs.filterMap Frame.point) f ∧ OnStack fs

/-- What it says about a configuration. -/
structure Holds (c : Config S P) : Prop where
  state : L.I c.points c.state
  stack : L.OnStack c.stack

theorem holds_resume {s : S} {fs : List (Frame S P)} {c : Config S P}
    (h : L.Holds ⟨s, fs⟩) (hc : G.resume s fs = some c) : L.Holds c := by
  cases fs with
  | nil => cases hc
  | cons f fs =>
    cases f with
    | running entry p =>
      obtain ⟨hs, hf, hfs⟩ := h
      have hkeeps := L.act _ s p hs
      simp only [resume] at hc
      cases ha : G.act s p with
      | next s' p' =>
        rw [ha] at hc hkeeps
        cases hc
        exact ⟨hkeeps, hf, hfs⟩
      | yield s' ok fail =>
        rw [ha] at hc hkeeps
        cases hc
        exact ⟨hkeeps.1, ⟨hf, hkeeps.2⟩, hfs⟩
      | stop s' =>
        rw [ha] at hc hkeeps
        cases hc
        exact ⟨hkeeps, hfs⟩
      | revert =>
        rw [ha] at hc
        cases hc
        exact ⟨hf, hfs⟩
    | waiting entry saved ok fail | outside saved => cases hc

theorem holds_handBack {s : S} {ok : Bool} {fs : List (Frame S P)} {c : Config S P}
    (h : L.Holds ⟨s, fs⟩) (hc : handBack ok s fs = some c) : L.Holds c := by
  cases fs with
  | nil => cases hc
  | cons f fs =>
    obtain ⟨hs, hf, hfs⟩ := h
    cases f with
    | running entry p => cases hc
    | waiting entry saved p q =>
      cases ok <;> cases hc
      · exact ⟨hf.2, hf.1, hfs⟩
      · exact ⟨hs, hf.1, hfs⟩
    | outside saved =>
      cases ok <;> cases hc
      · exact ⟨hf, hfs⟩
      · exact ⟨hs, hfs⟩

/-- **The invariant holds of every state reached**, and of every snapshot a call may be rolled back
to, whatever the code outside does. -/
theorem holds {c : Config S P} (h : (G.system s₀).Reach (Only K) c) : L.Holds c := by
  have h0 : L.Holds ⟨s₀, []⟩ := ⟨L.init, trivial⟩
  refine h.invariant (I := L.Holds) h0 fun c l c' _ hc hK hs => ?_
  cases l with
  | call x =>
    simp only [system, step] at hs
    split_ifs at hs
    obtain ⟨⟨s', p⟩, ha, rfl⟩ := Option.map_eq_some_iff.1 hs
    exact ⟨L.start _ _ x s' p hc.state ha, hc.state, hc.stack⟩
  | run => exact L.holds_resume hc hs
  | enter =>
    simp only [system, step] at hs
    split_ifs at hs
    cases hs
    exact ⟨hc.state, hc.state, hc.stack⟩
  | ret ok => exact L.holds_handBack hc hs
  | env e =>
    simp only [system, step] at hs
    split_ifs at hs
    obtain ⟨s', ha, rfl⟩ := Option.map_eq_some_iff.1 hs
    exact ⟨L.env _ _ _ e s' hK hc.state ha, hc.stack⟩

/-- What holds whatever happens on its own holds of every reachable state. -/
theorem holds_of_reachable (L : Outline G s₀ fun _ => true) {c : Config S P}
    (h : (G.system s₀).Reachable c) : L.Holds c :=
  L.holds (h.mono fun _ l _ => by cases l <;> trivial)

end Outline
end Program

/-! ### One call -/

/-- The call stays at points of `Q`, and does not revert; `R` holds when it returns. -/
def Act.Stays {S P : Type} (Q : P → Prop) (R : S → Prop) : Act S P → Prop
  | .next _ p => Q p
  | .yield _ ok fail => Q ok ∧ Q fail
  | .stop s => R s
  | .revert => False

namespace Program

variable {S C P E : Type}

/-- The call is at a point of `Q`, or will go on at one. -/
def Frame.Stays (Q : P → Prop) : Frame S P → Prop
  | .running _ p => Q p
  | .waiting _ _ ok fail => Q ok ∧ Q fail
  | .outside _ => False

/-- The calls above `base` have not all returned. -/
def Within (base : List (Frame S P)) (c : Config S P) (_ : Label C E) : Prop :=
  base.length < c.stack.length

section Call

variable {G : Program S C P E} {s₀ : S} {base : List (Frame S P)} {Q : P → Prop} {R : S → Prop}

/-- The first call above `base` is in progress, or it is over. -/
def InCall (Q : P → Prop) (R : S → Prop) (base : List (Frame S P)) (c : Config S P) : Prop :=
  (∃ fs f, c.stack = fs ++ f :: base ∧ f.Stays Q) ∨ c.stack = base ∧ R c.state

theorem inCall_push {c : Config S P} (h : InCall Q R base c) (hw : base.length < c.stack.length)
    (s : S) (f : Frame S P) : InCall Q R base ⟨s, f :: c.stack⟩ := by
  rcases h with ⟨fs, g, hstack, hg⟩ | ⟨hstack, -⟩
  · exact Or.inl ⟨f :: fs, g, by simp [hstack], hg⟩
  · exact absurd hw (by simp [hstack])

/-- A step of the code is about the frame on top. -/
theorem resume_top {s : S} {f : Frame S P} {fs : List (Frame S P)} {c : Config S P}
    (h : G.resume s (f :: fs) = some c) : c.stack = fs ∨ ∃ f', c.stack = f' :: fs := by
  cases f with
  | running entry p =>
    simp only [resume] at h
    split at h <;> cases h
    · exact Or.inr ⟨_, rfl⟩
    · exact Or.inr ⟨_, rfl⟩
    · exact Or.inl rfl
    · exact Or.inl rfl
  | waiting | outside => cases h

theorem handBack_top {ok : Bool} {s : S} {f : Frame S P} {fs : List (Frame S P)} {c : Config S P}
    (h : handBack ok s (f :: fs) = some c) : c.stack = fs ∨ ∃ f', c.stack = f' :: fs := by
  cases f with
  | running => cases h
  | waiting =>
    cases ok <;> cases h
    · exact Or.inr ⟨_, rfl⟩
    · exact Or.inr ⟨_, rfl⟩
  | outside =>
    cases h
    exact Or.inl rfl

/-- What is about a frame above the call is not about the call. -/
theorem inCall_above {f : Frame S P} {fs : List (Frame S P)} (hf : f.Stays Q) {c : Config S P}
    (h : c.stack = fs ++ f :: base ∨ ∃ g', c.stack = g' :: (fs ++ f :: base)) :
    InCall Q R base c := by
  rcases h with h | ⟨g', h⟩
  · exact Or.inl ⟨fs, f, h, hf⟩
  · exact Or.inl ⟨g' :: fs, f, h, hf⟩

/-- A step of the call itself. -/
theorem inCall_resume {s entry : S} {p : P} {c : Config S P} (hstays : (G.act s p).Stays Q R)
    (h : G.resume s (.running entry p :: base) = some c) : InCall Q R base c := by
  simp only [resume] at h
  cases ha : G.act s p with
  | next s' p' =>
    rw [ha] at h hstays
    cases h
    exact Or.inl ⟨[], _, rfl, hstays⟩
  | yield s' ok fail =>
    rw [ha] at h hstays
    cases h
    exact Or.inl ⟨[], _, rfl, hstays⟩
  | stop s' =>
    rw [ha] at h hstays
    cases h
    exact Or.inr ⟨rfl, hstays⟩
  | revert =>
    rw [ha] at hstays
    exact hstays.elim

/-- The call gets control back. -/
theorem inCall_handBack {ok : Bool} {s : S} {f : Frame S P} {c : Config S P} (hf : f.Stays Q)
    (h : handBack ok s (f :: base) = some c) : InCall Q R base c := by
  cases f with
  | running => cases h
  | waiting entry saved p q =>
    cases ok <;> cases h
    · exact Or.inl ⟨[], _, rfl, hf.2⟩
    · exact Or.inl ⟨[], _, rfl, hf.1⟩
  | outside => exact hf.elim

/-- **What holds once the call has returned**, whatever the code outside does in between. -/
theorem returned_of_run
    (hact : ∀ s entry p, (G.system s₀).Reachable ⟨s, .running entry p :: base⟩ → Q p →
      (G.act s p).Stays Q R) {c d : Config S P} (hc : (G.system s₀).Reachable c)
    (h0 : InCall Q R base c) (h : (G.system s₀).Run (Within base) c d) :
    (G.system s₀).Reachable d ∧ InCall Q R base d := by
  refine h.invariant (I := fun d => (G.system s₀).Reachable d ∧ InCall Q R base d) ⟨hc, h0⟩
    fun d l d' ⟨hd, hI⟩ hw hs => ⟨hd.step trivial hs, ?_⟩
  obtain ⟨s, fs⟩ := d
  cases l with
  | call x =>
    simp only [system, step] at hs
    split_ifs at hs
    obtain ⟨a, -, rfl⟩ := Option.map_eq_some_iff.1 hs
    exact inCall_push hI hw _ _
  | enter =>
    simp only [system, step] at hs
    split_ifs at hs
    cases hs
    exact inCall_push hI hw _ _
  | env e =>
    simp only [system, step] at hs
    split_ifs at hs
    obtain ⟨s', -, rfl⟩ := Option.map_eq_some_iff.1 hs
    rcases hI with hI | ⟨hstack, -⟩
    · exact Or.inl hI
    · exact absurd hw (by simp [Within, show fs = base from hstack])
  | run =>
    rcases hI with ⟨gs, f, hstack, hf⟩ | ⟨hstack, -⟩
    · obtain rfl : fs = gs ++ f :: base := hstack
      cases gs with
      | cons g gs => exact inCall_above hf (resume_top hs)
      | nil =>
        cases f with
        | running entry p => exact inCall_resume (hact s entry p hd hf) hs
        | waiting | outside => cases hs
    · exact absurd hw (by simp [Within, show fs = base from hstack])
  | ret ok =>
    rcases hI with ⟨gs, f, hstack, hf⟩ | ⟨hstack, -⟩
    · obtain rfl : fs = gs ++ f :: base := hstack
      cases gs with
      | cons g gs => exact inCall_above hf (handBack_top hs)
      | nil => exact inCall_handBack hf hs
    · exact absurd hw (by simp [Within, show fs = base from hstack])

/-- **The call can return**, if each of its steps leaves less to do. -/
theorem exists_return {rank : P → ℕ}
    (hact : ∀ s entry p, (G.system s₀).Reachable ⟨s, .running entry p :: base⟩ → Q p →
      (G.act s p).Stays Q R ∧ (G.act s p).Proceeds rank (rank p)) {s entry : S} {p : P}
    (hc : (G.system s₀).Reachable ⟨s, .running entry p :: base⟩) (hQ : Q p) :
    ∃ d, (G.system s₀).Run (Within base) ⟨s, .running entry p :: base⟩ d ∧ d.stack = base := by
  induction hn : rank p using Nat.strongRecOn generalizing s p with
  | _ n ih =>
    obtain ⟨hstays, hproceeds⟩ := hact s entry p hc hQ
    have hstep : ∀ c, G.resume s (.running entry p :: base) = some c →
        (G.system s₀).Step (Within base) ⟨s, .running entry p :: base⟩ c := fun c hr =>
      ⟨.run, Nat.lt_succ_self _, hr⟩
    cases ha : G.act s p with
    | next s' p' =>
      rw [ha] at hstays hproceeds
      have hr : G.resume s (.running entry p :: base) = some ⟨s', .running entry p' :: base⟩ := by
        simp only [resume, ha]
      have hc' : (G.system s₀).Reachable ⟨s', .running entry p' :: base⟩ :=
        hc.step (l := .run) trivial hr
      obtain ⟨d, hd, hbase⟩ := ih (rank p') (hn ▸ hproceeds) hc' hstays rfl
      exact ⟨d, .head (hstep _ hr) hd, hbase⟩
    | yield s' ok fail =>
      rw [ha] at hstays hproceeds
      have hr : G.resume s (.running entry p :: base) =
          some ⟨s', .waiting entry s ok fail :: base⟩ := by
        simp only [resume, ha]
      -- the code outside gives control back at once
      have hback : (G.system s₀).Step (Within base) ⟨s', .waiting entry s ok fail :: base⟩
          ⟨s', .running entry ok :: base⟩ := ⟨.ret true, Nat.lt_succ_self _, rfl⟩
      have hwait : (G.system s₀).Reachable ⟨s', .waiting entry s ok fail :: base⟩ :=
        hc.step (l := .run) trivial hr
      have hc' : (G.system s₀).Reachable ⟨s', .running entry ok :: base⟩ :=
        hwait.step (l := .ret true) trivial rfl
      obtain ⟨d, hd, hbase⟩ := ih (rank ok) (hn ▸ hproceeds.1) hc' hstays.1 rfl
      exact ⟨d, .head (hstep _ hr) (.head hback hd), hbase⟩
    | stop s' =>
      have hr : G.resume s (.running entry p :: base) = some ⟨s', base⟩ := by
        simp only [resume, ha]
      exact ⟨_, .single (hstep _ hr), rfl⟩
    | revert =>
      rw [ha] at hstays
      exact hstays.elim

end Call
end Program
end Mach402
