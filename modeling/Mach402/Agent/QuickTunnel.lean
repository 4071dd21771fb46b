import Mach402.Library.Search
import Mach402.Library.Transition
import Mathlib.Data.List.Induction

/-!
# The hostname of a quick tunnel

`awaitQuickURL` waits for what a goroutine finds in the output of cloudflared: the first hostname of
a quick tunnel, and then a connection to the edge.

* `findString`, `findString_eq`: the leftmost match of `quickURLPattern`;
* `Wait`, `waiting`: the goroutine that reads, the channel, and the call that waits;
* `Up`: a hostname has been printed, and on its line or a later one a connection is reported;
* `url_up_iff`: what is returned is up, unless the scan ends with a hostname that is not.
-/

namespace Mach402
namespace QuickTunnel

/-! ### The pattern -/

/-- `[a-z0-9-]`. -/
def isHostChar (c : Char) : Bool :=
  ('a' ≤ c && c ≤ 'z') || ('0' ≤ c && c ≤ '9') || c == '-'

/-- How an address begins. -/
def scheme : List Char := "https://".toList

/-- How the host of a quick tunnel ends. -/
def domain : List Char := ".trycloudflare.com".toList

/-- A match of the pattern at the start.  What follows the host is no host character. -/
def matchHere (cs : List Char) : Option (List Char) :=
  let host := (cs.drop scheme.length).takeWhile isHostChar
  if scheme.isPrefixOf cs ∧ host ≠ [] ∧
      domain.isPrefixOf ((cs.drop scheme.length).dropWhile isHostChar) then
    some (scheme ++ host ++ domain)
  else none

/-- `quickURLPattern.FindString`: the leftmost match, or nothing. -/
def findString (line : String) : String :=
  String.ofList ((Search.find matchHere line.toList).getD [])

/-- What the pattern matches. -/
def IsHostname (m : List Char) : Prop :=
  ∃ host, host ≠ [] ∧ (∀ c ∈ host, isHostChar c = true) ∧ m = scheme ++ host ++ domain

/-! ### Waiting -/

/-- The goroutine that reads, the channel `found`, and the call. -/
structure Wait where
  assignedUrl : String
  reported : Bool
  /-- The channel's buffer. -/
  found : Option String
  closed : Bool
  /-- The scan has ended, and the goroutine with it. -/
  ended : Bool
  /-- The context is done. -/
  timedOut : Bool
  /-- A record of what has been printed. -/
  lines : List String
  /-- What the call has returned. -/
  result : Option (Except String String)

/-- Before the first line. -/
def Wait.initial : Wait where
  assignedUrl := ""
  reported := false
  found := none
  closed := false
  ended := false
  timedOut := false
  lines := []
  result := none

/-- The line reports a connection to the edge. -/
def registers (line : String) : Bool :=
  Search.contains "Registered tunnel connection".toList line.toList ||
    Search.contains "connection=".toList line.toList

/-- The most that `scanner.Buffer` allows a line and its end. -/
def maxTokenSize : ℕ := 1 <<< 20

/-- A line is too long for the buffer; with its end it would not fit. -/
def tooLong (line : String) : Bool := maxTokenSize ≤ line.utf8ByteSize

/-- `scanner.Text`: the line without a carriage return at its end. -/
def dropCR (line : String) : String :=
  if line.toList.getLast? = some '\r' then String.ofList line.toList.dropLast else line

/-- What happens: cloudflared prints a line, the output ends, the time is over, or the call goes on,
with what is in the channel or without. -/
inductive Event
  | line (l : String)
  | eof
  | timeout
  | receive
  | expire
  deriving DecidableEq

/-- A line is printed. -/
def Wait.print (w : Wait) (l : String) : Wait := { w with lines := w.lines ++ [dropCR l] }

/-- A line is scanned. -/
def Wait.scan (w : Wait) (l : String) : Wait :=
  let assignedUrl := if w.assignedUrl = "" then findString (dropCR l) else w.assignedUrl
  let w := { w.print l with assignedUrl }
  if assignedUrl ≠ "" ∧ w.reported = false ∧ registers (dropCR l) = true then
    { w with found := some assignedUrl, reported := true }
  else w

/-- The scan ends. -/
def Wait.finish (w : Wait) : Wait :=
  let w := { w with ended := true }
  if w.assignedUrl ≠ "" ∧ w.reported = false then
    { w with found := some w.assignedUrl, reported := true }
  else if w.reported = false then { w with closed := true }
  else w

/-- The call receives from the channel. -/
def Wait.receive (w : Wait) : Option Wait :=
  match w.found with
  | some url => some { w with found := none, result := some (.ok url) }
  | none =>
    if w.closed then
      some { w with
        result := some (.error "cloudflared exited before it published a tunnel hostname") }
    else none

/-- One step of the two sides, if it can be taken. -/
def Wait.step (w : Wait) : Event → Option Wait
  | .line l =>
    -- after the scan nobody reads what is printed
    if w.ended then some (w.print l)
    else if tooLong l then some (w.print l).finish
    else some (w.scan l)
  | .eof => if w.ended then none else some w.finish
  | .timeout => if w.timedOut then none else some { w with timedOut := true }
  | .receive => if w.result.isNone then w.receive else none
  | .expire =>
    if w.result.isNone ∧ w.timedOut then
      some { w with
        result := some (.error "cloudflared did not publish a tunnel hostname in time") }
    else none

/-- **The wait.**  Lines, the end of the output and that of the time come in any order, and the
output may end for the scanner before all that is printed has been read. -/
def waiting : System Wait Event where
  init := .initial
  step := Wait.step

/-! ### What a renter is charged for -/

/-- Where a renter reaches the lease. -/
structure Endpoints where
  sshHost : String
  jupyterUrl : String
  mode : String

/-- `pointQuickLocked`, after the wait; whether the context lasts three more seconds. -/
def pointQuickLocked (awaited : Except String String) (lasts : Bool) : Except String Endpoints :=
  match awaited with
  | .error e => .error e
  | .ok url =>
    if lasts then .ok { sshHost := "", jupyterUrl := url, mode := "quick" }
    else .error "context canceled"

/-- `Reachable`: whether a URL answers, within the deadline. -/
def reachable (answers : String → Bool) (ep : Endpoints) : Bool :=
  ep.jupyterUrl ≠ "" && answers (ep.jupyterUrl ++ "/api")

/-! ### What is up -/

/-- **The tunnel is up**: the URL is the first hostname printed, and its line or a later one reports
a connection. -/
def Up (lines : List String) (url : String) : Prop :=
  ∃ before line after, lines = before ++ line :: after ∧ (∀ l ∈ before, findString l = "") ∧
    findString line = url ∧ url ≠ "" ∧ ∃ l ∈ line :: after, registers l = true

/-- **What is right to return.** -/
structure Wait.Right (w : Wait) : Prop where
  up : ∀ url, w.result = some (.ok url) → Up w.lines url
  /-- Without a connection there is an error. -/
  error : w.result ≠ none → (¬ ∃ url, Up w.lines url) → ∃ e, w.result = some (.error e)
  /-- What a renter is charged for is up. -/
  charged : ∀ r lasts answers ep, w.result = some r → pointQuickLocked r lasts = .ok ep →
    reachable answers ep = true → Up w.lines ep.jupyterUrl

/-- The scan has ended with a hostname, and no connection has been reported for it. -/
def Wait.Premature (w : Wait) : Prop :=
  w.ended = true ∧ w.assignedUrl ≠ "" ∧ ¬ Up w.lines w.assignedUrl

/-- With this the scan ends: with the output, or with a line that is too long. -/
def Event.endsScan : Event → Bool
  | .eof => true
  | .line l => tooLong l
  | _ => false

/-- What has been printed after this. -/
def Wait.printed (w : Wait) : Event → List String
  | .line l => w.lines ++ [dropCR l]
  | _ => w.lines

/-- The scan does not end with a hostname for which no connection has been reported. -/
def Orderly (w : Wait) (e : Event) : Prop :=
  e.endsScan = true → w.assignedUrl ≠ "" → Up (w.printed e) w.assignedUrl

section Pattern

variable {cs m : List Char}

theorem matchHere_eq_some : matchHere cs = some m ↔ IsHostname m ∧ m <+: cs := by
  unfold matchHere
  constructor
  · intro h
    simp only at h
    split_ifs at h with hm
    obtain ⟨hscheme, hhost, hdomain⟩ := hm
    rw [List.isPrefixOf_iff_prefix] at hscheme hdomain
    cases h
    refine ⟨⟨_, hhost, fun c hc => List.all_eq_true.1 List.all_takeWhile c hc, rfl⟩, ?_⟩
    obtain ⟨rest, rfl⟩ := hscheme
    rw [List.drop_left] at hdomain ⊢
    obtain ⟨after, hafter⟩ := hdomain
    refine ⟨after, ?_⟩
    rw [List.append_assoc, List.append_assoc, hafter, List.takeWhile_append_dropWhile]
  · rintro ⟨⟨host, hne, hhost, rfl⟩, after, rfl⟩
    have htail : domain ++ after = '.' :: (domain.tail ++ after) := rfl
    have hdot : isHostChar '.' = false := by decide
    have hdrop : (scheme ++ host ++ domain ++ after).drop scheme.length =
        host ++ (domain ++ after) := by
      rw [List.append_assoc, List.append_assoc, List.drop_left]
    have htake : (host ++ (domain ++ after)).takeWhile isHostChar = host := by
      rw [List.takeWhile_append_of_pos hhost, htail, List.takeWhile_cons_of_neg (by simp [hdot]),
        List.append_nil]
    have hrest : (host ++ (domain ++ after)).dropWhile isHostChar = domain ++ after := by
      rw [List.dropWhile_append_of_pos hhost, htail, List.dropWhile_cons_of_neg (by simp [hdot])]
    have hscheme : scheme.isPrefixOf (scheme ++ host ++ domain ++ after) = true := by
      rw [List.isPrefixOf_iff_prefix, List.append_assoc, List.append_assoc]
      exact List.prefix_append _ _
    have hdomain : domain.isPrefixOf (domain ++ after) = true := by
      rw [List.isPrefixOf_iff_prefix]
      exact List.prefix_append _ _
    simp only [hdrop, htake, hrest]
    exact if_pos ⟨hscheme, hne, hdomain⟩

/-- **The leftmost match.** -/
theorem findString_eq {line url : String} (h : url ≠ "") : findString line = url ↔
    ∃ before after, line.toList = before ++ url.toList ++ after ∧ IsHostname url.toList ∧
      ∀ before' m after', line.toList = before' ++ m ++ after' → IsHostname m →
        before.length ≤ before'.length := by
  have hfind : findString line = url ↔ Search.find matchHere line.toList = some url.toList := by
    unfold findString
    cases hf : Search.find matchHere line.toList with
    | none =>
      simp [h.symm]
    | some m =>
      rw [Option.getD_some, Option.some.injEq]
      constructor
      · rintro rfl
        exact String.toList_ofList.symm
      · rintro rfl
        exact String.ofList_toList
  rw [hfind, Search.find_eq_some]
  constructor
  · rintro ⟨before, rest, hl, hm, hfirst⟩
    obtain ⟨hname, after, rfl⟩ := matchHere_eq_some.1 hm
    refine ⟨before, after, by rw [hl, List.append_assoc], hname, fun before' m after' hl' hm' => ?_⟩
    by_contra hlt
    have hnone := hfirst before' (m ++ after') (by rw [hl', List.append_assoc]) (by omega)
    rw [matchHere_eq_some.2 ⟨hm', List.prefix_append _ _⟩] at hnone
    cases hnone
  · rintro ⟨before, after, hl, hname, hfirst⟩
    refine ⟨before, url.toList ++ after, by rw [hl, List.append_assoc],
      matchHere_eq_some.2 ⟨hname, List.prefix_append _ _⟩, fun before' rest hl' hlt => ?_⟩
    cases hr : matchHere rest with
    | none => rfl
    | some m =>
      obtain ⟨hm, after', rfl⟩ := matchHere_eq_some.1 hr
      have hle := hfirst before' m after' (by rw [hl', List.append_assoc]) hm
      omega

end Pattern

/-! ### What has been printed -/

/-- The first hostname, or nothing. -/
def firstHostname (lines : List String) : String :=
  lines.foldl (fun url l => if url = "" then findString l else url) ""

section Lines

variable {lines : List String} {l url : String}

theorem firstHostname_concat (lines : List String) (l : String) :
    firstHostname (lines ++ [l]) =
      if firstHostname lines = "" then findString l else firstHostname lines := by
  rw [firstHostname, List.foldl_append]
  rfl

theorem firstHostname_eq_empty : firstHostname lines = "" ↔ ∀ l ∈ lines, findString l = "" := by
  induction lines using List.reverseRec with
  | nil => simp [firstHostname]
  | append_singleton ls l ih =>
    rw [firstHostname_concat, List.forall_mem_append, ← ih, List.forall_mem_singleton]
    by_cases h : firstHostname ls = ""
    · simp [h]
    · simp [h]

/-- What the first hostname is. -/
theorem firstHostname_eq (h : url ≠ "") : firstHostname lines = url ↔
    ∃ before line after, lines = before ++ line :: after ∧ (∀ l ∈ before, findString l = "") ∧
      findString line = url := by
  induction lines using List.reverseRec with
  | nil => simp [firstHostname, h.symm]
  | append_singleton ls l ih =>
    rw [firstHostname_concat]
    constructor
    · intro hl
      by_cases hls : firstHostname ls = ""
      · rw [if_pos hls] at hl
        exact ⟨ls, l, [], rfl, firstHostname_eq_empty.1 hls, hl⟩
      · rw [if_neg hls] at hl
        obtain ⟨before, line, after, rfl, hbefore, hline⟩ := ih.1 hl
        exact ⟨before, line, after ++ [l], by simp, hbefore, hline⟩
    · rintro ⟨before, line, after, hl, hbefore, hline⟩
      rcases List.eq_nil_or_concat' after with rfl | ⟨after, x, rfl⟩
      · obtain ⟨rfl, hx⟩ := List.append_inj' hl rfl
        cases hx
        rw [if_pos (firstHostname_eq_empty.2 hbefore)]
        exact hline
      · rw [← List.cons_append, ← List.append_assoc] at hl
        obtain ⟨rfl, -⟩ := List.append_inj' hl rfl
        have hls := ih.2 ⟨before, line, after, rfl, hbefore, hline⟩
        rw [hls, if_neg h]

theorem Up.first (h : Up lines url) : firstHostname lines = url ∧ url ≠ "" := by
  obtain ⟨before, line, after, hl, hbefore, hline, hne, -⟩ := h
  exact ⟨(firstHostname_eq hne).2 ⟨before, line, after, hl, hbefore, hline⟩, hne⟩

theorem Up.concat (h : Up lines url) (l : String) : Up (lines ++ [l]) url := by
  obtain ⟨before, line, after, rfl, hbefore, hline, hne, l', hl', hr⟩ := h
  refine ⟨before, line, after ++ [l], by simp, hbefore, hline, hne, l', ?_, hr⟩
  rw [← List.cons_append]
  exact List.mem_append_left _ hl'

/-- A line that reports a connection. -/
theorem up_of_registers (hr : registers l = true) (hne : firstHostname (lines ++ [l]) ≠ "") :
    Up (lines ++ [l]) (firstHostname (lines ++ [l])) := by
  obtain ⟨before, line, after, hl, hbefore, hline⟩ := (firstHostname_eq hne).1 rfl
  refine ⟨before, line, after, hl, hbefore, hline, hne, l, ?_, hr⟩
  have hlast := congrArg List.getLast? hl
  rw [List.getLast?_concat, List.getLast?_append_cons] at hlast
  exact List.mem_of_getLast? hlast.symm

end Lines

/-! ### The invariant -/

/-- **What the goroutine and the channel stand for.** -/
structure Wait.Sound (w : Wait) : Prop where
  assigned : w.ended = false → w.assignedUrl = firstHostname w.lines
  reported : w.reported = true →
    w.assignedUrl ≠ "" ∧ (w.ended = false → Up w.lines w.assignedUrl)
  ended : w.ended = true → w.reported = true ∨ w.closed = true
  closed : w.closed = true → w.ended = true ∧ w.assignedUrl = ""
  found : ∀ url, w.found = some url → url = w.assignedUrl ∧ w.reported = true
  full : w.result = none → w.reported = true → w.found = some w.assignedUrl
  returned : ∀ url, w.result = some (.ok url) → url = w.assignedUrl ∧ w.reported = true

section Sound

variable {w w' : Wait} {e : Event} {l url : String}

theorem Wait.Sound.init : Wait.initial.Sound where
  assigned _ := rfl
  reported h := by cases h
  ended h := by cases h
  closed h := by cases h
  found _ h := by cases h
  full _ h := by cases h
  returned _ h := by cases h

/-- The channel is closed at the end. -/
theorem Wait.Sound.not_closed (h : w.Sound) (hend : w.ended = false) : w.closed = false := by
  by_contra hc
  rw [(h.closed (by simpa using hc)).1] at hend
  cases hend

/-- A line that nobody reads. -/
theorem Wait.Sound.print (h : w.Sound) (hend : w.ended = true) (l : String) :
    (w.print l).Sound where
  assigned hf := by
    rw [show (w.print l).ended = w.ended from rfl, hend] at hf
    cases hf
  reported hr := ⟨(h.reported hr).1, fun hf => by
    rw [show (w.print l).ended = w.ended from rfl, hend] at hf
    cases hf⟩
  ended := h.ended
  closed := h.closed
  found := h.found
  full := h.full
  returned := h.returned

theorem Wait.Sound.scan (h : w.Sound) (hend : w.ended = false) (l : String) : (w.scan l).Sound := by
  have hclosed := h.not_closed hend
  have hassigned : (if w.assignedUrl = "" then findString (dropCR l) else w.assignedUrl) =
      firstHostname (w.lines ++ [dropCR l]) := by
    rw [firstHostname_concat, h.assigned hend]
  simp only [Wait.scan, Wait.print, hassigned]
  split_ifs with hnew
  · obtain ⟨hne, hrep, hreg⟩ := hnew
    exact
      { assigned := fun _ => rfl
        reported := fun _ => ⟨hne, fun _ => up_of_registers hreg hne⟩
        ended := fun he => Or.inl rfl
        closed := fun hc => by rw [hclosed] at hc; cases hc
        found := fun url hf => by cases hf; exact ⟨rfl, rfl⟩
        full := fun _ _ => rfl
        returned := fun url hr => by
          have hr' := (h.returned url hr).2
          rw [hrep] at hr'
          cases hr' }
  · -- once reported, the hostname stays
    have hkeep : w.reported = true →
        firstHostname (w.lines ++ [dropCR l]) = w.assignedUrl := fun hr => by
      rw [← hassigned, if_neg (h.reported hr).1]
    refine
      { assigned := fun _ => rfl
        reported := fun hr => ?_
        ended := fun he => h.ended he
        closed := fun hc => by rw [hclosed] at hc; cases hc
        found := fun url hf => ?_
        full := fun hnone hr => ?_
        returned := fun url hret => ?_ }
    · obtain ⟨hne, hup⟩ := h.reported hr
      show firstHostname (w.lines ++ [dropCR l]) ≠ "" ∧
        (w.ended = false → Up (w.lines ++ [dropCR l]) _)
      rw [hkeep hr]
      exact ⟨hne, fun he => (hup he).concat _⟩
    · obtain ⟨hurl, hr⟩ := h.found url hf
      exact ⟨hurl.trans (hkeep hr).symm, hr⟩
    · exact (h.full hnone hr).trans (congrArg some (hkeep hr).symm)
    · obtain ⟨hurl, hr⟩ := h.returned url hret
      exact ⟨hurl.trans (hkeep hr).symm, hr⟩

/-- The scan ends, whatever has been printed by then. -/
theorem Wait.Sound.finish (h : w.Sound) (hend : w.ended = false) (ls : List String) :
    Wait.Sound (Wait.finish { w with lines := ls }) := by
  have hclosed := h.not_closed hend
  simp only [Wait.finish]
  split_ifs with hnew hrep
  · exact
      { assigned := fun hf => by cases hf
        reported := fun _ => ⟨hnew.1, fun he => by cases he⟩
        ended := fun _ => Or.inl rfl
        closed := fun hc => by rw [hclosed] at hc; cases hc
        found := fun url hf => by cases hf; exact ⟨rfl, rfl⟩
        full := fun _ _ => rfl
        returned := fun url hr => ⟨(h.returned url hr).1, rfl⟩ }
  · have hempty : w.assignedUrl = "" := by
      by_contra hne
      exact hnew ⟨hne, hrep⟩
    exact
      { assigned := fun hf => by cases hf
        reported := fun hr => by rw [hrep] at hr; cases hr
        ended := fun _ => Or.inr rfl
        closed := fun _ => ⟨rfl, hempty⟩
        found := h.found
        full := h.full
        returned := h.returned }
  · exact
      { assigned := fun hf => by cases hf
        reported := fun hr => ⟨(h.reported hr).1, fun he => by cases he⟩
        ended := fun _ => Or.inl (by simpa using hrep)
        closed := fun hc => by rw [hclosed] at hc; cases hc
        found := h.found
        full := h.full
        returned := h.returned }

/-- What the call receives. -/
theorem receive_eq_some (h : w.receive = some w') :
    (∃ url, w.found = some url ∧ w' = { w with found := none, result := some (.ok url) }) ∨
      w.found = none ∧ w.closed = true ∧ w' = { w with
        result := some (.error "cloudflared exited before it published a tunnel hostname") } := by
  unfold Wait.receive at h
  split at h
  · next url hf =>
    cases h
    exact Or.inl ⟨url, hf, rfl⟩
  · next hf =>
    split_ifs at h with hc
    cases h
    exact Or.inr ⟨hf, hc, rfl⟩

/-- A call that fails has returned no hostname. -/
theorem Wait.Sound.fails (h : w.Sound) (text : String) :
    Wait.Sound { w with result := some (.error text) } where
  assigned := h.assigned
  reported := h.reported
  ended := h.ended
  closed := h.closed
  found := h.found
  full hnone := by cases hnone
  returned _ hr := by cases hr

theorem Wait.Sound.step (h : w.Sound) (hs : w.step e = some w') : w'.Sound := by
  cases e with
  | line l =>
    simp only [Wait.step] at hs
    split_ifs at hs with hend hlong
    · cases hs
      exact h.print hend l
    · cases hs
      exact h.finish (by simpa using hend) _
    · cases hs
      exact h.scan (by simpa using hend) l
  | eof =>
    simp only [Wait.step] at hs
    split_ifs at hs with hend
    cases hs
    exact h.finish (by simpa using hend) w.lines
  | timeout =>
    simp only [Wait.step] at hs
    split_ifs at hs
    cases hs
    exact ⟨h.assigned, h.reported, h.ended, h.closed, h.found, h.full, h.returned⟩
  | receive =>
    simp only [Wait.step] at hs
    split_ifs at hs with hnone
    rcases receive_eq_some hs with ⟨url, hf, rfl⟩ | ⟨-, hc, rfl⟩
    · exact
        { assigned := h.assigned
          reported := h.reported
          ended := h.ended
          closed := h.closed
          found := fun _ hf' => by cases hf'
          full := fun hnone' => by cases hnone'
          returned := fun url' hr => by cases hr; exact h.found url hf }
    · exact h.fails _
  | expire =>
    simp only [Wait.step] at hs
    split_ifs at hs
    cases hs
    exact h.fails _

theorem sound_of_reachable (h : waiting.Reachable w) : w.Sound :=
  h.invariant .init fun _ _ _ _ ih _ hs => ih.step hs

end Sound

/-! ### What is returned -/

section Returned

variable {w w' : Wait} {e : Event} {l url : String}

theorem right_of_up (h : ∀ url, w.result = some (.ok url) → Up w.lines url) : w.Right where
  up := h
  error hresult hup := by
    cases hr : w.result with
    | none => exact absurd hr hresult
    | some r =>
      cases r with
      | error e => exact ⟨e, rfl⟩
      | ok url => exact absurd ⟨url, h url hr⟩ hup
  charged r lasts answers ep hr hp ha := by
    cases r with
    | error e => cases hp
    | ok url =>
      simp only [pointQuickLocked] at hp
      split_ifs at hp
      cases hp
      exact h url hr

theorem scan_result (w : Wait) (l : String) :
    (w.scan l).result = w.result ∧ (w.scan l).ended = w.ended := by
  simp only [Wait.scan]
  split_ifs <;> exact ⟨rfl, rfl⟩

/-- What the end of the scan leaves as it is. -/
theorem finish_result (w : Wait) : w.finish.result = w.result ∧ w.finish.lines = w.lines ∧
    w.finish.assignedUrl = w.assignedUrl := by
  simp only [Wait.finish]
  split_ifs <;> exact ⟨rfl, rfl, rfl⟩

/-- **A step returns a URL** only by receiving it. -/
theorem step_returns (hnone : w.result = none) (hs : w.step e = some w')
    (hr : w'.result = some (.ok url)) : w.found = some url ∧ w'.lines = w.lines := by
  cases e with
  | line l =>
    have hkeep : w'.result = w.result := by
      simp only [Wait.step] at hs
      split_ifs at hs
      · cases hs
        rfl
      · cases hs
        exact (finish_result (w.print l)).1
      · cases hs
        exact (scan_result w l).1
    rw [hkeep, hnone] at hr
    cases hr
  | eof =>
    simp only [Wait.step] at hs
    split_ifs at hs
    cases hs
    rw [(finish_result w).1, hnone] at hr
    cases hr
  | timeout =>
    simp only [Wait.step] at hs
    split_ifs at hs
    cases hs
    rw [hnone] at hr
    cases hr
  | receive =>
    simp only [Wait.step] at hs
    split_ifs at hs
    rcases receive_eq_some hs with ⟨url', hf, rfl⟩ | ⟨-, -, rfl⟩
    · cases hr
      exact ⟨hf, rfl⟩
    · cases hr
  | expire =>
    simp only [Wait.step] at hs
    split_ifs at hs
    cases hs
    cases hr

/-- A goroutine that has reported, has reported what is up, unless the end was premature. -/
theorem Wait.Sound.up (h : w.Sound) (hr : w.reported = true) (hp : ¬ w.Premature) :
    Up w.lines w.assignedUrl := by
  by_contra hup
  obtain ⟨hne, hlive⟩ := h.reported hr
  refine hp ⟨?_, hne, hup⟩
  by_contra hend
  exact hup (hlive (by simpa using hend))

/-- **From a state in which the call waits**, whatever it returns next is right, just if the scan
has not ended prematurely. -/
theorem step_right_iff (h : waiting.Reachable w) (hnone : w.result = none) :
    (∀ e w', waiting.step w e = some w' → w'.Right) ↔ ¬ w.Premature := by
  have hsound := sound_of_reachable h
  constructor
  · rintro hall ⟨hend, hne, hup⟩
    have hrep : w.reported = true := by
      rcases hsound.ended hend with hrep | hclosed
      · exact hrep
      · exact absurd (hsound.closed hclosed).2 hne
    have hfound := hsound.full hnone hrep
    have hstep : waiting.step w .receive =
        some { w with found := none, result := some (.ok w.assignedUrl) } := by
      simp only [waiting, Wait.step, hnone, Option.isNone_none, if_true, Wait.receive, hfound]
    exact hup ((hall .receive _ hstep).up w.assignedUrl rfl)
  · intro hp e w' hs
    refine right_of_up fun url hr => ?_
    obtain ⟨hfound, hlines⟩ := step_returns hnone hs hr
    obtain ⟨rfl, hrep⟩ := hsound.found url hfound
    rw [hlines]
    exact hsound.up hrep hp

/-- **It returns** once the scan or the time has ended. -/
theorem exists_return (h : waiting.Reachable w) (hnone : w.result = none)
    (hend : w.ended = true ∨ w.timedOut = true) :
    ∃ e w', waiting.step w e = some w' ∧ w'.result.isSome = true := by
  have hsound := sound_of_reachable h
  rcases hend with hend | hout
  · rcases hsound.ended hend with hrep | hclosed
    · have hfound := hsound.full hnone hrep
      refine ⟨.receive, { w with found := none, result := some (.ok w.assignedUrl) }, ?_, rfl⟩
      simp only [waiting, Wait.step, hnone, Option.isNone_none, if_true, Wait.receive, hfound]
    · have hfound : w.found = none := by
        cases hf : w.found with
        | none => rfl
        | some url =>
          obtain ⟨-, hrep⟩ := hsound.found url hf
          exact absurd (hsound.closed hclosed).2 (hsound.reported hrep).1
      refine ⟨.receive, { w with
        result := some (.error "cloudflared exited before it published a tunnel hostname") },
        ?_, rfl⟩
      simp only [waiting, Wait.step, hnone, Option.isNone_none, if_true, Wait.receive, hfound,
        hclosed]
  · refine ⟨.expire, { w with
      result := some (.error "cloudflared did not publish a tunnel hostname in time") }, ?_, rfl⟩
    simp only [waiting, Wait.step, hnone, Option.isNone_none, hout, and_self, if_true]

theorem not_premature_finish (h : w.assignedUrl ≠ "" → Up w.lines w.assignedUrl) :
    ¬ w.finish.Premature := by
  obtain ⟨-, hlines, hassigned⟩ := finish_result w
  rintro ⟨-, hne, hup⟩
  rw [hlines, hassigned] at hup
  rw [hassigned] at hne
  exact hup (h hne)

theorem not_premature_step (hp : ¬ w.Premature) (hC : Orderly w e) (hs : w.step e = some w') :
    ¬ w'.Premature := by
  cases e with
  | line l =>
    simp only [Wait.step] at hs
    split_ifs at hs with hend hlong
    · -- what nobody reads takes no connection back
      cases hs
      rintro ⟨-, hne, hup⟩
      have hup' : Up w.lines w.assignedUrl := by
        by_contra hnot
        exact hp ⟨hend, hne, hnot⟩
      exact hup (hup'.concat _)
    · cases hs
      exact not_premature_finish (hC hlong)
    · cases hs
      rintro ⟨hend', -, -⟩
      rw [(scan_result w l).2] at hend'
      exact hend hend'
  | eof =>
    simp only [Wait.step] at hs
    split_ifs at hs with hend
    cases hs
    exact not_premature_finish (hC rfl)
  | timeout =>
    simp only [Wait.step] at hs
    split_ifs at hs
    cases hs
    exact hp
  | receive =>
    simp only [Wait.step] at hs
    split_ifs at hs
    rcases receive_eq_some hs with ⟨url', -, rfl⟩ | ⟨-, -, rfl⟩
    · exact hp
    · exact hp
  | expire =>
    simp only [Wait.step] at hs
    split_ifs at hs
    cases hs
    exact hp

/-- In an orderly run no end is premature. -/
theorem not_premature (h : waiting.Reach Orderly w) : ¬ w.Premature := by
  refine h.invariant ?_ fun _ _ _ _ ih hC hs => not_premature_step ih hC hs
  rintro ⟨hend, -⟩
  cases hend

/-- **In an orderly run** what is returned is right. -/
theorem right_of_orderly (h : waiting.Reach Orderly w) : w.Right := by
  have hsound := sound_of_reachable h.reachable
  refine right_of_up fun url hr => ?_
  obtain ⟨rfl, hrep⟩ := hsound.returned url hr
  exact hsound.up hrep (not_premature h)

end Returned

/-- **A tunnel is reported up** when it is.  In every run in which the scan does not end, with the
output or at a line that is too long, with a hostname whose connection has not been reported, what
is returned is right; and it is right to go on from a state in which the call waits just if the scan
has not ended so.  The call returns once the scan or the time has ended. -/
theorem url_up_iff (w : Wait) :
    (waiting.Reach Orderly w → w.Right) ∧
    (waiting.Reachable w → w.result = none →
      ((∀ e w', waiting.step w e = some w' → w'.Right) ↔ ¬ w.Premature) ∧
      (w.ended = true ∨ w.timedOut = true →
        ∃ e w', waiting.step w e = some w' ∧ w'.result.isSome = true)) :=
  ⟨right_of_orderly, fun h hnone => ⟨step_right_iff h hnone, exists_return h hnone⟩⟩

/-- A line in which cloudflared gives up. -/
def refused : String :=
  "ERR failed to request quick Tunnel: Post \"https://api.trycloudflare.com/tunnel\": EOF"

/-- The URL in it is returned, and what answers there is what a renter is charged for. -/
theorem url_not_up :
    ∃ w, waiting.Reachable w ∧ w.lines = [refused] ∧ (¬ ∃ url, Up w.lines url) ∧
      w.result = some (.ok "https://api.trycloudflare.com") ∧
      ∃ ep, pointQuickLocked (.ok "https://api.trycloudflare.com") true = .ok ep ∧
        reachable (fun _ => true) ep = true := by
  obtain ⟨w, hw, hp⟩ := System.exists_reach (S := waiting) (C := System.Any)
    (p := fun w => decide (w.lines = [refused] ∧
      w.result.bind Except.toOption = some "https://api.trycloudflare.com"))
    [.line refused, .eof, .receive] (by decide +kernel)
  obtain ⟨hlines, hresult⟩ := of_decide_eq_true hp
  refine ⟨w, hw, hlines, ?_, ?_, _, rfl, by decide +kernel⟩
  · rintro ⟨url, before, line, after, hl, -, -, -, l, hmem, hr⟩
    have hl' : l ∈ w.lines := hl ▸ List.mem_append_right _ hmem
    rw [hlines, List.mem_singleton] at hl'
    rw [hl'] at hr
    exact absurd hr (by decide +kernel)
  · cases hr : w.result with
    | none =>
      rw [hr] at hresult
      cases hresult
    | some r =>
      rw [hr] at hresult
      cases r with
      | error e => cases hresult
      | ok url => rw [Option.some.inj hresult]

/-- A hostname, and then a connection. -/
def connected : List Event :=
  [.line "INF |  https://quiet-fog.trycloudflare.com  |",
    .line "INF Registered tunnel connection connIndex=0 protocol=quic"]

theorem url_up_connected :
    ∃ w w' : Wait, w.result.bind Except.toOption = some "https://quiet-fog.trycloudflare.com" ∧
      w.Right ∧ w'.result = none ∧
      ((∀ e w'', waiting.step w' e = some w'' → w''.Right) ↔ ¬ w'.Premature) ∧
      ∃ e w'', waiting.step w' e = some w'' ∧ w''.result.isSome = true := by
  obtain ⟨w, hw, hp⟩ := System.exists_reach (S := waiting) (C := fun _ e => e.endsScan = false)
    (p := fun w => decide
      (w.result.bind Except.toOption = some "https://quiet-fog.trycloudflare.com"))
    (connected ++ [.receive]) (by decide +kernel)
  obtain ⟨w', hw', hp'⟩ := System.exists_reach (S := waiting) (C := System.Any)
    (p := fun w => w.result.isNone && w.ended) (connected ++ [.eof]) (by decide +kernel)
  rw [Bool.and_eq_true, Option.isNone_iff_eq_none] at hp'
  obtain ⟨hnext, hreturns⟩ := (url_up_iff w').2 hw' hp'.1
  exact ⟨w, w', of_decide_eq_true hp,
    (url_up_iff w).1 (hw.mono fun w e he hends => by rw [he] at hends; cases hends), hp'.1, hnext,
    hreturns (Or.inl hp'.2)⟩

end QuickTunnel
end Mach402
