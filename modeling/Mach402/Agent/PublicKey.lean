import Mach402.Egress.Proxy
import Mach402.Library.Search

/-!
# The public key of a renter

The key that a request brings is checked before it is written to a file for `ssh-keygen`.

* `fields`, `fields_words`: the words of a text;
* `validatePublicKey`: the checks, and what a key is refused with;
* `Accepted`, `validatePublicKey_iff`: the keys that are accepted.
-/

namespace Mach402
namespace PublicKey

open Egress (isSpace trimSpace)

/-! ### Texts -/

/-- `strings.Fields`. -/
def fields (s : List Char) : List (List Char) := (s.splitOnP isSpace).filter (· ≠ [])

/-- What has no space in it. -/
def Word (w : List Char) : Prop := w ≠ [] ∧ ∀ c ∈ w, isSpace c = false

theorem Word.of_all {w : List Char} (hne : w ≠ []) (h : w.all (fun c => !isSpace c) = true) :
    Word w := by
  refine ⟨hne, fun c hc => ?_⟩
  have hc := List.all_eq_true.mp h c hc
  rwa [Bool.not_eq_true'] at hc

theorem fields_word {w : List Char} (h : Word w) : fields w = [w] := by
  rw [fields, List.splitOnP_eq_singleton h.2]
  simp [h.1]

theorem fields_cons {w : List Char} (h : Word w) (s : List Char) :
    fields (w ++ ' ' :: s) = w :: fields s := by
  have hspace : isSpace ' ' = true := by decide
  rw [fields, List.splitOnP_append_cons_of_forall_mem h.2 ' ' hspace,
    List.filter_cons_of_pos (by simp [h.1]), fields]

/-- Words with a space between each two are told apart. -/
theorem fields_words {ws : List (List Char)} (h : ∀ w ∈ ws, Word w) :
    fields ([' '].intercalate ws) = ws := by
  induction ws with
  | nil => rfl
  | cons w ws ih =>
    have hw := h w List.mem_cons_self
    have hws := ih fun v hv => h v (List.mem_cons_of_mem w hv)
    cases ws with
    | nil => rw [List.intercalate_singleton, fields_word hw]
    | cons v ws =>
      rw [List.intercalate_cons_cons, List.append_assoc, List.singleton_append, fields_cons hw, hws]

theorem words_ne_nil {w : List Char} (h : Word w) (ws : List (List Char)) :
    [' '].intercalate (w :: ws) ≠ [] := by
  cases ws with
  | nil =>
    rw [List.intercalate_singleton]
    exact h.1
  | cons v ws => simp [List.intercalate_cons_cons, h.1]

theorem head?_words {w : List Char} {ws : List (List Char)} (h : Word w) :
    ∀ c ∈ ([' '].intercalate (w :: ws)).head?, isSpace c = false := by
  intro c hc
  have hhead : ([' '].intercalate (w :: ws)).head? = w.head? := by
    cases ws with
    | nil => rw [List.intercalate_singleton]
    | cons v ws =>
      rw [List.intercalate_cons_cons, List.append_assoc, List.head?_append_of_ne_nil _ h.1]
  rw [hhead] at hc
  exact h.2 c (List.mem_of_mem_head? hc)

theorem getLast?_words {ws : List (List Char)} (h : ∀ w ∈ ws, Word w) :
    ∀ c ∈ ([' '].intercalate ws).getLast?, isSpace c = false := by
  induction ws with
  | nil => simp
  | cons w ws ih =>
    have hw := h w List.mem_cons_self
    have hws := ih fun v hv => h v (List.mem_cons_of_mem w hv)
    intro c hc
    cases ws with
    | nil =>
      rw [List.intercalate_singleton] at hc
      exact hw.2 c (List.mem_of_mem_getLast? hc)
    | cons v ws =>
      have hv := words_ne_nil (h v (by simp)) ws
      rw [List.intercalate_cons_cons, List.getLast?_append_of_ne_nil _ hv] at hc
      exact hws c hc

/-- There is no space around words. -/
theorem trimSpace_words {ws : List (List Char)} (h : ∀ w ∈ ws, Word w) :
    trimSpace ([' '].intercalate ws) = [' '].intercalate ws := by
  apply Search.strip_eq_self _ (getLast?_words h)
  cases ws with
  | nil => simp
  | cons w ws => exact head?_words (h w List.mem_cons_self)

/-! ### The checks -/

/-- The types of keys that are accepted. -/
def keyTypes : List String :=
  ["ssh-ed25519", "ecdsa-sha2-nistp256", "ecdsa-sha2-nistp384", "ecdsa-sha2-nistp521",
    "sk-ssh-ed25519@openssh.com", "sk-ecdsa-sha2-nistp256@openssh.com", "ssh-rsa"]

/-- A longer key is refused. -/
def maxPublicKeyBytes : ℕ := 4096

/-- What may not be in a key: ends of lines, and the null character. -/
def breaks : List Char := "\n\r\x00".toList

section

variable (quoted : String → String)

/-- `%q` is a parameter. -/
def validatePublicKey (key : String) : Except String Unit :=
  let key := trimSpace key.toList
  if key = [] then
    .error "public_key is required — generate one with \x60ssh-keygen -t ed25519\x60"
  else if maxPublicKeyBytes < (String.ofList key).utf8ByteSize then
    .error ("public_key is longer than " ++ toString maxPublicKeyBytes ++ " bytes")
  else if key.any fun c => c ∈ breaks then
    .error "public_key must be a single line — send only the contents of your .pub file"
  else if "-----BEGIN".toList.isPrefixOf key then
    .error ("that looks like a private key. " ++
      "Send the public half — the .pub file — and nothing else")
  else
    match fields key with
    | type :: _ :: _ =>
      if String.ofList type ∈ keyTypes then .ok ()
      else
        .error ("public key type " ++ quoted (String.ofList type) ++ " is not accepted; use one of "
          ++ ", ".intercalate keyTypes)
    | _ => .error "public_key must look like \"<type> <base64> [comment]\""

theorem not_break {l : List Char} (h : l.all (fun c => !breaks.elem c) = true) {c : Char}
    (hc : c ∈ l) : c ∉ breaks := by
  have hc := List.all_eq_true.mp h c hc
  rwa [Bool.not_eq_true', List.elem_eq_mem, decide_eq_false_iff_not] at hc

/-- A key that is accepted, without the space around it. -/
structure Accepted (key : List Char) : Prop where
  short : (String.ofList key).utf8ByteSize ≤ maxPublicKeyBytes
  line : ∀ c ∈ key, c ∉ breaks
  noPrivate : ¬"-----BEGIN".toList <+: key
  type : ∃ type blob comment, fields key = type :: blob :: comment ∧ String.ofList type ∈ keyTypes

/-- **A key is accepted just if it is a line of at least two words, the first of them a type.** -/
theorem validatePublicKey_iff (key : String) :
    validatePublicKey quoted key = .ok () ↔ Accepted (trimSpace key.toList) := by
  unfold validatePublicKey
  simp only
  generalize trimSpace key.toList = key
  constructor
  · intro h
    split_ifs at h with hempty hlong hbreak hprivate
    split at h
    case h_1 type blob comment hfields =>
      split_ifs at h with htype
      refine ⟨by omega, ?_, ?_, type, blob, comment, hfields, htype⟩
      · intro c hc hmem
        exact hbreak (List.any_eq_true.mpr ⟨c, hc, decide_eq_true hmem⟩)
      · rwa [List.isPrefixOf_iff_prefix] at hprivate
    case h_2 => cases h
  · rintro ⟨hshort, hline, hprivate, type, blob, comment, hfields, htype⟩
    have hempty : key ≠ [] := by
      rintro rfl
      cases hfields
    have hbreak : ¬(key.any fun c => c ∈ breaks) = true := by
      intro hany
      obtain ⟨c, hc, hmem⟩ := List.any_eq_true.mp hany
      exact hline c hc (of_decide_eq_true hmem)
    have hbegin : ¬"-----BEGIN".toList.isPrefixOf key = true := by
      rwa [List.isPrefixOf_iff_prefix]
    rw [if_neg hempty, if_neg (by omega), if_neg hbreak, if_neg hbegin, hfields]
    exact if_pos htype

end

end PublicKey
end Mach402
