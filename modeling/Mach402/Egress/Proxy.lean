import Mach402.Library.HostPort

/-!
# The egress proxy

The only way out of a lease container: a proxy that dials what its allowlist names.

* `parseAllowlist`, `allows`: the list, and whether a host is on it;
* `serveHTTP`: what a request is answered with, or which host is dialled for it;
* `Within`, `serveHTTP_within`: only what the list names is dialled, if the request is `Plain`;
* `Listed`, `exact_iff`: what the list names is allowed, just if a name that is listed with a dot at
  its end is covered without it.

A string is the list of its runes.  `unicode.ToLower` is a parameter, and so is the `ToASCII` of the
transport, which looks up a host that is not ASCII under another name.
-/

namespace Mach402
namespace Egress

open HostPort (Str Clean split join authority cutLast)

section Strings

variable (lower : Char → Char)

/-- `strings.ToLower`. -/
def toLower (s : Str) : Str := s.map lower

/-- `unicode.IsSpace`. -/
def isSpace (c : Char) : Bool :=
  c.val ∈ [9, 10, 11, 12, 13, 32, 0x85, 0xA0, 0x1680, 0x2028, 0x2029, 0x202f, 0x205f, 0x3000] ||
    decide (0x2000 ≤ c.val ∧ c.val ≤ 0x200a)

/-- `strings.TrimSpace`. -/
def trimSpace (s : Str) : Str := ((s.dropWhile isSpace).reverse.dropWhile isSpace).reverse

/-- `strings.TrimSuffix(s, ".")`. -/
def trimDot (s : Str) : Str := if s.getLast? = some '.' then s.dropLast else s

/-! ### The list -/

/-- `parseAllowlist`: entries are trimmed and lowered, and empty ones dropped. -/
def parseAllowlist (raw : Str) : List Str :=
  ((raw.splitOn ',').map fun entry => toLower lower (trimSpace entry)).filter (· ≠ [])

/-- `hostWithoutPort`. -/
def hostWithoutPort (hostport : Str) : Str :=
  match split hostport with
  | some (host, _) => host
  | none => hostport

/-- `withDefaultPort`. -/
def withDefaultPort (hostport port : Str) : Str :=
  if (split hostport).isSome then hostport else join hostport port

/-- An entry matches the host exactly, or any subdomain of it. -/
def allows (allowlist : List Str) (host : Str) : Bool :=
  let host := toLower lower (trimDot (hostWithoutPort host))
  decide (host ≠ []) &&
    allowlist.any fun allowed => decide (host = allowed) || decide (('.' :: allowed) <:+ host)

/-! ### Requests -/

/-- Nothing, or a colon and a number. -/
def validOptionalPort : Str → Bool
  | [] => true
  | c :: port => decide (c = ':') && port.all Char.isDigit

/-- What `url.Parse` checks of a host. -/
def validHost (host : Str) : Bool :=
  if host.head? = some '[' then
    match cutLast ']' host with
    | none => false
    | some (_, rest) => validOptionalPort rest
  else
    match cutLast ':' host with
    | none => true
    | some (_, port) => port.all Char.isDigit

/-- An URL that has been parsed. -/
structure Url where
  scheme : Str
  host : Str
  valid : validHost host = true

/-- A request to the proxy. -/
structure Request where
  method : String
  /-- Of the `CONNECT` line, or of the `Host` header. -/
  host : Str
  url : Url

/-- `http.MethodConnect`. -/
def methodConnect : String := "CONNECT"

/-- The host that is checked. -/
def hostOf (r : Request) : Str :=
  if r.method = methodConnect then r.host
  else if r.url.host ≠ [] then r.url.host
  else r.host

/-- The host of an address that is dialled, if it is one. -/
def dial (address : Str) : Option Str := (split address).map Prod.fst

/-- `connect`, up to its dialling. -/
def connect (r : Request) : Option Str := dial (withDefaultPort r.host "443".toList)

variable (toASCII : Str → Option Str)

/-- The name under which the transport looks a host up. -/
def idnaASCII (host : Str) : Str :=
  if host.all fun c => decide (c.val < 128) then host else (toASCII host).getD host

/-- The ports that the transport knows. -/
def portMap (scheme : Str) : Option Str :=
  if scheme = "http".toList then some "80".toList
  else if scheme = "https".toList then some "443".toList
  else none

/-- `transport.RoundTrip`, up to its dialling. -/
def roundTrip (url : Url) : Option Str :=
  if url.host = [] then none
  else
    match portMap url.scheme with
    | none => none
    | some default =>
      let (host, port) := authority url.host
      dial (join (idnaASCII toASCII host) (if port = [] then default else port))

/-- What becomes of a request. -/
inductive Answer
  | error (status : ℕ) (message : String)
  /-- A host is dialled, unless the address is none or is refused. -/
  | dials (host : Option Str)
  deriving DecidableEq

/-- `forward`: a plain request is sent on. -/
def forward (r : Request) : Answer :=
  if r.url.scheme = [] then .error 400 "cleargate: expected an absolute URL in a proxied request"
  else .dials (roundTrip toASCII r.url)

/-- `ServeHTTP`: what is not listed is refused. -/
def serveHTTP (allowlist : List Str) (r : Request) : Answer :=
  let host := hostOf r
  if !allows lower allowlist host then
    .error 403 ("cleargate: " ++ String.ofList host ++
      " is not on this node's egress allowlist. " ++
      "Lease containers can reach package and model registries and nothing else.")
  else if r.method = methodConnect then .dials (connect r)
  else forward toASCII r

end Strings

variable {lower : Char → Char} {toASCII : Str → Option Str} {allowlist : List Str} {s host h : Str}
  {r : Request} {raw : Str}

/-! ### What is dialled -/

/-- **On the list**: an entry is the host, in lower case and without a dot at its end, or a domain
that it is in. -/
def Within (lower : Char → Char) (allowlist : List Str) (h : Str) : Prop :=
  ∃ e ∈ allowlist, toLower lower (trimDot h) = e ∨ ('.' :: e) <:+ toLower lower (trimDot h)

theorem allows_iff : allows lower allowlist host = true ↔
    toLower lower (trimDot (hostWithoutPort host)) ≠ [] ∧
      Within lower allowlist (hostWithoutPort host) := by
  simp only [allows, Within, Bool.and_eq_true, decide_eq_true_eq, List.any_eq_true,
    Bool.or_eq_true]

/-- **Plain requests**: a `CONNECT`, but not to brackets without a colon, or an URL whose host is
ASCII and can be split, or has no colon and no bracket at its start. -/
def Request.Plain (r : Request) : Prop :=
  if r.method = methodConnect then ':' ∈ r.host ∨ r.host.head? ≠ some '['
  else (∀ c ∈ r.url.host, c.val < 128) ∧
    ((split r.url.host).isSome ∨ ':' ∉ r.url.host ∧ r.url.host.head? ≠ some '[')

theorem hostWithoutPort_of_split {port : Str} (hs : split s = some (h, port)) :
    hostWithoutPort s = h := by
  rw [hostWithoutPort, hs]

theorem hostWithoutPort_of_none (hs : split s = none) : hostWithoutPort s = s := by
  rw [hostWithoutPort, hs]

theorem split_of_not_mem (hs : ':' ∉ s) : split s = none := by
  rw [split, HostPort.cutLast_eq_none.2 hs]

theorem dial_eq_some {address : Str} :
    dial address = some h ↔ ∃ port, split address = some (h, port) := by
  simp only [dial, Option.map_eq_some_iff, Prod.exists, exists_and_right, exists_eq_right]

/-- A `CONNECT` dials the host that has been checked. -/
theorem connect_eq (hplain : ':' ∈ r.host ∨ r.host.head? ≠ some '[')
    (hr : connect r = some h) : h = hostWithoutPort r.host := by
  obtain ⟨port, hport⟩ := dial_eq_some.1 hr
  unfold withDefaultPort at hport
  split_ifs at hport with hs
  · exact (hostWithoutPort_of_split hport).symm
  · rw [Bool.not_eq_true, Option.isSome_eq_false_iff, Option.isNone_iff_eq_none] at hs
    rw [hostWithoutPort_of_none hs]
    exact HostPort.split_join (by decide) hplain hport

/-- A port of an URL is a number. -/
theorem isDigit_of_split {port : Str} (hvalid : validHost s = true)
    (hs : split s = some (h, port)) : port.all Char.isDigit = true := by
  obtain ⟨hclean, hclean', hcolon, ⟨rfl, -⟩ | rfl⟩ := HostPort.split_eq_some.1 hs
  · rw [validHost, if_neg (HostPort.head_append hclean.head),
      HostPort.cutLast_append h hcolon] at hvalid
    exact hvalid
  · have hcut : cutLast ']' ('[' :: (h ++ ']' :: ':' :: port)) = some ('[' :: h, ':' :: port) := by
      have hmem : ']' ∉ ':' :: port := by
        rw [List.mem_cons, not_or]
        exact ⟨by decide, hclean'.2⟩
      exact HostPort.cutLast_append ('[' :: h) hmem
    rw [validHost, if_pos (by rw [List.head?_cons]), hcut] at hvalid
    simpa [validOptionalPort] using hvalid

/-- The two ways to take a port off agree. -/
theorem authority_eq (hvalid : validHost s = true)
    (hplain : (split s).isSome ∨ ':' ∉ s ∧ s.head? ≠ some '[') :
    (authority s).1 = hostWithoutPort s ∧ ':' ∉ (authority s).2 ∧
      (':' ∈ (authority s).1 ∨ (authority s).1.head? ≠ some '[') := by
  rcases hplain with hs | ⟨hs, hhead⟩
  · obtain ⟨⟨a, port⟩, hs⟩ := Option.isSome_iff_exists.1 hs
    obtain ⟨hclean, -, hcolon, -⟩ := HostPort.split_eq_some.1 hs
    rw [HostPort.authority_of_split hs (isDigit_of_split hvalid hs), hostWithoutPort_of_split hs]
    exact ⟨rfl, hcolon, Or.inr hclean.head⟩
  · rw [HostPort.authority_of_not_mem hs, HostPort.unbracket_of_head hhead, Option.getD_none,
      hostWithoutPort_of_none (split_of_not_mem hs)]
    exact ⟨rfl, List.not_mem_nil, Or.inr hhead⟩

theorem mem_of_mem_hostWithoutPort {c : Char} (hc : c ∈ hostWithoutPort s) : c ∈ s := by
  cases hs : split s with
  | none => rwa [hostWithoutPort_of_none hs] at hc
  | some p =>
    obtain ⟨a, port⟩ := p
    rw [hostWithoutPort_of_split hs] at hc
    obtain ⟨-, -, -, ⟨rfl, -⟩ | rfl⟩ := HostPort.split_eq_some.1 hs
    · exact List.mem_append_left _ hc
    · exact List.mem_cons_of_mem _ (List.mem_append_left _ hc)

theorem idnaASCII_of_ascii (hs : ∀ c ∈ s, c.val < 128) : idnaASCII toASCII s = s := by
  rw [idnaASCII, if_pos]
  simpa using hs

/-- The transport dials the host that has been checked. -/
theorem roundTrip_eq {url : Url} (hascii : ∀ c ∈ url.host, c.val < 128)
    (hplain : (split url.host).isSome ∨ ':' ∉ url.host ∧ url.host.head? ≠ some '[')
    (hr : roundTrip toASCII url = some h) : h = hostWithoutPort url.host := by
  obtain ⟨hhost, hcolon, hhead⟩ := authority_eq url.valid hplain
  have hname : ∀ c ∈ (authority url.host).1, c.val < 128 := fun c hc =>
    hascii c (mem_of_mem_hostWithoutPort (hhost ▸ hc))
  unfold roundTrip at hr
  split_ifs at hr with hempty
  cases hport : portMap url.scheme with
  | none => simp [hport] at hr
  | some default =>
    simp only [hport, idnaASCII_of_ascii hname] at hr
    obtain ⟨port, hsplit⟩ := dial_eq_some.1 hr
    have hdefault : ':' ∉ default := by
      unfold portMap at hport
      split_ifs at hport <;> cases hport <;> decide
    rw [← hhost]
    refine HostPort.split_join ?_ hhead hsplit
    split_ifs
    · exact hdefault
    · exact hcolon

theorem serveHTTP_dials {o : Option Str}
    (hr : serveHTTP lower toASCII allowlist r = .dials o) :
    allows lower allowlist (hostOf r) = true ∧
      (if r.method = methodConnect then .dials (connect r) else forward toASCII r) =
        Answer.dials o := by
  cases hallows : allows lower allowlist (hostOf r) with
  | false => simp [serveHTTP, hallows] at hr
  | true =>
    refine ⟨rfl, ?_⟩
    simpa [serveHTTP, hallows] using hr

/-- **Only what the list names is dialled**, for a plain request. -/
theorem serveHTTP_within (hplain : r.Plain)
    (hr : serveHTTP lower toASCII allowlist r = .dials (some h)) : Within lower allowlist h := by
  obtain ⟨hallows, hr⟩ := serveHTTP_dials hr
  have hwithin := (allows_iff.1 hallows).2
  unfold Request.Plain at hplain
  by_cases hmethod : r.method = methodConnect
  · rw [if_pos hmethod] at hr hplain
    rw [hostOf, if_pos hmethod] at hwithin
    rw [connect_eq hplain (Answer.dials.inj hr)]
    exact hwithin
  · rw [if_neg hmethod] at hr hplain
    unfold forward at hr
    split_ifs at hr
    have hdial : roundTrip toASCII r.url = some h := Answer.dials.inj hr
    have hne : r.url.host ≠ [] := by
      intro hempty
      rw [roundTrip, if_pos hempty] at hdial
      cases hdial
    rw [hostOf, if_neg hmethod, if_pos hne] at hwithin
    rw [roundTrip_eq hplain.1 hplain.2 hdial]
    exact hwithin

/-! ### What is allowed -/

/-- The entries of the list, as they are written. -/
def listed (raw : Str) : List Str := ((raw.splitOn ',').map trimSpace).filter (· ≠ [])

/-- The name of a host, without a dot at its end. -/
def Hostname (s : Str) : Prop := s ≠ [] ∧ ':' ∉ s ∧ Clean s ∧ s.getLast? ≠ some '.'

/-- The name, or one of a subdomain, in any letter case. -/
def Names (lower : Char → Char) (name asked : Str) : Prop :=
  toLower lower asked = toLower lower name ∨
    ∃ sub base, asked = sub ++ '.' :: base ∧ toLower lower base = toLower lower name

/-- The name of a host, with a dot at its end or without, and with a port or without. -/
def Spells (asked host : Str) : Prop :=
  ∃ dot : Str, (dot = [] ∨ dot = ['.']) ∧
    (host = asked ++ dot ∨
      ∃ port, ':' ∉ port ∧ Clean port ∧ host = (asked ++ dot) ++ ':' :: port)

/-- **A listed host**: its name or a domain that it is in is on the list, with a dot at its end
or without. -/
def Listed (lower : Char → Char) (raw host : Str) : Prop :=
  ∃ name, Hostname name ∧ (name ∈ listed raw ∨ name ++ ['.'] ∈ listed raw) ∧
    ∃ asked, Hostname asked ∧ Names lower name asked ∧ Spells asked host

/-- **Every name that is listed with a dot at its end** is covered without it: it or a domain that
it is in is listed so. -/
def Covered (lower : Char → Char) (raw : Str) : Prop :=
  ∀ name, Hostname name → name ++ ['.'] ∈ listed raw →
    ∃ e ∈ parseAllowlist lower raw,
      toLower lower name = e ∨ ('.' :: e) <:+ toLower lower name

theorem parseAllowlist_eq (lower : Char → Char) (raw : Str) :
    parseAllowlist lower raw = (listed raw).map (toLower lower) := by
  rw [parseAllowlist, listed, List.filter_map, List.filter_map, List.map_map]
  congr 1
  refine List.filter_congr fun entry _ => ?_
  simp [toLower]

theorem trimDot_append {asked dot : Str} (hasked : Hostname asked)
    (hdot : dot = [] ∨ dot = ['.']) : trimDot (asked ++ dot) = asked := by
  rcases hdot with rfl | rfl
  · rw [List.append_nil, trimDot, if_neg hasked.2.2.2]
  · rw [trimDot, if_pos (by simp), List.dropLast_concat]

/-- However a host is spelled, the check sees its name. -/
theorem trimDot_of_spells {asked : Str} (hasked : Hostname asked) (h : Spells asked host) :
    trimDot (hostWithoutPort host) = asked := by
  obtain ⟨dot, hdot, hhost⟩ := h
  have hclean : Clean (asked ++ dot) ∧ ':' ∉ asked ++ dot := by
    obtain ⟨-, hcolon, hclean, -⟩ := hasked
    rcases hdot with rfl | rfl
    · rw [List.append_nil]
      exact ⟨hclean, hcolon⟩
    · simpa [Clean] using ⟨hclean, hcolon⟩
  rcases hhost with rfl | ⟨port, hcolon, hport, rfl⟩
  · rw [hostWithoutPort_of_none (split_of_not_mem hclean.2), trimDot_append hasked hdot]
  · rw [hostWithoutPort_of_split (HostPort.split_eq_some.2
      ⟨hclean.1, hport, hcolon, Or.inl ⟨rfl, hclean.2⟩⟩), trimDot_append hasked hdot]

/-- A domain that covers a name covers its subdomains. -/
theorem within_of_names {name asked : Str} (hdot : lower '.' = '.') (h : Names lower name asked)
    {e : Str} (he : toLower lower name = e ∨ ('.' :: e) <:+ toLower lower name) :
    toLower lower asked = e ∨ ('.' :: e) <:+ toLower lower asked := by
  rcases h with h | ⟨sub, base, rfl, hbase⟩
  · rwa [h]
  · have hasked : toLower lower (sub ++ '.' :: base) =
        toLower lower sub ++ '.' :: toLower lower name := by
      rw [← hbase, toLower, List.map_append, List.map_cons, hdot]
      rfl
    rw [hasked]
    refine Or.inr ?_
    rcases he with rfl | he
    · exact List.suffix_append _ _
    · exact he.trans ((List.suffix_cons _ _).trans (List.suffix_append _ _))

/-- **What the list names is allowed**, if it is covered. -/
theorem allows_of_listed (hdot : lower '.' = '.') (hcovered : Covered lower raw)
    (h : Listed lower raw host) : allows lower (parseAllowlist lower raw) host = true := by
  obtain ⟨name, hname, hmem, asked, hasked, hnames, hspells⟩ := h
  rw [allows_iff, Within, trimDot_of_spells hasked hspells]
  refine ⟨?_, ?_⟩
  · rw [toLower, Ne, List.map_eq_nil_iff]
    exact hasked.1
  · obtain ⟨e, he, hcover⟩ : ∃ e ∈ parseAllowlist lower raw,
        toLower lower name = e ∨ ('.' :: e) <:+ toLower lower name := by
      rcases hmem with hmem | hmem
      · rw [parseAllowlist_eq]
        exact ⟨_, List.mem_map_of_mem hmem, Or.inl rfl⟩
      · exact hcovered name hname hmem
    exact ⟨e, he, within_of_names hdot hnames hcover⟩

/-- **The allowlist is exact**: only what it names is dialled for a request that is plain or that it
does not let through, and every host that it names is let through, just if it is covered. -/
theorem exact_iff (toASCII : Str → Option Str) (hdot : lower '.' = '.') (raw : Str) :
    (∀ r : Request,
      ((allows lower (parseAllowlist lower raw) (hostOf r) = true → r.Plain) →
        ∀ h, serveHTTP lower toASCII (parseAllowlist lower raw) r = .dials (some h) →
          Within lower (parseAllowlist lower raw) h) ∧
      (Listed lower raw (hostOf r) →
        allows lower (parseAllowlist lower raw) (hostOf r) = true)) ↔ Covered lower raw := by
  constructor
  · intro h name hname hmem
    -- the name itself is asked for, by a `CONNECT`
    have hlisted : Listed lower raw name :=
      ⟨name, hname, Or.inr hmem, name, hname, Or.inl rfl, [], Or.inl rfl,
        Or.inl (List.append_nil name).symm⟩
    have hallows := (h ⟨methodConnect, name, ⟨[], [], rfl⟩⟩).2 hlisted
    have hwithin := (allows_iff.1 hallows).2
    rw [Within, trimDot_of_spells hname
      ⟨[], Or.inl rfl, Or.inl (by rw [hostOf, if_pos rfl, List.append_nil])⟩] at hwithin
    exact hwithin
  · intro hcovered r
    exact ⟨fun hplain h hr => serveHTTP_within (hplain (serveHTTP_dials hr).1) hr,
      allows_of_listed hdot hcovered⟩

/-! ### Samples -/

/-- Lower case for ASCII and one more letter. -/
def sampleLower (c : Char) : Char := if c = 'İ' then 'i' else c.toLower

/-- The one name that the samples look up. -/
def sampleToASCII (host : Str) : Option Str :=
  if host = "pypİ.org".toList then some "xn--pypi-twc.org".toList else none

/-- A plain request to a host. -/
def sampleRequest (method host : String) (h : validHost host.toList = true) : Request where
  method := method
  host := host.toList
  url := ⟨"http".toList, host.toList, h⟩

/-- A name that is listed with a dot at its end is refused. -/
theorem dotted_refused :
    Listed sampleLower "pypi.org.".toList "pypi.org:443".toList ∧
      hostOf (sampleRequest "CONNECT" "pypi.org:443" (by decide)) = "pypi.org:443".toList ∧
      ¬ allows sampleLower (parseAllowlist sampleLower "pypi.org.".toList)
        "pypi.org:443".toList = true := by
  have hname : Hostname "pypi.org".toList := ⟨by decide, by decide, by decide, by decide⟩
  exact ⟨⟨"pypi.org".toList, hname, Or.inr (by decide), "pypi.org".toList, hname, Or.inl rfl,
    [], Or.inl rfl, Or.inr ⟨"443".toList, by decide, by decide, by decide⟩⟩, by decide, by decide⟩

/-- A host that is not ASCII is checked under one name and looked up under another. -/
theorem dials_elsewhere :
    serveHTTP sampleLower sampleToASCII (parseAllowlist sampleLower "pypi.org".toList)
        (sampleRequest "GET" "pypİ.org" (by decide)) = .dials (some "xn--pypi-twc.org".toList) ∧
      ¬ Within sampleLower (parseAllowlist sampleLower "pypi.org".toList)
        "xn--pypi-twc.org".toList := by
  unfold Within
  decide

/-- A name that is listed twice, and a subdomain of it that is asked for. -/
theorem exact_iff_twice :
    serveHTTP sampleLower sampleToASCII
        (parseAllowlist sampleLower "pypi.org.,PyPI.org".toList)
        (sampleRequest "CONNECT" "files.PYPI.org.:443" (by decide)) =
      .dials (some "files.PYPI.org.".toList) ∧
    Within sampleLower (parseAllowlist sampleLower "pypi.org.,PyPI.org".toList)
      "files.PYPI.org.".toList := by
  have hcovered : Covered sampleLower "pypi.org.,PyPI.org".toList := by
    intro name _ hmem
    have hlisted : listed "pypi.org.,PyPI.org".toList =
        ["pypi.org".toList ++ ['.'], "PyPI.or".toList ++ ['g']] := by decide
    rw [hlisted, List.mem_pair] at hmem
    rcases hmem with hmem | hmem
    · rw [List.append_left_inj] at hmem
      subst hmem
      decide
    · exact absurd (List.append_inj_right' hmem rfl) (by decide)
  have hexact := (exact_iff sampleToASCII (by decide) _).2 hcovered
    (sampleRequest "CONNECT" "files.PYPI.org.:443" (by decide))
  have hdials : serveHTTP sampleLower sampleToASCII
      (parseAllowlist sampleLower "pypi.org.,PyPI.org".toList)
      (sampleRequest "CONNECT" "files.PYPI.org.:443" (by decide)) =
        .dials (some "files.PYPI.org.".toList) := by decide
  exact ⟨hdials, hexact.1 (fun _ => Or.inl (by decide)) _ hdials⟩

end Egress
end Mach402
