import Mach402.Agent.Isolation
import Mach402.Egress.Proxy
import Mach402.Library.Lines

/-!
# What a lease reaches

The allowlist of a node's configuration, from the environment in which the node starts a lease's
egress proxy to what the proxy dials.

* `proxyAllowlist`: the list as the proxy reads it from its environment;
* `within_iff`: its entries are those of the configuration;
* `lease_reaches_listed`: a lease reaches only what the node's configuration lists.
-/

namespace Mach402
namespace Sandbox

open Egress (toLower trimDot trimSpace parseAllowlist serveHTTP Within)
open HostPort (Str)
open Docker (Documented Engine dockerd)

/-- `os.Getenv`. -/
def getenv (env : List String) (key : String) : Str :=
  match env.find? fun entry => (key ++ "=").toList.isPrefixOf entry.toList with
  | some entry => entry.toList.drop (key ++ "=").toList.length
  | none => []

/-- The list as the proxy's `main` reads it. -/
def proxyAllowlist (lower : Char → Char) (env : List String) : List Str :=
  parseAllowlist lower (getenv env "EGRESS_ALLOWLIST")

/-- **The configuration lists a host**: an entry, between its commas, is the host or a domain that
it is in, in any letter case. -/
def Lists (lower : Char → Char) (cfg : Config.Leases) (host : Str) : Prop :=
  ∃ entry ∈ cfg.egress.allowlist.getD [], ∃ piece ∈ entry.toList.splitOn ',',
    trimSpace piece ≠ [] ∧
      (toLower lower (trimDot host) = toLower lower (trimSpace piece) ∨
        ('.' :: toLower lower (trimSpace piece)) <:+ toLower lower (trimDot host))

variable {lower : Char → Char} {toASCII : Str → Option Str} {cfg : Config.Leases} {host : Str}

theorem getenv_cons_of_ne {entry key : String} {env : List String}
    (h : (key ++ "=").toList.isPrefixOf entry.toList = false) :
    getenv (entry :: env) key = getenv env key := by
  rw [getenv, getenv, List.find?_cons, h]

theorem getenv_cons_self {key value : String} {env : List String} :
    getenv ((key ++ "=" ++ value) :: env) key = value.toList := by
  have hprefix : (key ++ "=").toList.isPrefixOf (key ++ "=" ++ value).toList = true := by
    rw [String.toList_append (s := key ++ "="), List.isPrefixOf_iff_prefix]
    exact List.prefix_append _ _
  rw [getenv, List.find?_cons, hprefix]
  simp only
  rw [String.toList_append (s := key ++ "="), List.drop_left]

/-- The environment of the proxy has the list of the configuration, joined. -/
theorem getenv_egressProxyRequest (i : String) (labels : Docker.Labels) :
    getenv (egressProxyRequest cfg i labels).env "EGRESS_ALLOWLIST" =
      [','].intercalate ((cfg.egress.allowlist.getD []).map String.toList) := by
  have hlisten : ("EGRESS_ALLOWLIST" ++ "=").toList.isPrefixOf
      (s!"EGRESS_LISTEN=:{egressPort}").toList = false := by decide +kernel
  have hkey : "EGRESS_ALLOWLIST" ++ "=" = "EGRESS_ALLOWLIST=" := by decide +kernel
  have hcomma : ",".toList = [','] := by decide +kernel
  have henv : getenv ["EGRESS_ALLOWLIST" ++ "=" ++ ",".intercalate (cfg.egress.allowlist.getD [])]
      "EGRESS_ALLOWLIST" = (",".intercalate (cfg.egress.allowlist.getD [])).toList :=
    getenv_cons_self
  rw [egressProxyRequest, getenv_cons_of_ne hlisten, ← hkey, henv, String.toList_intercalate,
    hcomma]

/-- **The proxy's list is the configuration's.** -/
theorem within_iff {i : String} {labels : Docker.Labels} :
    Within lower (proxyAllowlist lower (egressProxyRequest cfg i labels).env) host ↔
      Lists lower cfg host := by
  rw [proxyAllowlist, getenv_egressProxyRequest, Egress.parseAllowlist_eq, Egress.listed]
  constructor
  · rintro ⟨e, he, hhost⟩
    obtain ⟨piece, hpiece, rfl⟩ := List.mem_map.1 he
    obtain ⟨hmem, hne⟩ := List.mem_filter.1 hpiece
    obtain ⟨written, hwritten, rfl⟩ := List.mem_map.1 hmem
    have hne' : trimSpace written ≠ [] := of_decide_eq_true hne
    by_cases hnil : cfg.egress.allowlist.getD [] = []
    · rw [hnil] at hwritten
      have hempty : written = [] := by simpa using hwritten
      subst hempty
      exact absurd rfl hne'
    · rw [Lines.splitOn_intercalate _ (by simpa using hnil), List.flatMap_map,
        List.mem_flatMap] at hwritten
      obtain ⟨entry, hentry, hsplit⟩ := hwritten
      exact ⟨entry, hentry, written, hsplit, hne', hhost⟩
  · rintro ⟨entry, hentry, piece, hpiece, hne, hhost⟩
    refine ⟨toLower lower (trimSpace piece), List.mem_map_of_mem (List.mem_filter.2
      ⟨List.mem_map_of_mem ?_, decide_eq_true hne⟩), hhost⟩
    have hnil : cfg.egress.allowlist.getD [] ≠ [] := List.ne_nil_of_mem hentry
    rw [Lines.splitOn_intercalate _ (by simpa using hnil), List.flatMap_map, List.mem_flatMap]
    exact ⟨entry, hentry, hpiece⟩

/-- **A lease reaches only what is listed.**  In every run, every way off the machine from a
lease's container passes a proxy that, for a plain request, dials only hosts that are listed by the
configuration of the node. -/
theorem lease_reaches_listed {E : Engine} (hE : Documented E) {node : Settings} {d : E.State}
    (hd : Untouched E d) {c : State E} (h : (sandboxSystem E node d).Reachable c)
    {x : Docker.Container} {i : String} (hname : x.name = leaseName i)
    {l : List Docker.Container} (hroute : (topology E c.shared.docker).Route x l)
    (lower : Char → Char) (toASCII : Str → Option Str) :
    ∃ g ∈ l, g.name = egressName i ∧ IsProxyRequest node i g.request ∧
      ∀ r : Egress.Request, r.Plain → ∀ host,
        serveHTTP lower toASCII (proxyAllowlist lower g.request.env) r = .dials (some host) →
          Lists lower node.leases host := by
  have hconfined := (allSafe_of_reach hE hd h).1.confined
  obtain ⟨l₁, g, l₂, rfl, -, hg, hrequest⟩ := hroute.guarded (hconfined.isSealed i) hname
  refine ⟨g, by simp, hg, hrequest, fun r hplain host hdials => ?_⟩
  have hwithin := Egress.serveHTTP_within hplain hdials
  rw [show g.request = _ from hrequest] at hwithin
  exact within_iff.1 hwithin

/-- The way out of a lease's container, past its proxy. -/
theorem lease_reaches_listed_crashed :
    ∃ c x g, (sandboxSystem dockerd sampleNode emptyDaemon).Reachable c ∧
      (topology dockerd c.shared.docker).Route x [g] ∧ x.name = leaseName "a" ∧
      ∀ r : Egress.Request, r.Plain → ∀ host,
        serveHTTP Egress.sampleLower Egress.sampleToASCII
          (proxyAllowlist Egress.sampleLower g.request.env) r = .dials (some host) →
            Lists Egress.sampleLower sampleNode.leases host := by
  obtain ⟨c, x, g, hc, -, -, hname, -, hroute⟩ := exists_route
  obtain ⟨g', hg', -, -, hlists⟩ := lease_reaches_listed Docker.dockerd_documented
    emptyDaemon_untouched hc hname hroute Egress.sampleLower Egress.sampleToASCII
  cases List.mem_singleton.1 hg'
  exact ⟨c, x, g, hc, hroute, hname, hlists⟩

end Sandbox
end Mach402
