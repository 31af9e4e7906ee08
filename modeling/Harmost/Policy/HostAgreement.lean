import Harmost.Cache.Key
import Harmost.Policy.Snapshot

/-!
# Two notions of one host

The cache key trims a host, folds its case and strips the default port of the
scheme.  The route matcher only folds case.  Hosts the key identifies can
therefore be governed by different routes.
-/

namespace Harmost.Policy

open Harmost.Support
open Harmost.Http
open Harmost.Config
open Harmost.Cache

/-- Does the matcher name exactly this host? -/
def CompiledMatcher.namesHost (matcher : CompiledMatcher) (host : Str) : Bool :=
  matcher.host.any fun want => eqIgnoreAsciiCase host want

theorem CompiledMatcher.hostMatches_eq (matcher : CompiledMatcher)
    (host : Str) :
    matcher.hostMatches host =
      (matcher.host.isNone || matcher.namesHost host) := by
  unfold hostMatches namesHost
  cases matcher.host with
  | none => rfl
  | some want => rfl

/-- The routes that fit path and method, up to the first that names no host. -/
def PolicySnapshot.hostRoutes (snapshot : PolicySnapshot) (path : Str)
    (method : Method) : List ResolvedRoute :=
  (snapshot.routes.filter fun r => r.matcher.pathMatches path method).takeWhile
    fun r => r.matcher.host.isSome

/-- Resolution looks at the routes that fit path and method, and among them
only at hosts. -/
theorem PolicySnapshot.resolve_eq (snapshot : PolicySnapshot)
    (host path : Str) (method : Method) :
    snapshot.resolve host path method =
      (snapshot.routes.filter fun r =>
        r.matcher.pathMatches path method).find? fun r =>
          r.matcher.hostMatches host := by
  unfold PolicySnapshot.resolve
  rw [List.find?_filter]
  congr 1
  funext r
  simp [CompiledMatcher.matches', Bool.and_comm]

section Agreement

variable {host host' : Str}

theorem hostMatches_congr (h : eqIgnoreAsciiCase host host' = true)
    (matcher : CompiledMatcher) :
    matcher.hostMatches host = matcher.hostMatches host' := by
  have hfold : toAsciiLowercase host = toAsciiLowercase host' := by
    simpa [eqIgnoreAsciiCase] using h
  simp [CompiledMatcher.hostMatches, eqIgnoreAsciiCase, hfold]

/-- A route that names one of two hosts differing in more than case does not
match the other. -/
theorem hostMatches_eq_false_of_namesHost
    (h : eqIgnoreAsciiCase host host' = false) {matcher : CompiledMatcher}
    (hname : matcher.namesHost host = true) :
    matcher.hostMatches host' = false := by
  unfold CompiledMatcher.namesHost at hname
  unfold CompiledMatcher.hostMatches
  cases hwant : matcher.host with
  | none => simp [hwant] at hname
  | some want =>
      simp only [hwant, Option.any_some, Option.all_some, eqIgnoreAsciiCase,
        beq_iff_eq, beq_eq_false_iff_ne] at hname h ⊢
      intro hother
      exact h (hname.trans hother.symm)

/-- Searching for either host stops at the same route exactly when no route in
front of the first host-less one names either. -/
theorem find?_hostMatches_eq_iff (h : eqIgnoreAsciiCase host host' = false)
    (routes : List ResolvedRoute) :
    routes.find? (fun r => r.matcher.hostMatches host) =
        routes.find? (fun r => r.matcher.hostMatches host') ↔
      ∀ r ∈ routes.takeWhile (fun r => r.matcher.host.isSome),
        r.matcher.namesHost host = false ∧
          r.matcher.namesHost host' = false := by
  have h' : eqIgnoreAsciiCase host' host = false := by
    rw [← h, eqIgnoreAsciiCase, eqIgnoreAsciiCase, Bool.beq_comm]
  -- A route that matches one host only cannot be what the other search finds.
  have hfind : ∀ (host : Str) (r : ResolvedRoute) (rest : List ResolvedRoute),
      r.matcher.hostMatches host = false →
        rest.find? (fun r => r.matcher.hostMatches host) ≠ some r := by
    intro host r rest hr hsome
    simp [List.find?_some hsome] at hr
  induction routes with
  | nil => simp
  | cons r rest ih =>
      cases hhost : r.matcher.host with
      | none => simp [CompiledMatcher.hostMatches, hhost]
      | some want =>
          rw [List.takeWhile_cons_of_pos (by simp [hhost]),
            List.forall_mem_cons, List.find?_cons, List.find?_cons,
            CompiledMatcher.hostMatches_eq, CompiledMatcher.hostMatches_eq]
          cases hname : r.matcher.namesHost host with
          | true =>
              have hother := hostMatches_eq_false_of_namesHost h hname
              have hother' := hother
              rw [CompiledMatcher.hostMatches_eq, Bool.or_eq_false_iff]
                at hother'
              simp [hhost, hother'.2, (hfind host' r rest hother).symm]
          | false =>
              cases hname' : r.matcher.namesHost host' with
              | true =>
                  have hother := hostMatches_eq_false_of_namesHost h' hname'
                  simp [hhost, hfind host r rest hother]
              | false => simp [hhost, ih]

end Agreement

theorem PolicySnapshot.resolve_eq_iff (snapshot : PolicySnapshot)
    (host host' path : Str) (method : Method) :
    snapshot.resolve host path method = snapshot.resolve host' path method ↔
      eqIgnoreAsciiCase host host' = true ∨
      ∀ r ∈ snapshot.hostRoutes path method,
        r.matcher.namesHost host = false ∧
          r.matcher.namesHost host' = false := by
  rw [PolicySnapshot.resolve_eq, PolicySnapshot.resolve_eq]
  cases hcase : eqIgnoreAsciiCase host host' with
  | true => simp [hostMatches_congr hcase]
  | false =>
      rw [find?_hostMatches_eq_iff hcase, PolicySnapshot.hostRoutes]
      simp

/-- Routing agrees with the key on hosts exactly when two hosts the key
identifies differ in case alone, or no route in reach names either of them. -/
theorem PolicySnapshot.resolve_agrees_with_normalizeHost_iff
    (snapshot : PolicySnapshot) (scheme host host' path : Str)
    (method : Method) :
    (normalizeHost host scheme = normalizeHost host' scheme →
      snapshot.resolve host path method =
        snapshot.resolve host' path method) ↔
    (normalizeHost host scheme = normalizeHost host' scheme →
      eqIgnoreAsciiCase host host' = true ∨
      ∀ r ∈ snapshot.hostRoutes path method,
        r.matcher.namesHost host = false ∧
          r.matcher.namesHost host' = false) :=
  imp_congr_right fun _ => snapshot.resolve_eq_iff host host' path method

/-- A site named by one route, with everything else left to the next: spelling
out the port keeps the key and changes the route. -/
theorem PolicySnapshot.resolve_default_port_disagrees :
    let shop : ResolvedRoute :=
      ⟨"shop".toList, ⟨some "shop.example.com".toList, ⟨fun _ => true⟩, none⟩,
        { id := "shop".toList,
          matcher := .detailed (some "shop.example.com".toList) "/**".toList
            none }⟩
    let rest : ResolvedRoute :=
      ⟨"rest".toList, ⟨none, ⟨fun _ => true⟩, none⟩,
        { id := "rest".toList, matcher := .path "/**".toList }⟩
    let snapshot : PolicySnapshot := ⟨[shop, rest], {}⟩
    ¬(normalizeHost "shop.example.com".toList "https".toList =
        normalizeHost "shop.example.com:443".toList "https".toList →
      snapshot.resolve "shop.example.com".toList "/cart".toList .get =
        snapshot.resolve "shop.example.com:443".toList "/cart".toList
          .get) := by
  intro shop rest snapshot h
  have hroute := congrArg (Option.map ResolvedRoute.id) (h (by decide))
  revert hroute
  decide

end Harmost.Policy
