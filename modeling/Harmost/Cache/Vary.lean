import Harmost.Cache.Policy
import Harmost.Cache.Variant

/-!
# The key honours `Vary`

The `Vary` text of a response is split, trimmed and folded by the policy; the
request headers are collected, escaped, joined and sorted by the key.  A
response that is shared at all may only vary on what the key separates.
-/

namespace Harmost.Cache

open Harmost.Support
open Harmost.Http
open Harmost.Classifier
open Harmost.Config

/-- A `Vary` token the key can honour: empty, the content coding, or one of the
key headers, and never `*`. -/
def VaryTokenSupported (keyHeaders : List Str) (token : Str) : Prop :=
  let name := toAsciiLowercase (trim token)
  name = [] ∨ name = "accept-encoding".toList ∨
    (name ≠ "*".toList ∧ ∃ k ∈ keyHeaders, toAsciiLowercase k = name)

theorem any_eqIgnoreAsciiCase (keyHeaders : List Str) (token : Str) :
    keyHeaders.any (fun k => eqIgnoreAsciiCase k (toAsciiLowercase token)) =
        true ↔
      ∃ k ∈ keyHeaders, toAsciiLowercase k = toAsciiLowercase token := by
  simp [eqIgnoreAsciiCase]

theorem firstUnsupported_eq_none_iff (keyHeaders tokens : List Str) :
    firstUnsupported keyHeaders tokens = none ↔
      ∀ token ∈ tokens, VaryTokenSupported keyHeaders token := by
  induction tokens with
  | nil => simp [firstUnsupported]
  | cons token tokens ih =>
      have hlisted := any_eqIgnoreAsciiCase keyHeaders (trim token)
      rw [List.forall_mem_cons, ← ih, firstUnsupported, VaryTokenSupported]
      simp only [List.isEmpty_iff, Bool.not_eq_true', ← Bool.not_eq_true,
        hlisted]
      split_ifs with hempty hstar hcoding hkey
      · simp only [hempty, true_or, true_and]
      · have hne : "*".toList ≠ [] := by decide
        have hother : "*".toList ≠ "accept-encoding".toList := by decide
        simp only [hstar, hne, hother, ne_eq, not_true_eq_false, false_and,
          or_self]
      · simp only [hcoding, true_or, or_true, true_and]
      · simp only [hkey, hstar, ne_eq, not_false_eq_true, true_and, or_true]
      · simp only [hempty, hcoding, hkey, and_false, or_self, false_and]

theorem unsupportedVary_eq_none_iff (vary : Str) (keyHeaders : List Str) :
    unsupportedVary vary keyHeaders = none ↔
      ∀ token ∈ vary.splitOn ',', VaryTokenSupported keyHeaders token :=
  firstUnsupported_eq_none_iff keyHeaders _

/-- Vary soundness.  Two requests with one canonical key cannot be told
apart by anything a shared response varies on: they carry the same raw values
for every header its `Vary` names, and the same content coding when it names
`Accept-Encoding`. -/
theorem evaluateResponse_vary_sound (builder : KeyBuilder)
    (req req' : RequestMetadata) (res : ResponseMetadata)
    (route : Option RouteCache) (coalesceOnly coalesceOverride : Bool)
    (vary : Str)
    (hnames : ∀ header ∈ builder.variantHeaders,
      toAsciiLowercase header ≠ encodingEntry)
    (hkey : (builder.build req).canonicalString =
      (builder.build req').canonicalString)
    (hshared : (evaluateResponse res route builder.variantHeaders coalesceOnly
      coalesceOverride).shared = true)
    (hvary : res.vary = some vary) :
    (∀ token ∈ vary.splitOn ',', trim token ≠ [] →
      toAsciiLowercase (trim token) ≠ "accept-encoding".toList →
      req.headers.getAll (trim token) = req'.headers.getAll (trim token)) ∧
    ((∃ token ∈ vary.splitOn ',',
        toAsciiLowercase (trim token) = "accept-encoding".toList) →
      normalizeAcceptEncoding req = normalizeAcceptEncoding req') := by
  have hbuild : builder.build req = builder.build req' :=
    CacheKey.parts_injective (CacheKey.parts_eq_of_canonicalString_eq hkey)
  have hcoding :=
    KeyBuilder.normalizeAcceptEncoding_eq_of_build_eq hbuild hnames
  have hsupported : ∀ token ∈ vary.splitOn ',',
      VaryTokenSupported builder.variantHeaders token := by
    obtain ⟨habsolute, _, _⟩ := evaluateResponse_shared_iff.mp hshared
    obtain ⟨_, hnone, _⟩ := absoluteRefusal_eq_none_iff.mp habsolute
    rw [hvary, Option.bind_some] at hnone
    exact (unsupportedVary_eq_none_iff vary _).mp hnone
  refine ⟨?_, fun _ => hcoding⟩
  intro token htoken hne hother
  rcases hsupported token htoken with hempty | haccept | ⟨_, k, hk, hkname⟩
  · exact (hne (List.map_eq_nil_iff.mp hempty)).elim
  · exact (hother haccept).elim
  · -- The token and the key header are one name up to case.
    rw [← HeaderMap.getAll_toAsciiLowercase req.headers,
      ← HeaderMap.getAll_toAsciiLowercase req'.headers, ← hkname,
      HeaderMap.getAll_toAsciiLowercase, HeaderMap.getAll_toAsciiLowercase]
    exact KeyBuilder.getAll_eq_of_build_eq hbuild hk fun _ => hcoding

/-- Two spellings of one host and one query, both asking for the payload a
client router fetches, and a response that varies on it. -/
theorem evaluateResponse_vary_sound_rsc :
    let rsc : HeaderName × HeaderValue :=
      (⟨"rsc".toList, by decide, by decide⟩, ⟨[0x31], by decide⟩)
    let builder : KeyBuilder :=
      ⟨"https".toList, none, ["rsc".toList], none⟩
    let req : RequestMetadata :=
      ⟨.get, "a.example".toList, "/".toList, some "p=1&q=2".toList, [rsc]⟩
    let req' : RequestMetadata :=
      ⟨.get, "A.example:443".toList, "/".toList, some "q=2&p=1".toList, [rsc]⟩
    let res : ResponseMetadata :=
      ⟨200, some "max-age=60".toList, false,
        some "RSC, Accept-Encoding".toList⟩
    (builder.build req).canonicalString =
        (builder.build req').canonicalString ∧
      (evaluateResponse res none builder.variantHeaders false
        false).shared = true ∧
      req.headers.getAll "RSC".toList = req'.headers.getAll "RSC".toList ∧
      normalizeAcceptEncoding req = normalizeAcceptEncoding req' := by
  intro rsc builder req req' res
  have hkey : (builder.build req).canonicalString =
      (builder.build req').canonicalString := by decide
  have hshared : (evaluateResponse res none builder.variantHeaders false
      false).shared = true := by decide
  have hsound := evaluateResponse_vary_sound builder req req' res none false
    false "RSC, Accept-Encoding".toList (by decide) hkey hshared rfl
  exact ⟨hkey, hshared,
    hsound.1 "RSC".toList (by decide) (by decide) (by decide),
    hsound.2 (by decide)⟩

end Harmost.Cache
