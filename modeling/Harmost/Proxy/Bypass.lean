import Harmost.Proxy.Filters

/-!
# Requests that must bypass

Some requests ask for a response meant for one client, or for no response at
all.  The conditions are stated here on the header lines as received; the
adapter, the class and the policy then have to agree that nothing is reused,
whatever a route declares.
-/

namespace Harmost.Proxy

open Harmost.Support
open Harmost.Http
open Harmost.Classifier
open Harmost.Config
open Harmost.Cache

/-- A header line of this name is present. -/
def Carries (headers : HeaderMap) (name : Str) : Prop :=
  ∃ line ∈ headers, line.1.text = name

/-- The bytes of a `Cookie` line hold a cookie of this name: at the start or
behind a semicolon, with an equals sign, a semicolon or nothing behind it, and
only whitespace around it. -/
def HoldsCookie (bytes : List UInt8) (name : Str) : Prop :=
  ∃ front blanks blanks' back,
    bytes = front ++ (blanks ++ (asciiBytes name ++ blanks')) ++ back ∧
    (front = [] ∨ front.getLast? = some 0x3b) ∧
    (∀ b ∈ blanks, RequestMetadata.isAsciiWhitespace b = true) ∧
    (∀ b ∈ blanks', RequestMetadata.isAsciiWhitespace b = true) ∧
    (back = [] ∨ back.head? = some 0x3d ∨ back.head? = some 0x3b)

/-- The requests no response may be reused for. -/
inductive MustBypass (req : RequestMetadata) : Prop where
  | authorization (h : Carries req.headers "authorization".toList)
  | upgrade (h : Carries req.headers "upgrade".toList)
  | nextAction (h : Carries req.headers "next-action".toList)
  | method (hget : req.method ≠ .get) (hhead : req.method ≠ .head)
  | draft (line : HeaderName × HeaderValue) (hline : line ∈ req.headers)
      (hcookie : line.1.text = "cookie".toList) (name : Str)
      (hname : name = "__prerender_bypass".toList ∨
        name = "__next_preview_data".toList)
      (h : HoldsCookie line.2.bytes name)

/-! ## From the lines to the adapter's tests -/

theorem mem_getAll_iff {headers : HeaderMap} {name : Str}
    {value : HeaderValue} :
    value ∈ headers.getAll name ↔
      ∃ line ∈ headers, line.1.text = toAsciiLowercase name ∧
        line.2 = value := by
  simp [HeaderMap.getAll, and_assoc]

theorem containsKey_iff_carries {headers : HeaderMap} {name : Str}
    (hlower : toAsciiLowercase name = name) :
    headers.containsKey name = true ↔ Carries headers name := by
  rw [HeaderMap.containsKey, Bool.not_eq_true', List.isEmpty_eq_false_iff]
  constructor
  · intro hne
    obtain ⟨value, hvalue⟩ := List.exists_mem_of_ne_nil _ hne
    obtain ⟨line, hline, hname, _⟩ := mem_getAll_iff.mp hvalue
    exact ⟨line, hline, hname.trans hlower⟩
  · rintro ⟨line, hline, hname⟩
    exact List.ne_nil_of_mem
      (mem_getAll_iff.mpr ⟨line, hline, hname.trans hlower.symm, rfl⟩)

/-- A byte that can neither end a cookie's name nor be trimmed from it. -/
def isNameByte (b : UInt8) : Bool :=
  b != 0x3b && b != 0x3d && !RequestMetadata.isAsciiWhitespace b

theorem isNameByte_iff {b : UInt8} :
    isNameByte b = true ↔
      b ≠ 0x3b ∧ b ≠ 0x3d ∧ RequestMetadata.isAsciiWhitespace b = false := by
  simp [isNameByte, and_assoc]

theorem blank_ne {b : UInt8}
    (h : RequestMetadata.isAsciiWhitespace b = true) : b ≠ 0x3b ∧ b ≠ 0x3d := by
  constructor <;> (rintro rfl; cases h)

section Cookie

variable {name : Str} (hname : (asciiBytes name).all isNameByte = true)
  {blanks blanks' back : List UInt8}
  (hblanks : ∀ b ∈ blanks, RequestMetadata.isAsciiWhitespace b = true)
  (hblanks' : ∀ b ∈ blanks', RequestMetadata.isAsciiWhitespace b = true)

include hname hblanks hblanks'

/-- Neither separator occurs in a padded name. -/
theorem ne_of_mem_padded {b : UInt8}
    (hb : b ∈ blanks ++ (asciiBytes name ++ blanks')) :
    b ≠ 0x3b ∧ b ≠ 0x3d := by
  rw [List.mem_append, List.mem_append] at hb
  rcases hb with hb | hb | hb
  · exact blank_ne (hblanks b hb)
  · have hbyte := isNameByte_iff.mp (List.all_eq_true.mp hname b hb)
    exact ⟨hbyte.1, hbyte.2.1⟩
  · exact blank_ne (hblanks' b hb)

theorem trim_padded :
    trimMatches RequestMetadata.isAsciiWhitespace
      (blanks ++ (asciiBytes name ++ blanks')) = asciiBytes name := by
  apply trimMatches_pad hblanks _ hblanks'
  intro b hb
  exact (isNameByte_iff.mp (List.all_eq_true.mp hname b hb)).2.2

/-- The text behind the padded name starts its piece or ends it. -/
theorem exists_piece_padded
    (hback : back = [] ∨ back.head? = some 0x3d ∨ back.head? = some 0x3b) :
    ∃ pair ∈ (blanks ++ (asciiBytes name ++ blanks') ++ back).splitOn 0x3b,
      trimMatches RequestMetadata.isAsciiWhitespace
        (pair.takeWhile (· != 0x3d)) = asciiBytes name := by
  have hpadded := @ne_of_mem_padded name hname blanks blanks' hblanks hblanks'
  have htrim := trim_padded hname hblanks hblanks'
  generalize blanks ++ (asciiBytes name ++ blanks') = padded at hpadded htrim ⊢
  have hsplit := splitOn_append_of_notMem
    (fun hmem => (hpadded hmem).1 rfl : (0x3b : UInt8) ∉ padded) back
  have hkeep : ∀ rest : List UInt8, (padded ++ rest).takeWhile (· != 0x3d) =
      padded ++ rest.takeWhile (· != 0x3d) := by
    intro rest
    apply List.takeWhile_append_of_pos
    intro b hb
    rw [bne_iff_ne]
    exact (hpadded hb).2
  have hpiece : ∃ piece pieces, back.splitOn 0x3b = piece :: pieces ∧
      piece.takeWhile (· != 0x3d) = [] := by
    rcases hback with rfl | hequals | hsemicolon
    · exact ⟨[], [], rfl, rfl⟩
    · obtain ⟨after, rfl⟩ := List.head?_eq_some_iff.mp hequals
      cases hafter : after.splitOn (0x3b : UInt8) with
      | nil => exact (List.splitOn_ne_nil _ after hafter).elim
      | cons piece pieces =>
          refine ⟨0x3d :: piece, pieces, ?_, rfl⟩
          rw [List.splitOn_cons_eq_if_modifyHead, if_neg (by decide), hafter,
            List.modifyHead_cons]
    · obtain ⟨after, rfl⟩ := List.head?_eq_some_iff.mp hsemicolon
      refine ⟨[], after.splitOn 0x3b, ?_, rfl⟩
      rw [List.splitOn_cons_eq_if_modifyHead, if_pos (by decide)]
  obtain ⟨piece, pieces, hpieces, hnone⟩ := hpiece
  rw [hpieces, List.modifyHead_cons] at hsplit
  refine ⟨padded ++ piece, ?_, ?_⟩
  · rw [hsplit]
    exact List.mem_cons_self
  · rw [hkeep, hnone, List.append_nil, htrim]

end Cookie

/-- The adapter's search finds every cookie that is there. -/
theorem hasCookieNamed_of_holdsCookie {req : RequestMetadata} {name : Str}
    (hname : (asciiBytes name).all isNameByte = true)
    {line : HeaderName × HeaderValue} (hline : line ∈ req.headers)
    (hcookie : line.1.text = "cookie".toList)
    (h : HoldsCookie line.2.bytes name) : req.hasCookieNamed name = true := by
  obtain ⟨front, blanks, blanks', back, hbytes, hfront, hblanks, hblanks',
    hback⟩ := h
  obtain ⟨pair, hpair, htrim⟩ :=
    exists_piece_padded hname hblanks hblanks' hback
  have hmem : pair ∈ line.2.bytes.splitOn 0x3b := by
    rw [hbytes, List.append_assoc]
    rcases hfront with rfl | hlast
    · exact hpair
    · obtain ⟨front, rfl⟩ := List.getLast?_eq_some_iff.mp hlast
      rw [List.append_assoc, List.singleton_append,
        List.splitOn_append_cons_self]
      exact List.mem_append_right _ hpair
  rw [RequestMetadata.hasCookieNamed, List.any_eq_true]
  refine ⟨line.2, mem_getAll_iff.mpr ⟨line, hline, hcookie, rfl⟩, ?_⟩
  rw [List.any_eq_true]
  exact ⟨pair, hmem, beq_iff_eq.mpr htrim⟩

/-! ## From the adapter to the verdict -/

/-- An adapter's veto, a method that changes something and credentials are all
respected. -/
theorem evaluateRequest_bypass {req : RequestMetadata}
    {frameworkBypass : Option Str}
    (h : frameworkBypass ≠ none ∨ req.isSafeMethod = false ∨
      req.hasAuthorization = true)
    (class' : RequestClass) (route : Option RouteCache)
    (coalesceOverride cacheEnabled coalesceEnabled : Bool) :
    ∃ reason, evaluateRequest req class' frameworkBypass route coalesceOverride
      cacheEnabled coalesceEnabled = .bypass reason := by
  cases frameworkBypass with
  | some reason => exact ⟨_, rfl⟩
  | none =>
      simp only [evaluateRequest]
      by_cases hsafe : req.isSafeMethod = true
      · have hauthorization : req.hasAuthorization = true := by
          simpa [hsafe] using h
        exact ⟨.authorization, by simp [hsafe, hauthorization]⟩
      · exact ⟨.unsafeMethod, by simp [hsafe]⟩

theorem forceBypass_of {req : RequestMetadata}
    (h : req.isUpgrade = true ∨ NextJs.inDraftMode req = true ∨
      NextJs.isServerAction req = true) :
    (NextJs.classifyRequest req).forceBypass ≠ none := by
  unfold NextJs.classifyRequest
  by_cases hupgrade : req.isUpgrade = true
  · simp [hupgrade]
  by_cases hdraft : NextJs.inDraftMode req = true
  · simp [hupgrade, hdraft]
  · have haction : NextJs.isServerAction req = true := by
      simpa [hupgrade, hdraft] using h
    simp [hupgrade, hdraft, haction]

theorem MustBypass.cases {req : RequestMetadata} (h : MustBypass req) :
    (NextJs.classifyRequest req).forceBypass ≠ none ∨
      req.isSafeMethod = false ∨ req.hasAuthorization = true := by
  cases h with
  | authorization h =>
      exact .inr (.inr ((containsKey_iff_carries (by decide)).mpr h))
  | upgrade h =>
      left
      apply forceBypass_of
      exact .inl ((containsKey_iff_carries (by decide)).mpr h)
  | nextAction h =>
      left
      apply forceBypass_of
      exact .inr (.inr ((containsKey_iff_carries (by decide)).mpr h))
  | method hget hhead =>
      right; left
      simp [RequestMetadata.isSafeMethod, hget, hhead]
  | draft line hline hcookie name hname h =>
      left
      apply forceBypass_of
      right; left
      have hmem : name ∈ NextJs.draftCookies := by
        simpa only [NextJs.draftCookies, List.mem_cons, List.not_mem_nil,
          or_false] using hname
      have hplain : (NextJs.draftCookies.all fun name =>
          (asciiBytes name).all isNameByte) = true := by decide
      rw [NextJs.inDraftMode, List.any_eq_true]
      exact ⟨name, hmem, hasCookieNamed_of_holdsCookie
        (List.all_eq_true.mp hplain name hmem) hline hcookie h⟩

/-- A request that must bypass does, whatever the route declares, overrides
or switches on. -/
theorem mustBypass_bypasses (req : RequestMetadata) (h : MustBypass req)
    (declared : Option RequestClass) (route : Option RouteCache)
    (coalesceOverride cacheEnabled coalesceEnabled : Bool) :
    let hints := NextJs.classifyRequest req
    ∃ reason, evaluateRequest req
      (resolvedRequestClass req declared hints.class?) hints.forceBypass route
      coalesceOverride cacheEnabled coalesceEnabled = .bypass reason := by
  intro hints
  exact evaluateRequest_bypass h.cases _ route coalesceOverride cacheEnabled
    coalesceEnabled

/-- A draft cookie behind a byte that is not ASCII, on a route that overrides
everything. -/
theorem mustBypass_bypasses_draft :
    let req : RequestMetadata :=
      { method := .get
        host := "a.example".toList
        path := "/".toList
        query := none
        headers :=
          [(⟨"cookie".toList, by decide, by decide⟩,
            ⟨0xe9 :: asciiBytes "=1; __prerender_bypass=x".toList,
              by decide⟩)] }
    let route : RouteCache := { overrideOrigin := true }
    let hints := NextJs.classifyRequest req
    MustBypass req ∧
      ∃ reason, evaluateRequest req
        (resolvedRequestClass req (some .publicDocument) hints.class?)
        hints.forceBypass (some route) true true true = .bypass reason := by
  intro req route hints
  have hcookie : HoldsCookie
      (0xe9 :: asciiBytes "=1; __prerender_bypass=x".toList)
      "__prerender_bypass".toList :=
    ⟨0xe9 :: asciiBytes "=1;".toList, [0x20], [], asciiBytes "=x".toList,
      by decide, by decide, List.all_eq_true.mp (by decide),
      List.all_eq_true.mp (by decide), by decide⟩
  have h : MustBypass req :=
    .draft _ List.mem_cons_self rfl _ (.inl rfl) hcookie
  exact ⟨h, mustBypass_bypasses req h (some .publicDocument) (some route) true
    true true⟩

theorem ofDisposition_bypass {disposition : Disposition}
    (h : ∃ reason, disposition = .bypass reason) (coalesceOnly : Bool) :
    Reuse.ofDisposition disposition coalesceOnly = {} := by
  obtain ⟨reason, rfl⟩ := h
  rfl

/-- Nothing is reused for a request that must bypass. -/
theorem requestFilter_of_mustBypass {req : RequestMetadata}
    (h : MustBypass req) {ctx ctx' : Ctx}
    (hproceed : requestFilter NextJs.classifyRequest req ctx =
      .proceed ctx') : ctx'.reuse = {} := by
  simp only [requestFilter] at hproceed
  split_ifs at hproceed
  cases hproceed
  apply ofDisposition_bypass
  exact evaluateRequest_bypass h.cases _ _ _ _ _

end Harmost.Proxy
