import Harmost.Cache.Store.Purge

/-!
# Who may attach to a fill

A reader that finds no finished entry follows the newest fill of its key, or
the fill that its tag names.  Neither way asks whether a purge has marked the
fill or whether the fill was meant for its own request only, so a body can be
read by whoever comes for exactly as long as its writer holds on to it.
-/

namespace Harmost.Cache

open Harmost.Support
open Harmost.Config
open Harmost.Http
open Harmost.Proxy

namespace BoundedStore

/-- The body behind a hit. -/
def Hit.body : Hit → ℕ
  | .complete body => body
  | .following body => body

/-- Some reader that starts now is given this body. -/
def Readable (s : BoundedStore) (id : ℕ) : Prop :=
  (∃ combined m hit, (s.lookup combined).2 = some (m, hit) ∧ hit.body = id) ∨
    ∃ combined tag m hit, s.lookupStreamingWrite combined tag = some (m, hit) ∧
      hit.body = id

/-! ## The newest fill -/

/-- The choice between the newest fill so far and the next one. -/
def newer (best : Option (ℕ × Temp)) (entry : Sigma fun _ : ℕ => Temp) :
    Option (ℕ × Temp) :=
  match best with
  | none => some (entry.1, entry.2)
  | some (id, fill) =>
      if id ≤ entry.1 then some (entry.1, entry.2) else some (id, fill)

theorem foldl_newer_mem (entries : List (Sigma fun _ : ℕ => Temp))
    (best : Option (ℕ × Temp)) {id : ℕ} {fill : Temp}
    (h : entries.foldl newer best = some (id, fill)) :
    best = some (id, fill) ∨
      (⟨id, fill⟩ : Sigma fun _ : ℕ => Temp) ∈ entries := by
  induction entries generalizing best with
  | nil => exact .inl h
  | cons entry rest ih =>
      rcases ih (newer best entry) h with hbest | hrest
      · unfold newer at hbest
        split at hbest
        · cases hbest
          exact .inr List.mem_cons_self
        · split_ifs at hbest
          · cases hbest
            exact .inr List.mem_cons_self
          · exact .inl hbest
      · exact .inr (List.mem_cons_of_mem entry hrest)

theorem foldl_newer_isSome (entries : List (Sigma fun _ : ℕ => Temp))
    (best : Option (ℕ × Temp)) (h : best.isSome ∨ entries ≠ []) :
    (entries.foldl newer best).isSome := by
  induction entries generalizing best with
  | nil => exact h.resolve_right fun hnil => hnil rfl
  | cons entry rest ih =>
      refine ih (newer best entry) (.inl ?_)
      unfold newer
      split
      · rfl
      · split_ifs <;> rfl

theorem newestFill_mem {s : BoundedStore} {combined : Str} {id : ℕ}
    {fill : Temp} (h : s.newestFill combined = some (id, fill)) :
    s.temp.lookup id = some fill ∧ fill.key = combined := by
  rcases foldl_newer_mem _ none h with hnone | hmem
  · cases hnone
  · obtain ⟨hentry, hkey⟩ := List.mem_filter.mp hmem
    exact ⟨AssocMap.mem_entries_iff.mp hentry, beq_iff_eq.mp hkey⟩

/-- A registered fill keeps its key from being missed. -/
theorem newestFill_isSome {s : BoundedStore} {id : ℕ} {fill : Temp}
    (h : s.temp.lookup id = some fill) : (s.newestFill fill.key).isSome := by
  have hmem : (⟨id, fill⟩ : Sigma fun _ : ℕ => Temp) ∈
      s.temp.entries.filter fun entry => entry.2.key == fill.key :=
    List.mem_filter.mpr
      ⟨AssocMap.mem_entries_iff.mpr h, beq_self_eq_true fill.key⟩
  exact foldl_newer_isSome _ none (.inr (List.ne_nil_of_mem hmem))

/-! ## Hits -/

/-- A lookup answers with a finished entry or with a registered fill. -/
theorem lookup_cases {s : BoundedStore} {combined : Str}
    {answer : BinaryMeta × Hit} (h : (s.lookup combined).2 = some answer) :
    (∃ entry, s.cached.lookup combined = some entry ∧
        answer = (entry.serialized, .complete entry.body)) ∨
      ∃ id fill, s.temp.lookup id = some fill ∧ fill.key = combined ∧
        answer = (fill.serialized, .following fill.body) := by
  unfold lookup at h
  split at h
  · rename_i entry hentry
    exact .inl ⟨entry, hentry, (Option.some.inj h).symm⟩
  · obtain ⟨⟨id, fill⟩, hfill, rfl⟩ := Option.map_eq_some_iff.mp h
    obtain ⟨hlookup, hkey⟩ := newestFill_mem hfill
    exact .inr ⟨id, fill, hlookup, hkey, rfl⟩

theorem lookupStreamingWrite_eq_some_iff {s : BoundedStore} {combined : Str}
    {id : ℕ} {answer : BinaryMeta × Hit} :
    s.lookupStreamingWrite combined id = some answer ↔
      ∃ fill, s.temp.lookup id = some fill ∧ fill.key = combined ∧
        answer = (fill.serialized, .following fill.body) := by
  simp only [lookupStreamingWrite, Option.map_eq_some_iff,
    Option.filter_eq_some_iff, beq_iff_eq]
  constructor
  · rintro ⟨fill, ⟨hfill, hkey⟩, rfl⟩
    exact ⟨fill, hfill, hkey, rfl⟩
  · rintro ⟨fill, hfill, hkey, rfl⟩
    exact ⟨fill, ⟨hfill, hkey⟩, rfl⟩

end BoundedStore

namespace System

open BoundedStore

variable {sys : System} {cfg : CacheDefaults}

theorem Inv.mem_temp_iff (h : sys.Inv cfg 0) {id : ℕ} :
    id ∈ sys.store.temp ↔ id ∈ sys.writers := by
  refine ⟨h.registered id, fun hid => ?_⟩
  obtain ⟨writer, hwriter⟩ :=
    Option.isSome_iff_exists.mp (AList.lookup_isSome.mpr hid)
  obtain ⟨fill, hfill, -⟩ := h.owned id writer hwriter
  exact AssocMap.mem_of_lookup hfill

/-- A fill is registered under the id of its body. -/
theorem Inv.body_eq (h : sys.Inv cfg 0) {id : ℕ} {fill : Temp}
    (hfill : sys.store.temp.lookup id = some fill) : fill.body = id := by
  have hid : id ∈ sys.writers := h.registered id (AssocMap.mem_of_lookup hfill)
  obtain ⟨writer, hwriter⟩ :=
    Option.isSome_iff_exists.mp (AList.lookup_isSome.mpr hid)
  obtain ⟨fill', hfill', howns⟩ := h.owned id writer hwriter
  obtain rfl := Option.some.inj (hfill.symm.trans hfill')
  exact howns.body_eq

/-- The bodies that readers are given: those of the finished entries, and those
somebody is still writing. -/
theorem Inv.readable_iff (h : sys.Inv cfg 0) {id : ℕ} :
    sys.store.Readable id ↔
      (∃ key entry, sys.store.cached.lookup key = some entry ∧
        entry.body = id) ∨ id ∈ sys.writers := by
  have hfills : ∀ {id' : ℕ} {fill : Temp},
      sys.store.temp.lookup id' = some fill → fill.body = id →
        id ∈ sys.writers := by
    intro id' fill hfill hbody
    have hid : id' = id := (h.body_eq hfill).symm.trans hbody
    exact h.registered id (AssocMap.mem_of_lookup (hid ▸ hfill))
  constructor
  · rintro (⟨combined, m, hit, hlookup, hbody⟩ |
      ⟨combined, tag, m, hit, hlookup, hbody⟩)
    · rcases lookup_cases hlookup with
        ⟨entry, hentry, heq⟩ | ⟨id', fill, hfill, -, heq⟩
      · obtain ⟨-, rfl⟩ := Prod.mk.inj heq
        exact .inl ⟨combined, entry, hentry, hbody⟩
      · obtain ⟨-, rfl⟩ := Prod.mk.inj heq
        exact .inr (hfills hfill hbody)
    · obtain ⟨fill, hfill, -, heq⟩ :=
        lookupStreamingWrite_eq_some_iff.mp hlookup
      obtain ⟨-, rfl⟩ := Prod.mk.inj heq
      exact .inr (hfills hfill hbody)
  · rintro (⟨key, entry, hentry, rfl⟩ | hid)
    · refine .inl ⟨key, entry.serialized, .complete entry.body, ?_, rfl⟩
      simp [lookup, hentry]
    · obtain ⟨fill, hfill⟩ := Option.isSome_iff_exists.mp
        (AList.lookup_isSome.mpr (h.mem_temp_iff.mpr hid))
      exact .inr ⟨fill.key, id, fill.serialized, .following fill.body,
        lookupStreamingWrite_eq_some_iff.mpr ⟨fill, hfill, rfl, rfl⟩,
        h.body_eq hfill⟩

/-! ## Readers after a purge -/

/-- A marked fill is dead as long as nobody else has its body. -/
theorem Inv.dead_of_marked (h : sys.Inv cfg 0) {id : ℕ} {fill : Temp}
    (hfill : sys.store.temp.lookup id = some fill)
    (hmarked : fill.invalidated = true) : sys.store.Dead id := by
  have hid : id ∈ sys.writers := h.registered id (AssocMap.mem_of_lookup hfill)
  refine ⟨h.fresh id hid, ?_, ?_⟩
  · rintro key entry hentry rfl
    exact (h.bodies key entry hentry).2 hid
  · intro fill' hfill'
    obtain rfl := Option.some.inj (hfill.symm.trans hfill')
    exact hmarked

/-- After a purge has returned, readers that start anew are kept away from a
fill that it marked exactly when the fill's writer has gone. -/
theorem purge_new_readers (cfg : CacheDefaults) (before : List Op)
    (request : PurgeRequest) (after : List Op) (id : ℕ) (fill : Temp)
    (hfill : (((init cfg).run before).store.purge request).temp.lookup id =
      some fill)
    (hmarked : fill.invalidated = true) :
    ¬((init cfg).run (before ++ .purge request :: after)).store.Readable id ↔
      id ∉ ((init cfg).run (before ++ .purge request :: after)).writers := by
  have hpurged := (inv_run cfg before).step (.purge request)
  have hdead := dead_run hpurged (hpurged.dead_of_marked hfill hmarked) after
  have hafter : (init cfg).run (before ++ .purge request :: after) =
      (((init cfg).run before).step (.purge request)).run after :=
    run_append _ _ _ _
  rw [not_iff_not, (inv_run cfg _).readable_iff, or_iff_right]
  rintro ⟨key, entry, hentry, hbody⟩
  rw [hafter] at hentry
  exact hdead.gone key entry hentry hbody

/-- A page is purged while it is rendered.  Readers are kept away from the old
render once its writer has dropped it. -/
theorem purge_new_readers_dropped :
    (((init {}).run [.getMissHandler ⟨['k'], ['/', 'p']⟩ ⟨[], some ([], [])⟩]
        ).store.purge (.paths [['/', 'p']])).temp.lookup 0 =
          some ⟨['k'], ([], []), 0, false, [], ['/', 'p'], true⟩ ∧
      ¬((init {}).run
          ([.getMissHandler ⟨['k'], ['/', 'p']⟩ ⟨[], some ([], [])⟩] ++
            .purge (.paths [['/', 'p']]) :: [.drop 0])).store.Readable 0 := by
  refine ⟨rfl, (purge_new_readers {} _ _ _ 0 _ rfl rfl).mpr ?_⟩
  decide

/-- A page is purged while it is rendered, and the next request for it is given
the old render. -/
theorem purged_fill_is_found :
    (((init {}).run [.getMissHandler ⟨['k'], ['/', 'p']⟩ ⟨[], some ([], [])⟩]
        ).store.purge (.paths [['/', 'p']])).temp.lookup 0 =
          some ⟨['k'], ([], []), 0, false, [], ['/', 'p'], true⟩ ∧
      (((init {}).run
          [.getMissHandler ⟨['k'], ['/', 'p']⟩ ⟨[], some ([], [])⟩,
            .purge (.paths [['/', 'p']]), .writeBody 0 [1] false]
        ).store.lookup ['k']).2 = some (([], []), .following 0) ∧
      ((init {}).run
          [.getMissHandler ⟨['k'], ['/', 'p']⟩ ⟨[], some ([], [])⟩,
            .purge (.paths [['/', 'p']]), .writeBody 0 [1] false]
        ).store.lookupStreamingWrite ['k'] 0 =
          some (([], []), .following 0) :=
  ⟨rfl, rfl, rfl⟩

/-! ## Readers of a response that must not be stored -/

/-- No lookup in any run is given a fill that was registered with this key and
metadata. -/
def NeverFound (cfg : CacheDefaults) (key : StoreKey) (m : EntryMeta) : Prop :=
  ∀ before after h combined answer,
    (((init cfg).run before).store.getMissHandler key m).2 = some h →
      (((init cfg).run (before ++ .getMissHandler key m :: after)
        ).store.lookup combined).2 = some answer →
        answer.2.body ≠ h.id

/-- Transient metadata is charged without tags and path, and is refused
outright if it exceeds the budget. -/
theorem getMissHandler_transient_none {s : BoundedStore} {m : EntryMeta}
    (htransient : m.headers.containsKey transientHeader.text = true)
    (hlarge : ∀ serialized, m.serialized = some serialized →
      s.maxBytes < metaBytes serialized) (key : StoreKey) :
    (s.getMissHandler key m).2 = none := by
  simp only [getMissHandler, htransient, if_true]
  cases hserialized : m.serialized with
  | none => rfl
  | some serialized =>
      have hlt : s.maxBytes < metaBytes serialized + tagBytes [] + byteLen [] :=
        hlarge serialized hserialized
      simp only [reserve, if_pos hlt]

/-- A new store takes in metadata that fits the budget. -/
theorem getMissHandler_transient_new (cfg : CacheDefaults) {headers : HeaderMap}
    (htransient : headers.containsKey transientHeader.text = true)
    {serialized : BinaryMeta} (hfits : metaBytes serialized ≤ cfg.maxMemory)
    (key : StoreKey) :
    (BoundedStore.new cfg).getMissHandler key ⟨headers, some serialized⟩ =
      (((BoundedStore.new cfg).charge (metaBytes serialized)).register
          ⟨key.combined, serialized, 0, true, [], [], false⟩,
        some ⟨key.combined, 0, metaBytes serialized⟩) := by
  have hreserve : (BoundedStore.new cfg).reserve
      (metaBytes serialized + tagBytes [] + byteLen []) =
        ((BoundedStore.new cfg).charge (metaBytes serialized), true) :=
    reserve_of_fits ((Nat.zero_add _).trans_le hfits)
  simp only [getMissHandler, htransient, if_true, hreserve]
  rfl

theorem lookup_register_new (cfg : CacheDefaults) {fill : Temp}
    (hbody : fill.body = 0) (amount : ℕ) :
    ((((BoundedStore.new cfg).charge amount).register fill).lookup
      fill.key).2 = some (fill.serialized, .following 0) := by
  have hentries : (((BoundedStore.new cfg).charge amount).register
      fill).temp.entries = [⟨0, fill⟩] := rfl
  have hnewest : (((BoundedStore.new cfg).charge amount).register
      fill).newestFill fill.key = some (0, fill) := by
    simp [newestFill, hentries]
  have hcached : (((BoundedStore.new cfg).charge amount).register
      fill).cached.lookup fill.key = none := rfl
  simp [lookup, hcached, hnewest, hbody]

theorem run_singleton (sys : System) (op : Op) : sys.run [op] = sys.step op :=
  rfl

theorem step_getMissHandler {key : StoreKey} {m : EntryMeta}
    {store : BoundedStore} {h : FollowableMiss}
    (hstore : sys.store.getMissHandler key m = (store, some h)) :
    sys.step (.getMissHandler key m) = sys.keep h.id ⟨h, .writing⟩ store := by
  simp only [step, hstore]

/-- Where coalescing is off, other requests are kept from a response that must
not be stored only if no fill can be registered for it at all. -/
theorem transient_response_neverFound_iff (cfg : CacheDefaults)
    (now : SystemTime) (resp : ResponseHeader) (ctx : Ctx) (entry : CacheMeta)
    (key : StoreKey) (serialized : Option BinaryMeta)
    (hreuse : ctx.reuse = Reuse.ofDisposition (.eligible true false) false)
    (htransient : evaluateResponse resp.metadata ctx.routeCache ctx.keyHeaders
      false ctx.coalesceOverride = .transientOnly)
    (hentry : responseCacheFilter now resp ctx = .ok (.cacheable entry)) :
    NeverFound cfg key ⟨entry.header.headers, serialized⟩ ↔
      ∀ binary, serialized = some binary →
        cfg.maxMemory < metaBytes binary := by
  have hmarked : entry.header.headers.containsKey transientHeader.text = true :=
    responseCacheFilter_transient
      (by rw [hreuse]; exact htransient) hentry
  constructor
  · rintro hnever binary rfl
    by_contra hlarge
    have hnew := getMissHandler_transient_new cfg hmarked
      (Nat.not_lt.mp hlarge) key
    refine hnever [] [] _ key.combined (binary, .following 0)
      (congrArg Prod.snd hnew) ?_ rfl
    have hrun := run_singleton (init cfg)
      (.getMissHandler key ⟨entry.header.headers, some binary⟩)
    rw [List.nil_append, hrun, step_getMissHandler hnew, keep_store]
    exact lookup_register_new cfg rfl _
  · intro hlarge before after h combined answer hregistered _
    have hnone : (((init cfg).run before).store.getMissHandler key
        ⟨entry.header.headers, serialized⟩).2 = none := by
      refine getMissHandler_transient_none hmarked ?_ key
      rwa [(inv_run cfg before).configured]
    rw [hnone] at hregistered
    cases hregistered

/-- A response whose shared lifetime is zero: `Cache-Control: s-maxage=0`. -/
def expiredResponse : ResponseHeader where
  status := 200
  headers :=
    [(⟨"cache-control".toList, rfl, rfl⟩,
      ⟨[0x73, 0x2d, 0x6d, 0x61, 0x78, 0x61, 0x67, 0x65, 0x3d, 0x30], rfl⟩)]

/-- A request that may be stored and must not be coalesced. -/
def uncoalescedCtx : Ctx where
  policy := ⟨[], {}⟩
  reuse := .ofDisposition (.eligible true false) false

/-- What the filter makes of the expired response. -/
def expiredEntry : CacheMeta where
  freshUntil := max uncoalescedCtx.policy.coalesceWait 1000000
  created := 0
  staleWhileRevalidateSec := 0
  staleIfErrorSec := 0
  header := (expiredResponse.removeHeader transientHeader).insertHeader
    transientHeader ⟨[0x31], rfl⟩

theorem evaluateResponse_expiredResponse :
    evaluateResponse expiredResponse.metadata uncoalescedCtx.routeCache
      uncoalescedCtx.keyHeaders false uncoalescedCtx.coalesceOverride =
        .transientOnly := by
  decide

theorem responseCacheFilter_expiredResponse :
    responseCacheFilter 0 expiredResponse uncoalescedCtx =
      .ok (.cacheable expiredEntry) := by
  have htransient : evaluateResponse expiredResponse.metadata
      uncoalescedCtx.routeCache uncoalescedCtx.keyHeaders
      uncoalescedCtx.reuse.transientOnly uncoalescedCtx.coalesceOverride =
        .transientOnly := evaluateResponse_expiredResponse
  rw [responseCacheFilter, htransient]
  rfl

/-- Where its metadata is larger than the budget, nobody is given the
response. -/
theorem transient_response_neverFound_one_byte :
    responseCacheFilter 0 expiredResponse uncoalescedCtx =
        .ok (.cacheable expiredEntry) ∧
      NeverFound { maxMemory := 1 } ⟨['k'], ['/']⟩
        ⟨expiredEntry.header.headers, some ([1], [2])⟩ := by
  refine ⟨responseCacheFilter_expiredResponse,
    (transient_response_neverFound_iff { maxMemory := 1 } 0 expiredResponse
      uncoalescedCtx expiredEntry _ (some ([1], [2])) rfl
      evaluateResponse_expiredResponse
      responseCacheFilter_expiredResponse).mpr ?_⟩
  rintro binary hbinary
  cases hbinary
  decide

/-- Coalescing is off and the response must not be stored, and still the next
request is given it. -/
theorem uncoalesced_response_is_shared :
    uncoalescedCtx.reuse = .ofDisposition (.eligible true false) false ∧
      evaluateResponse expiredResponse.metadata uncoalescedCtx.routeCache
        uncoalescedCtx.keyHeaders false uncoalescedCtx.coalesceOverride =
          .transientOnly ∧
      responseCacheFilter 0 expiredResponse uncoalescedCtx =
        .ok (.cacheable expiredEntry) ∧
      (((init {}).run [.getMissHandler ⟨['k'], ['/']⟩
          ⟨expiredEntry.header.headers, some ([1], [])⟩]).store.lookup
            ['k']).2 = some (([1], []), .following 0) :=
  ⟨rfl, evaluateResponse_expiredResponse, responseCacheFilter_expiredResponse,
    rfl⟩

end System

end Harmost.Cache
