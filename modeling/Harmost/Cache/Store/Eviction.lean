import Harmost.Cache.Store.Coherence

/-!
# The order of eviction

`reserve` evicts from the front of the queue until the bytes fit.  Under CLOCK
an entry that was read is passed over once, so the entries go in two rounds:
those not read since they were queued, then those that were.
-/

namespace Harmost.Cache

open Harmost.Support
open Harmost.Config

/-! ## Two rounds -/

section Rounds

variable {α : Type*}

/-- What passes over the marked elements once, and then takes them too. -/
def rounds (marked : α → Bool) (l : List α) : List α :=
  (l.filter fun x => !marked x) ++ l.filter marked

theorem rounds_perm (marked : α → Bool) (l : List α) :
    (rounds marked l).Perm l :=
  List.perm_append_comm.trans (List.filter_append_perm marked l)

theorem rounds_cons_of_unmarked {marked : α → Bool} {x : α}
    (hx : marked x = false) (l : List α) :
    rounds marked (x :: l) = x :: rounds marked l := by
  simp [rounds, hx]

theorem rounds_congr {marked marked' : α → Bool} {l : List α}
    (hl : ∀ y ∈ l, marked y = marked' y) :
    rounds marked l = rounds marked' l := by
  rw [rounds, rounds, List.filter_congr hl,
    List.filter_congr fun y hy => congrArg not (hl y hy)]

/-- The first element is passed over: it goes to the end, and its mark goes. -/
theorem rounds_rotate {marked marked' : α → Bool} {x : α} {l : List α}
    (hx : marked x = true) (hx' : marked' x = false)
    (hl : ∀ y ∈ l, marked' y = marked y) :
    rounds marked' (l ++ [x]) = rounds marked (x :: l) := by
  have hkept : l.filter marked' = l.filter marked := List.filter_congr hl
  have hgone : (l.filter fun y => !marked' y) = l.filter fun y => !marked y :=
    List.filter_congr fun y hy => by rw [hl y hy]
  simp [rounds, hx, hx', hkept, hgone]

end Rounds

namespace BoundedStore

/-! ## The sequence of victims -/

/-- The order in which entries would be evicted, given whether entries that
were read are passed over. -/
def evictionOrder (s : BoundedStore) (spare : Bool) : List Str :=
  if spare then rounds s.isVisited s.order else s.order

/-- The sequence the victims of `reserve` are taken from. -/
def victims (s : BoundedStore) : List Str :=
  s.evictionOrder (decide (s.policy = .clock))

/-- The bytes a key accounts for. -/
def entrySize (s : BoundedStore) (key : Str) : ℕ :=
  ((s.cached.lookup key).map (Stored.size s.cells)).getD 0

/-- Is there room for more bytes once these entries are gone? -/
def RoomAfter (s : BoundedStore) (additional : ℕ) (evicted : List Str) : Prop :=
  s.used - (evicted.map s.entrySize).sum + additional ≤ s.maxBytes

instance (s : BoundedStore) (additional : ℕ) (evicted : List Str) :
    Decidable (s.RoomAfter additional evicted) :=
  inferInstanceAs (Decidable (_ ≤ _))

variable {s : BoundedStore}

theorem victims_eq (s : BoundedStore) :
    s.victims = s.evictionOrder (decide (0 < s.chances)) := by
  rw [victims, chances]
  cases s.policy with
  | fifo => rfl
  | clock => simp

theorem evictionOrder_perm (s : BoundedStore) (spare : Bool) :
    (s.evictionOrder spare).Perm s.order := by
  cases spare with
  | false => rfl
  | true => exact rounds_perm s.isVisited s.order

/-! ## The loop ends by itself -/

theorem makeRoom_of_order_nil (horder : s.order = [])
    (additional turns chances : ℕ) :
    makeRoom additional turns chances s =
      (s, decide (s.used + additional ≤ s.maxBytes)) := by
  cases turns with
  | zero => rfl
  | succ turns =>
      rw [makeRoom, horder]
      split_ifs with hfits
      · rw [decide_eq_true hfits]
      · rw [decide_eq_false hfits]

variable {additional : ℕ}

/-- More turns than the loop needs change nothing. -/
theorem makeRoom_eq_of_le {chances turns turns' : ℕ}
    (h : s.order.length + chances ≤ turns)
    (h' : s.order.length + chances ≤ turns') :
    makeRoom additional turns chances s =
      makeRoom additional turns' chances s := by
  induction turns generalizing turns' chances s with
  | zero =>
      have horder : s.order = [] := List.eq_nil_of_length_eq_zero (by omega)
      rw [makeRoom_of_order_nil horder, makeRoom_of_order_nil horder]
  | succ turns ih =>
      cases turns' with
      | zero =>
          have horder : s.order = [] := List.eq_nil_of_length_eq_zero (by omega)
          rw [makeRoom_of_order_nil horder, makeRoom_of_order_nil horder]
      | succ turns' =>
          rw [makeRoom, makeRoom]
          split_ifs with hfits
          · rfl
          · split
            · rfl
            · rename_i victim rest horder
              rw [horder, List.length_cons] at h h'
              split_ifs with hspared
              · refine ih ?_ ?_ <;>
                  simp only [List.length_append, List.length_singleton] <;>
                  omega
              · split <;> exact ih (by dsimp only; omega) (by dsimp only; omega)

/-! ## One turn -/

theorem discard_cached (key : Str) (entry : Stored) :
    (s.discard key entry).cached = s.cached.erase key :=
  rfl

theorem discard_cells (key : Str) (entry : Stored) :
    (s.discard key entry).cells = s.cells :=
  rfl

theorem isVisited_setVisited (key key' : Str) :
    (s.setVisited key false).isVisited key' =
      (s.isVisited key' && decide (key' ≠ key)) := by
  unfold setVisited
  split
  · rename_i hnone
    by_cases hkey : key' = key
    · subst hkey
      simp [isVisited, hnone]
    · simp [hkey]
  · by_cases hkey : key' = key
    · subst hkey
      simp [isVisited]
    · simp [isVisited, AList.lookup_insert_ne hkey, hkey]

theorem entrySize_setVisited (key key' : Str) (visited : Bool) :
    (s.setVisited key visited).entrySize key' = s.entrySize key' := by
  unfold setVisited
  split
  · rfl
  · rename_i entry hentry
    by_cases hkey : key' = key
    · subst hkey
      simp [entrySize, hentry, Stored.size]
    · simp [entrySize, AList.lookup_insert_ne hkey]

theorem used_setVisited (key : Str) (visited : Bool) :
    (s.setVisited key visited).used = s.used := by
  unfold setVisited
  split <;> rfl

theorem roomAfter_spare {order evicted : List Str} {key : Str}
    {additional : ℕ} :
    RoomAfter { s.setVisited key false with order := order } additional
        evicted ↔ s.RoomAfter additional evicted := by
  have hsizes : evicted.map (s.setVisited key false).entrySize =
      evicted.map s.entrySize :=
    List.map_congr_left fun key' _ => entrySize_setVisited key key' false
  have hmax := (revises_setVisited s key false).maxBytes
  change (s.setVisited key false).used -
      (evicted.map (s.setVisited key false).entrySize).sum + additional ≤
    (s.setVisited key false).maxBytes ↔ _
  rw [hsizes, hmax, used_setVisited, RoomAfter]

theorem roomAfter_evict {victim : Str} {entry : Stored} {order keys : List Str}
    {additional evicted : ℕ} (hentry : s.cached.lookup victim = some entry)
    (hkeys : ∀ key ∈ keys, key ≠ victim) :
    RoomAfter
        { s.discard victim entry with order := order, evicted := evicted }
        additional keys ↔
      s.RoomAfter additional (victim :: keys) := by
  have hsizes : keys.map (s.discard victim entry).entrySize =
      keys.map s.entrySize := by
    refine List.map_congr_left fun key hkey => ?_
    rw [entrySize, entrySize, discard_cached, discard_cells,
      AList.lookup_erase_ne (hkeys key hkey)]
  have hvictim : s.entrySize victim = entry.size s.cells := by
    simp [entrySize, hentry]
  change s.used - entry.size s.cells -
      (keys.map (s.discard victim entry).entrySize).sum + additional ≤
    s.maxBytes ↔ _
  rw [hsizes, RoomAfter, List.map_cons, List.sum_cons, hvictim, Nat.sub_sub]

section Turn

variable {victim : Str} {rest : List Str} (hnodup : s.order.Nodup)
  (horder : s.order = victim :: rest)

include hnodup horder

theorem ne_of_mem_rest {key : Str} (hkey : key ∈ rest) : key ≠ victim := by
  rw [horder, List.nodup_cons] at hnodup
  exact fun heq => hnodup.1 (heq ▸ hkey)

theorem isVisited_spare {key : Str} (hkey : key ∈ rest) :
    (s.setVisited victim false).isVisited key = s.isVisited key := by
  have hne := ne_of_mem_rest hnodup horder hkey
  rw [isVisited_setVisited, decide_eq_true hne, Bool.and_true]

/-- Passing over the first of the queue leaves the sequence as it is. -/
theorem evictionOrder_spare (hvisited : s.isVisited victim = true) :
    evictionOrder { s.setVisited victim false with order := rest ++ [victim] }
      true = s.evictionOrder true := by
  have hcleared : (s.setVisited victim false).isVisited victim = false := by
    simp [isVisited_setVisited]
  rw [evictionOrder, evictionOrder, if_pos rfl, if_pos rfl, horder]
  exact rounds_rotate hvisited hcleared fun key hkey =>
    isVisited_spare hnodup horder hkey

/-- Each entry is passed over once. -/
theorem countP_spare (hvisited : s.isVisited victim = true) :
    (rest ++ [victim]).countP (s.setVisited victim false).isVisited + 1 =
      s.order.countP s.isVisited := by
  have hrest : rest.countP (s.setVisited victim false).isVisited =
      rest.countP s.isVisited :=
    List.countP_congr fun key hkey => by
      rw [isVisited_spare hnodup horder hkey]
  simp [horder, hrest, hvisited, isVisited_setVisited]

theorem isVisited_evict (entry : Stored) {key : Str} (hkey : key ∈ rest) :
    (s.discard victim entry).isVisited key = s.isVisited key := by
  have hne := ne_of_mem_rest hnodup horder hkey
  rw [isVisited, isVisited, discard_cached, AList.lookup_erase_ne hne]

theorem countP_evict (entry : Stored) :
    rest.countP (s.discard victim entry).isVisited ≤
      s.order.countP s.isVisited := by
  have hrest : rest.countP (s.discard victim entry).isVisited =
      rest.countP s.isVisited :=
    List.countP_congr fun key hkey => by
      rw [isVisited_evict hnodup horder entry hkey]
  rw [hrest, horder]
  exact (List.sublist_cons_self victim rest).countP_le

/-- The first of the queue is evicted when it may not be passed over. -/
theorem evictionOrder_evict {spare : Bool}
    (hunspared : spare = true → s.isVisited victim = false) {entry : Stored}
    {evicted : ℕ} :
    s.evictionOrder spare = victim :: evictionOrder
      { s.discard victim entry with order := rest, evicted := evicted }
      spare := by
  cases spare with
  | false => exact horder
  | true =>
      rw [evictionOrder, evictionOrder, if_pos rfl, if_pos rfl, horder,
        rounds_cons_of_unmarked (hunspared rfl)]
      exact congrArg _ (rounds_congr fun key hkey =>
        (isVisited_evict hnodup horder entry hkey).symm)

end Turn

/-! ## The whole loop -/

/-- The first so many of a sequence are evicted: as few as make room, or all
of them. -/
structure Evicts (s : BoundedStore) (additional : ℕ) (sequence : List Str)
    (result : BoundedStore × Bool) (n : ℕ) : Prop where
  le_length : n ≤ sequence.length
  shortest : ∀ m < n, ¬s.RoomAfter additional (sequence.take m)
  succeeds : result.2 = true ↔ s.RoomAfter additional (sequence.take n)
  exhausted : result.2 = false → n = sequence.length
  mem_cached : ∀ key, key ∈ result.1.cached ↔
    key ∈ s.cached ∧ key ∉ sequence.take n

theorem evicts_zero {sequence : List Str} {ok : Bool}
    (hok : ok = true ↔ s.used + additional ≤ s.maxBytes)
    (hnil : ok = false → sequence = []) :
    s.Evicts additional sequence (s, ok) 0 where
  le_length := Nat.zero_le _
  shortest := fun m hm => absurd hm (Nat.not_lt_zero m)
  succeeds := hok
  exhausted := fun hfalse => by simp [hnil hfalse]
  mem_cached := by simp

theorem Evicts.cons {additional n evicted : ℕ} {victim : Str}
    {entry : Stored} {order sequence : List Str} {result : BoundedStore × Bool}
    (h : Evicts
      { s.discard victim entry with order := order, evicted := evicted }
      additional sequence result n)
    (hentry : s.cached.lookup victim = some entry)
    (hsequence : ∀ key ∈ sequence, key ≠ victim)
    (hfull : ¬s.used + additional ≤ s.maxBytes) :
    s.Evicts additional (victim :: sequence) result (n + 1) := by
  have htake : ∀ m, ∀ key ∈ sequence.take m, key ≠ victim :=
    fun m key hkey => hsequence key (List.mem_of_mem_take hkey)
  refine ⟨Nat.succ_le_succ h.le_length, fun m hm => ?_, ?_, fun hfalse => ?_,
    fun key => ?_⟩
  · cases m with
    | zero => exact hfull
    | succ m =>
        rw [List.take_succ_cons, ← roomAfter_evict hentry (htake m)]
        exact h.shortest m (Nat.lt_of_succ_lt_succ hm)
  · rw [List.take_succ_cons, ← roomAfter_evict hentry (htake n)]
    exact h.succeeds
  · rw [h.exhausted hfalse, List.length_cons]
  · have hmem : key ∈ (s.discard victim entry).cached ↔
        key ≠ victim ∧ key ∈ s.cached := AList.mem_erase
    rw [h.mem_cached key, List.take_succ_cons, List.mem_cons, not_or]
    change key ∈ (s.discard victim entry).cached ∧ _ ↔ _
    rw [hmem]
    tauto

theorem Evicts.of_spare {n : ℕ} {victim : Str} {order sequence : List Str}
    {result : BoundedStore × Bool}
    (h : Evicts { s.setVisited victim false with order := order } additional
      sequence result n) : s.Evicts additional sequence result n where
  le_length := h.le_length
  shortest := fun m hm hroom => h.shortest m hm (roomAfter_spare.mpr hroom)
  succeeds := h.succeeds.trans roomAfter_spare
  exhausted := h.exhausted
  mem_cached := fun key => (h.mem_cached key).trans
    (and_congr_left fun _ => mem_setVisited victim key false)

theorem evicts_makeRoom {turns chances : ℕ} (h : s.Coherent)
    (hchances : chances = 0 ∨ s.order.countP s.isVisited < chances)
    (hturns : s.order.length + chances ≤ turns) :
    ∃ n, s.Evicts additional (s.evictionOrder (decide (0 < chances)))
      (makeRoom additional turns chances s) n := by
  induction turns generalizing chances s with
  | zero =>
      have horder : s.order = [] := List.eq_nil_of_length_eq_zero (by omega)
      exact ⟨0, evicts_zero decide_eq_true_iff fun _ => by
        simp [evictionOrder, rounds, horder]⟩
  | succ turns ih =>
      rw [makeRoom]
      split_ifs with hfits
      · exact ⟨0, evicts_zero (by simpa using hfits) (by simp)⟩
      split
      · rename_i horder
        exact ⟨0, evicts_zero (by simpa using hfits) fun _ => by
          simp [evictionOrder, rounds, horder]⟩
      rename_i victim rest horder
      have hlength := congrArg List.length horder
      rw [List.length_cons] at hlength
      split_ifs with hspared
      · obtain ⟨hpos, hvisited⟩ := hspared
        have hcount := countP_spare h.nodup horder hvisited
        have hspare : (s.setVisited victim false).order = victim :: rest :=
          (order_setVisited victim false).1.trans horder
        have hleft : (rest ++ [victim]).countP
            (s.setVisited victim false).isVisited < chances - 1 := by omega
        have hlength' : (rest ++ [victim]).length + (chances - 1) ≤ turns := by
          rw [List.length_append, List.length_singleton]
          omega
        obtain ⟨n, hn⟩ := ih ((h.setVisited victim false).rotate hspare)
          (.inr hleft) hlength'
        rw [decide_eq_true (Nat.zero_lt_of_lt hleft),
          evictionOrder_spare h.nodup horder hvisited] at hn
        rw [decide_eq_true hpos]
        exact ⟨n, hn.of_spare⟩
      · split
        · rename_i hnone
          exact absurd hnone (h.lookup_ne_none horder)
        · rename_i entry hentry
          have hunspared : decide (0 < chances) = true →
              s.isVisited victim = false := fun hpos =>
            Bool.eq_false_iff.mpr fun hvisited =>
              hspared ⟨of_decide_eq_true hpos, hvisited⟩
          have hcount := countP_evict h.nodup horder entry
          obtain ⟨n, hn⟩ := ih (h.evict horder hentry (s.evicted + 1))
            (hchances.imp_right hcount.trans_lt) (by dsimp only; omega)
          rw [evictionOrder_evict h.nodup horder hunspared]
          refine ⟨n + 1, hn.cons hentry (fun key hkey => ?_) hfits⟩
          exact ne_of_mem_rest h.nodup horder
            ((evictionOrder_perm _ _).mem_iff.mp hkey)

theorem evicts_reserve (h : s.Coherent) (hmax : additional ≤ s.maxBytes) :
    ∃ n, s.Evicts additional s.victims (s.reserve additional) n := by
  have hchances : s.chances = 0 ∨ s.order.countP s.isVisited < s.chances := by
    rw [chances]
    cases s.policy with
    | fifo => exact .inl rfl
    | clock => exact .inr (Nat.lt_succ_of_le List.countP_le_length)
  obtain ⟨n, hn⟩ := evicts_makeRoom h hchances le_rfl
  refine ⟨n, ?_⟩
  rw [victims_eq, reserve, if_neg (Nat.not_lt.mpr hmax)]
  split
  · rename_i heq
    rw [heq] at hn
    exact ⟨hn.le_length, hn.shortest, hn.succeeds, hn.exhausted, hn.mem_cached⟩
  · rename_i heq
    rwa [heq] at hn

/-! ## What room there is -/

/-- Once all entries are gone, only the fills are left. -/
theorem roomAfter_victims {fills : ℕ} (h : s.Coherent)
    (hbalanced : s.Balanced fills) :
    s.RoomAfter additional s.victims ↔ additional + fills ≤ s.maxBytes := by
  have hperm : s.victims.Perm s.cached.keys :=
    (evictionOrder_perm s _).trans
      ((List.perm_ext_iff_of_nodup h.nodup s.cached.keys_nodup).mpr h.mem_order)
  have hfreed : (s.victims.map s.entrySize).sum = s.cachedBytes := by
    rw [(hperm.map _).sum_eq, cachedBytes, AssocMap.total_eq_sum_keys]
    rfl
  have hused := hbalanced.used_eq
  rw [RoomAfter, hfreed]
  omega

/-- Evicting more makes more room. -/
theorem RoomAfter.of_take {n : ℕ} {sequence : List Str}
    (h : s.RoomAfter additional (sequence.take n)) :
    s.RoomAfter additional sequence := by
  have hle : ((sequence.take n).map s.entrySize).sum ≤
      (sequence.map s.entrySize).sum :=
    ((List.take_sublist n sequence).map _).sum_le_sum fun _ _ => Nat.zero_le _
  rw [RoomAfter] at h ⊢
  omega

theorem Evicts.succeeds_iff {n : ℕ} {sequence : List Str}
    {result : BoundedStore × Bool} (h : s.Evicts additional sequence result n) :
    result.2 = true ↔ s.RoomAfter additional sequence := by
  constructor
  · intro hok
    exact (h.succeeds.mp hok).of_take
  · intro hroom
    by_contra hfail
    have hall := h.exhausted (Bool.eq_false_iff.mpr hfail)
    rw [h.succeeds, hall, List.take_length] at hfail
    exact hfail hroom

end BoundedStore

namespace System

open BoundedStore

/-- In every reachable state and for every number of bytes, `reserve` ends; it
succeeds exactly when the bytes fit beside the registered fills; and what it
evicts is the shortest part of the sequence of victims that makes room, or all
of it. -/
theorem reserve_evicts_in_order (cfg : CacheDefaults) (ops : List Op)
    (additional : ℕ) :
    let sys := (init cfg).run ops
    let s := sys.store
    (∀ turns ≥ s.order.length + s.chances,
      makeRoom additional turns s.chances s =
        makeRoom additional (s.order.length + s.chances) s.chances s) ∧
      ((s.reserve additional).2 = true ↔
        additional + sys.fillBytes ≤ s.maxBytes) ∧
      (additional ≤ s.maxBytes → ∃ n ≤ s.victims.length,
        (∀ m < n, ¬s.RoomAfter additional (s.victims.take m)) ∧
          (s.RoomAfter additional (s.victims.take n) ∨
            n = s.victims.length) ∧
          ∀ key, (key ∈ s.cached ∧ key ∉ (s.reserve additional).1.cached) ↔
            key ∈ s.victims.take n) := by
  intro sys s
  have hinv := inv_run cfg ops
  have h : s.Coherent := coherent_run cfg ops
  have hbalanced : s.Balanced sys.fillBytes := by
    have hfills := hinv.fillBytes_eq
    exact hfills ▸ hinv.balanced
  refine ⟨fun turns hturns => makeRoom_eq_of_le hturns le_rfl, ?_,
    fun hmax => ?_⟩
  · by_cases hmax : additional ≤ s.maxBytes
    · obtain ⟨n, hn⟩ := evicts_reserve h hmax
      rw [hn.succeeds_iff, roomAfter_victims h hbalanced]
    · rw [reserve, if_pos (Nat.lt_of_not_le hmax)]
      simp only [Bool.false_eq_true, false_iff]
      omega
  · obtain ⟨n, hn⟩ := evicts_reserve h hmax
    refine ⟨n, hn.le_length, hn.shortest, ?_, fun key => ?_⟩
    · cases hok : (s.reserve additional).2 with
      | true => exact .inl (hn.succeeds.mp hok)
      | false => exact .inr (hn.exhausted hok)
    · have hqueued : key ∈ s.victims.take n → key ∈ s.cached := fun hkey =>
        (h.mem_order key).mp ((evictionOrder_perm s _).mem_iff.mp
          (List.mem_of_mem_take hkey))
      rw [hn.mem_cached]
      tauto

end System

end Harmost.Cache
