import Harmost.Support.Run
import Harmost.Support.WrappingScan
import Harmost.Upstream.Pool
import Mathlib.Data.List.Destutter
import Mathlib.Data.List.Sort
import Mathlib.Data.List.Perm.Subperm

/-!
# The addresses of an upstream

An upstream is a name that stands for a set of instances, and the set is looked
up again and again.  Addresses are kept sorted and without duplicates, so that
the answer of a lookup matters only as a set, and a lookup that fails or finds
nothing leaves the previous addresses in place.

Connections for a path go to one instance as long as the set stays the same;
other connections take turns.  The counter of the turns is a machine word.
-/

namespace Harmost.Upstream

open Harmost.Support

variable {α : Type} [LinearOrder α]

/-- What an upstream resolves to: some addresses, in ascending order. -/
structure Addresses (α : Type) [LinearOrder α] where
  sockets : List α
  ne_nil : sockets ≠ []
  sorted : sockets.SortedLT

/-- `sort` and `dedup`. -/
def sortDedup (found : List α) : List α :=
  (found.insertionSort (· ≤ ·)).destutter (· ≠ ·)

theorem mem_destutter_ne {a : α} {l : List α} :
    a ∈ l.destutter (· ≠ ·) ↔ a ∈ l := by
  have hfrom : ∀ (l : List α) (b : α),
      a ∈ l.destutter' (· ≠ ·) b ↔ a = b ∨ a ∈ l := by
    intro l
    induction l with
    | nil =>
        intro b
        simp
    | cons c l ih =>
        intro b
        rw [List.destutter'_cons]
        split_ifs with hne
        · rw [List.mem_cons, ih, List.mem_cons]
        · rw [ih, List.mem_cons, not_not.mp hne]
          tauto
  cases l with
  | nil => rfl
  | cons b l => rw [List.destutter_cons', hfrom, List.mem_cons]

theorem mem_sortDedup {a : α} {found : List α} :
    a ∈ sortDedup found ↔ a ∈ found := by
  rw [sortDedup, mem_destutter_ne, List.mem_insertionSort]

theorem isChain_lt {l : List α} (hle : l.Pairwise (· ≤ ·))
    (hne : l.IsChain (· ≠ ·)) : l.IsChain (· < ·) := by
  induction l with
  | nil => exact .nil
  | cons a l ih =>
      cases l with
      | nil => exact .singleton a
      | cons b l =>
          rw [List.pairwise_cons] at hle
          rw [List.isChain_cons_cons] at hne ⊢
          exact ⟨lt_of_le_of_ne (hle.1 b List.mem_cons_self) hne.1,
            ih hle.2 hne.2⟩

theorem sortedLT_sortDedup (found : List α) : (sortDedup found).SortedLT := by
  have hle : (sortDedup found).Pairwise (· ≤ ·) := by
    exact (List.pairwise_insertionSort (· ≤ ·) found).sublist
      (List.destutter_sublist _ _)
  have hne : (sortDedup found).IsChain (· ≠ ·) := List.isChain_destutter _ _
  exact (isChain_lt hle hne).sortedLT

/-- Every address a lookup has found, sorted and without duplicates. -/
def resolve (address : Str) : Except Str (List α) → Except Str (Addresses α)
  | .error e =>
      .error ("could not resolve upstream `".toList ++ address ++
        "`: ".toList ++ e)
  | .ok found =>
      if h : sortDedup found = [] then
        .error ("upstream `".toList ++ address ++
          "` resolved to no addresses".toList)
      else .ok ⟨sortDedup found, h, sortedLT_sortDedup found⟩

/-- Only the set of the addresses matters. -/
theorem Addresses.ext_mem {addresses addresses' : Addresses α}
    (h : ∀ a, a ∈ addresses.sockets ↔ a ∈ addresses'.sockets) :
    addresses = addresses' := by
  obtain ⟨sockets, ne_nil, sorted⟩ := addresses
  obtain ⟨sockets', ne_nil', sorted'⟩ := addresses'
  obtain rfl : sockets = sockets' := sorted.eq_of_mem_iff sorted' h
  rfl

theorem mem_of_resolve {address : Str} {found : List α}
    {addresses : Addresses α} (h : resolve address (.ok found) = .ok addresses)
    (a : α) : a ∈ addresses.sockets ↔ a ∈ found := by
  simp only [resolve] at h
  split_ifs at h
  cases h
  exact mem_sortDedup

theorem found_ne_nil {address : Str} {found : List α}
    {addresses : Addresses α}
    (h : resolve address (.ok found) = .ok addresses) : found ≠ [] := by
  rintro rfl
  refine addresses.ne_nil (List.eq_nil_iff_forall_not_mem.mpr fun a ha => ?_)
  exact List.not_mem_nil ((mem_of_resolve h a).mp ha)

/-! ## Connections and lookups -/

/-- A backend, as far as its addresses go. -/
structure Sockets (α : Type) [LinearOrder α] where
  address : Str
  addresses : Addresses α
  /-- The counter of the turns, a 64-bit word. -/
  rotation : ℕ
  rotation_lt : rotation < 2 ^ 64

namespace Sockets

variable (backend : Sockets α)

/-- The index of the address to use: by the hash of a key, or by turns. -/
def indexFor (len : ℕ) : Option Str → ℕ
  | some key => fnv1a (utf8 key) % len
  | none => backend.rotation % len

/-- The address one connection should use.  There is none if the index is out
of range, where the source would panic. -/
def socketFor (key : Option Str) : Option α :=
  let sockets := backend.addresses.sockets
  sockets[min (backend.indexFor (max sockets.length 1) key)
    (sockets.length - 1)]?

/-- Resolve the name again.  A failed lookup keeps the addresses. -/
def refresh (found : Except Str (List α)) : Sockets α :=
  match resolve backend.address found with
  | .error _ => backend
  | .ok addresses => { backend with addresses }

/-- What happens to a backend. -/
inductive Event (α : Type) where
  | connect (key : Option Str)
  | refresh (found : Except Str (List α))

def step (backend : Sockets α) : Event α → Sockets α
  | .connect none =>
      { backend with
        rotation := (backend.rotation + 1) % 2 ^ 64
        rotation_lt := Nat.mod_lt _ (Nat.two_pow_pos 64) }
  | .connect (some _) => backend
  | .refresh found => backend.refresh found

/-- The addresses of the connections that take turns, in order. -/
def turns (backend : Sockets α) : List (Event α) → List (Option α)
  | [] => []
  | .connect none :: events =>
      backend.socketFor none :: turns (backend.step (.connect none)) events
  | event :: events => turns (backend.step event) events

variable {backend}

theorem length_pos : 0 < backend.addresses.sockets.length :=
  List.length_pos_iff.mpr backend.addresses.ne_nil

theorem indexFor_lt (key : Option Str) :
    backend.indexFor backend.addresses.sockets.length key <
      backend.addresses.sockets.length := by
  cases key with
  | none => exact Nat.mod_lt _ length_pos
  | some key => exact Nat.mod_lt _ length_pos

/-- The index is in range, so nothing is cut off. -/
theorem socketFor_eq (key : Option Str) :
    backend.socketFor key = backend.addresses.sockets[
      backend.indexFor backend.addresses.sockets.length key]? := by
  have hlt : backend.indexFor backend.addresses.sockets.length key <
      backend.addresses.sockets.length := indexFor_lt key
  rw [socketFor, Nat.max_eq_left length_pos,
    Nat.min_eq_left (Nat.le_sub_one_of_lt hlt)]

/-! ## Runs -/

/-- A lookup that finds no other addresses. -/
def Event.Steady (addresses : Addresses α) : Event α → Prop
  | .refresh (.ok found) => found = [] ∨ ∀ a, a ∈ found ↔ a ∈ addresses.sockets
  | _ => True

theorem addresses_step {event : Event α}
    (h : event.Steady backend.addresses) :
    (backend.step event).addresses = backend.addresses := by
  cases event with
  | connect key => cases key <;> rfl
  | refresh found =>
      cases found with
      | error e => rfl
      | ok found =>
          rw [step, refresh]
          cases hresolve : resolve backend.address (.ok found) with
          | error e => rfl
          | ok addresses =>
              refine Addresses.ext_mem fun a => ?_
              rw [mem_of_resolve hresolve]
              exact (h.resolve_left (found_ne_nil hresolve)) a

theorem addresses_run {events : List (Event α)}
    (h : ∀ event ∈ events, event.Steady backend.addresses) :
    (run step backend events).addresses = backend.addresses := by
  induction events generalizing backend with
  | nil => rfl
  | cons event events ih =>
      obtain ⟨hevent, hrest⟩ := List.forall_mem_cons.mp h
      have hstep := addresses_step hevent
      rw [run_cons, ih (by rw [hstep]; exact hrest), hstep]

/-- A path keeps its instance while the set of addresses stays the same,
whatever the order and the number of the answers and however often a lookup
fails. -/
theorem path_keeps_its_socket {events : List (Event α)}
    (h : ∀ event ∈ events, event.Steady backend.addresses) (path : Str) :
    (run step backend events).socketFor (some path) =
      backend.socketFor (some path) := by
  rw [socketFor_eq, socketFor_eq, addresses_run h]
  rfl

theorem zero_lt_word : 0 < 2 ^ 64 :=
  Nat.two_pow_pos 64

/-- Two instances. -/
def pair : Sockets ℕ :=
  ⟨"web:3000".toList, ⟨[1, 2], List.cons_ne_nil _ _,
    (List.pairwise_pair.mpr Nat.one_lt_two).sortedLT⟩, 0, zero_lt_word⟩

/-- Two turns, with a connection for a path and lookups between them. -/
def twoTurns : List (Event ℕ) :=
  [.connect none, .refresh (.ok [2, 1, 2]), .connect (some "/a".toList),
    .refresh (.error []), .connect none]

theorem steady_twoTurns : ∀ event ∈ twoTurns, event.Steady pair.addresses := by
  have hsame : ∀ a, a ∈ [2, 1, 2] ↔ a ∈ [1, 2] := by
    intro a
    simp only [List.mem_cons, List.not_mem_nil, or_false]
    tauto
  intro event hevent
  simp only [twoTurns, List.mem_cons, List.not_mem_nil, or_false] at hevent
  rcases hevent with rfl | rfl | rfl | rfl | rfl
  · trivial
  · exact .inr hsame
  · trivial
  · trivial
  · trivial

theorem path_keeps_its_socket_pair :
    (run step pair twoTurns).socketFor (some "/a".toList) =
      pair.socketFor (some "/a".toList) :=
  path_keeps_its_socket steady_twoTurns _

/-- The answer of the last lookup that found something. -/
def latest (found : List α) : List (Event α) → List α
  | [] => found
  | .refresh (.ok (a :: others)) :: events => latest (a :: others) events
  | _ :: events => latest found events

theorem mem_addresses_run {events : List (Event α)} {found : List α}
    (h : ∀ a, a ∈ backend.addresses.sockets ↔ a ∈ found) (a : α) :
    a ∈ (run step backend events).addresses.sockets ↔
      a ∈ latest found events := by
  induction events generalizing backend found with
  | nil => exact h a
  | cons event events ih =>
      rw [run_cons]
      cases event with
      | connect key =>
          cases key with
          | none => exact ih h
          | some key => exact ih h
      | refresh answer =>
          rcases answer with e | _ | ⟨b, others⟩
          · exact ih h
          · have hstep : (backend.step (.refresh (.ok []))).addresses =
                backend.addresses :=
              addresses_step (.inl rfl)
            exact ih (by rw [hstep]; exact h)
          · refine ih fun a => ?_
            rw [step, refresh]
            cases hresolve : resolve backend.address (.ok (b :: others)) with
            | error e =>
                rw [resolve, dif_neg] at hresolve
                · cases hresolve
                · intro hnil
                  have hb := mem_sortDedup.mpr
                    (List.mem_cons_self : b ∈ b :: others)
                  rw [hnil] at hb
                  exact List.not_mem_nil hb
            | ok addresses => exact mem_of_resolve hresolve a

/-- Every connection gets an address, one that the last lookup that found
something has found. -/
theorem socket_of_latest {address : Str} {found : List α}
    {addresses : Addresses α}
    (hnew : resolve address (.ok found) = .ok addresses)
    (events : List (Event α)) (key : Option Str) :
    ∃ socket ∈ latest found events,
      (run step ⟨address, addresses, 0, Nat.two_pow_pos 64⟩ events).socketFor
        key = some socket := by
  obtain ⟨backend, hbackend⟩ : ∃ backend : Sockets α,
      backend = ⟨address, addresses, 0, Nat.two_pow_pos 64⟩ := ⟨_, rfl⟩
  have hmem : ∀ a, a ∈ backend.addresses.sockets ↔ a ∈ found := by
    rw [hbackend]
    exact mem_of_resolve hnew
  have hlt : (run step backend events).indexFor
      (run step backend events).addresses.sockets.length key <
        (run step backend events).addresses.sockets.length := indexFor_lt key
  rw [← hbackend]
  exact ⟨_, (mem_addresses_run hmem _).mp (List.getElem_mem hlt),
    (socketFor_eq key).trans (List.getElem?_eq_getElem hlt)⟩

theorem socket_of_latest_lookup :
    ∃ socket ∈ latest [2, 1, 2] [.refresh (.ok [3]), .refresh (.ok [])],
      (run step ⟨[], pair.addresses, 0, Nat.two_pow_pos 64⟩
        [.refresh (.ok [3]), .refresh (.ok [])]).socketFor none =
          some socket :=
  socket_of_latest (rfl : resolve [] (.ok [2, 1, 2]) = .ok pair.addresses) _
    none

/-! ## Turns -/

/-- Does a connection take its turn? -/
def Event.takesTurn : Event α → Bool
  | .connect none => true
  | _ => false

theorem wrappingVisit_succ (offset n step : ℕ) :
    wrappingVisit ((offset + 1) % 2 ^ 64) n (2 ^ 64) step =
      wrappingVisit offset n (2 ^ 64) (step + 1) := by
  rw [wrappingVisit, wrappingVisit, Nat.mod_add_mod, Nat.add_right_comm,
    Nat.add_assoc]

theorem turns_eq {events : List (Event α)}
    (h : ∀ event ∈ events, event.Steady backend.addresses) :
    backend.turns events =
      (List.range (events.countP Event.takesTurn)).map fun step =>
        backend.addresses.sockets[wrappingVisit backend.rotation
          backend.addresses.sockets.length (2 ^ 64) step]? := by
  induction events generalizing backend with
  | nil => rfl
  | cons event events ih =>
      obtain ⟨hevent, hrest⟩ := List.forall_mem_cons.mp h
      have hstep := addresses_step hevent
      have hsteady : ∀ event' ∈ events,
          event'.Steady (backend.step event).addresses := by
        rwa [hstep]
      have hlater := ih hsteady
      rw [hstep] at hlater
      cases event with
      | refresh found =>
          have hrotation : (backend.step (.refresh found)).rotation =
              backend.rotation := by
            rw [step, refresh]
            split <;> rfl
          rwa [hrotation] at hlater
      | connect key =>
          cases key with
          | some key => exact hlater
          | none =>
              have hfirst : backend.socketFor none =
                  backend.addresses.sockets[wrappingVisit backend.rotation
                    backend.addresses.sockets.length (2 ^ 64) 0]? := by
                rw [socketFor_eq, wrappingVisit_of_lt backend.rotation_lt]
                rfl
              rw [turns, hlater, List.countP_cons_of_pos rfl,
                List.range_succ_eq_map, List.map_cons, List.map_map, hfirst]
              refine congrArg _ (List.map_congr_left fun index _ => ?_)
              exact congrArg (backend.addresses.sockets[·]?)
                (wrappingVisit_succ _ _ _)

/-- As many turns as there are addresses visit each of them once, with any
connections for paths and steady lookups between them, if the counter does not
wrap on the way or the number of addresses divides its range. -/
theorem turns_visit_each_once {events : List (Event α)}
    (h : ∀ event ∈ events, event.Steady backend.addresses)
    (hcount : events.countP Event.takesTurn =
      backend.addresses.sockets.length)
    (hfits : backend.rotation + backend.addresses.sockets.length ≤ 2 ^ 64 ∨
      backend.addresses.sockets.length ∣ 2 ^ 64) :
    (backend.turns events).Perm (backend.addresses.sockets.map some) := by
  have hnodup : (backend.addresses.sockets.map some).Nodup :=
    (List.nodup_map_iff (Option.some_injective α)).mpr
      backend.addresses.sorted.nodup
  have hsubset : backend.addresses.sockets.map some ⊆ backend.turns events := by
    intro socket? hsocket
    obtain ⟨socket, hmem, rfl⟩ := List.mem_map.mp hsocket
    obtain ⟨index, hlt, rfl⟩ := List.mem_iff_getElem.mp hmem
    obtain ⟨step, hstep, hvisit⟩ :=
      (wrappingVisit_covers_iff backend.rotation_lt).mpr hfits index hlt
    rw [turns_eq h, hcount]
    refine List.mem_map.mpr ⟨step, List.mem_range.mpr hstep, ?_⟩
    rw [hvisit]
    exact List.getElem?_eq_getElem hlt
  have hlength : (backend.turns events).length =
      (backend.addresses.sockets.map some).length := by
    rw [turns_eq h, List.length_map, List.length_range, hcount, List.length_map]
  exact ((hnodup.subperm hsubset).perm_of_length_le hlength.le).symm

theorem turns_visit_each_once_pair :
    (pair.turns twoTurns).Perm (pair.addresses.sockets.map some) :=
  turns_visit_each_once steady_twoTurns rfl (.inr ⟨2 ^ 63, rfl⟩)

end Sockets

end Harmost.Upstream
