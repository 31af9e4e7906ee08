import Harmost.Cache.Store.Effect
import Harmost.Support.Run

/-!
# Following a write

The body of a fill and its published length are two shared variables.  The
leader appends to the one and then publishes to the other; a follower reads the
published length first and takes its slice of the body afterwards.  Everybody
moves one such access at a time, in any order.
-/

namespace Harmost.Cache

open Harmost.Support

/-- `Written::done`. -/
def Written.done : Written → Bool
  | .part _ => false
  | .complete _ => true

namespace Cell

/-- What `write_body` publishes after it has appended this data. -/
def progress (cell : Cell) (data : List UInt8) (eof : Bool) : Written :=
  let total := cell.written.bytes + data.length
  if eof then .complete total else .part total

/-- `body.write().extend_from_slice(&data)`. -/
def extendFromSlice (cell : Cell) (data : List UInt8) : Cell :=
  { cell with body := cell.body ++ data }

/-- `written.send_replace(state)`. -/
def sendReplace (cell : Cell) (state : Written) : Cell :=
  { cell with written := state }

end Cell

/-- `&body[start..stop]`, which panics out of range. -/
def slice (body : List UInt8) (start stop : ℕ) : Option (List UInt8) :=
  if start ≤ stop ∧ stop ≤ body.length then
    some ((body.take stop).drop start)
  else none

namespace Stream

/-- The calls of `write_body` a leader makes before it calls `finish`. -/
structure Program where
  chunks : List (List UInt8)
  /-- The last call says that it is the last. -/
  eofOnLast : Bool

/-- Where the leader is. -/
inductive Leader where
  /-- Between two calls. -/
  | idle
  /-- In `write_body`: the data is appended, and this is to be published. -/
  | appended (state : Written)
  | finished
  deriving DecidableEq, Repr

/-- Where a follower is in `PartialHit::read_body`. -/
inductive Place where
  /-- At the top of the loop. -/
  | top
  /-- It has borrowed this state. -/
  | borrowed (state : Written)
  /-- In `changed().await`. -/
  | waiting
  /-- It was told that the body has ended. -/
  | ended
  /-- It was told that the writer was dropped. -/
  | failed
  /-- It sliced the body out of range. -/
  | panicked
  deriving DecidableEq, Repr

structure Follower where
  read : ℕ := 0
  received : List UInt8 := []
  /-- The version of the channel it has seen. -/
  seen : ℕ := 0
  place : Place := .top

end Stream

/-- A write in progress and everybody who takes part in it. -/
structure Stream where
  cell : Cell := {}
  /-- How often a length has been published. -/
  version : ℕ := 0
  /-- Does anybody hold the sending end of the channel? -/
  isOpen : Bool := true
  /-- The calls of `write_body` that have appended their data. -/
  calls : ℕ := 0
  leader : Stream.Leader := .idle
  followers : ℕ → Stream.Follower := fun _ => {}

namespace Stream

/-- Whose turn it is. -/
inductive Op where
  | lead
  /-- The last handle on the sending end goes. -/
  | drop
  | follow (i : ℕ)

/-- One access of the leader: it appends the next chunk, publishes what it has
appended, or publishes the end of the body. -/
def lead (p : Program) (s : Stream) : Stream :=
  match s.leader with
  | .idle =>
      match p.chunks[s.calls]? with
      | some data =>
          let eof := p.eofOnLast && decide (s.calls + 1 = p.chunks.length)
          { s with
            cell := s.cell.extendFromSlice data
            calls := s.calls + 1
            leader := .appended (s.cell.progress data eof) }
      | none =>
          { s with
            cell := s.cell.sendReplace (.complete s.cell.written.bytes)
            version := s.version + 1
            leader := .finished }
  | .appended state =>
      { s with
        cell := s.cell.sendReplace state
        version := s.version + 1
        leader := .idle }
  | .finished => s

/-- One access of a follower. -/
def Follower.readBody (s : Stream) (f : Follower) : Follower :=
  match f.place with
  | .top => { f with place := .borrowed s.cell.written, seen := s.version }
  | .borrowed state =>
      if f.read < state.bytes then
        let stop := min (f.read + 64 * 1024) state.bytes
        match slice s.cell.body f.read stop with
        | none => { f with place := .panicked }
        | some chunk =>
            { f with
              read := stop
              received := f.received ++ chunk
              place := .top }
      else if state.done then { f with place := .ended }
      else { f with place := .waiting }
  | .waiting =>
      if f.seen ≠ s.version then { f with place := .top }
      else if s.isOpen then f
      else { f with place := .failed }
  | .ended | .failed | .panicked => f

def step (p : Program) (s : Stream) : Op → Stream
  | .lead => if s.isOpen then lead p s else s
  | .drop =>
      -- `write_body` does not wait between its two accesses.
      match s.leader with
      | .appended _ => s
      | .idle | .finished => { s with isOpen := false }
  | .follow i =>
      { s with
        followers := Function.update s.followers i
          ((s.followers i).readBody s) }

/-! ## The accesses of the store's operations -/

/-- A write that is not refused is an append followed by a publication. -/
theorem cells_writeBody {s : BoundedStore} {h : BoundedStore.FollowableMiss}
    {data : List UInt8} {eof : Bool}
    (hwritten : (s.writeBody h data eof).2.2 = true) :
    (s.writeBody h data eof).1.cells h.id =
      ((s.cells h.id).extendFromSlice data).sendReplace
        ((s.cells h.id).progress data eof) := by
  have hcells : ∀ s', (if data.isEmpty then (s, true)
      else s.reserve data.length) = (s', true) → s'.cells = s.cells := by
    intro s' hroom
    split_ifs at hroom
    · rw [(Prod.mk.inj hroom).1]
    · obtain ⟨s'', hrevises, hfails | ⟨hcharged, -⟩⟩ :=
        s.reserve_cases data.length
      · rw [hfails] at hroom
        exact absurd (Prod.mk.inj hroom).2 Bool.false_ne_true
      · rw [hcharged] at hroom
        rw [← (Prod.mk.inj hroom).1]
        exact hrevises.cells
  unfold BoundedStore.writeBody at hwritten ⊢
  split at hwritten
  · cases hwritten
  · rename_i s' hroom
    simp only [Function.update_self, hcells s' hroom]
    rfl

/-- `finish` publishes the end of the body. -/
theorem cells_beginFinish (s : BoundedStore)
    (h : BoundedStore.FollowableMiss) :
    (s.beginFinish h).1.cells h.id =
      (s.cells h.id).sendReplace
        (.complete (s.cells h.id).written.bytes) :=
  Function.update_self _ _ _

/-! ## What the channel says -/

/-- Everything the leader is going to write. -/
def Program.body (p : Program) : List UInt8 :=
  p.chunks.flatten

/-- The bytes that the calls so far have written. -/
def wrote (p : Program) (s : Stream) : List UInt8 :=
  (p.chunks.take s.calls).flatten

/-- A state that was published: its bytes are in the body, and if it says so,
they are all there will be. -/
structure Sound (p : Program) (body : List UInt8) (state : Written) :
    Prop where
  le_length : state.bytes ≤ body.length
  done_eq : state.done = true → state.bytes = p.body.length

/-- A follower has the bytes it has read. -/
structure Follower.Inv (p : Program) (body : List UInt8) (f : Follower) :
    Prop where
  received_eq : f.received = body.take f.read
  read_le : f.read ≤ body.length
  borrowed : ∀ state, f.place = .borrowed state → Sound p body state
  ended : f.place = .ended → f.read = p.body.length
  in_range : f.place ≠ .panicked

structure Inv (p : Program) (s : Stream) : Prop where
  body_eq : s.cell.body = s.wrote p
  published : Sound p s.cell.body s.cell.written
  /-- The leader has published what it has appended, or is about to. -/
  idle : s.leader = .idle → s.cell.written.bytes = s.cell.body.length
  appended : ∀ state, s.leader = .appended state →
    state.bytes = s.cell.body.length ∧ Sound p s.cell.body state
  followers : ∀ i, (s.followers i).Inv p s.cell.body

theorem wrote_isPrefix (p : Program) (s : Stream) : s.wrote p <+: p.body := by
  have hsplit : p.body = s.wrote p ++ (p.chunks.drop s.calls).flatten := by
    rw [wrote, ← List.flatten_append, List.take_append_drop, Program.body]
  exact ⟨_, hsplit.symm⟩

/-! ## The body only grows -/

variable {p : Program} {body : List UInt8}

theorem Sound.grow {state : Written} (h : Sound p body state)
    (data : List UInt8) : Sound p (body ++ data) state where
  le_length := by
    rw [List.length_append]
    exact Nat.le_add_right_of_le h.le_length
  done_eq := h.done_eq

theorem Follower.Inv.grow {f : Follower} (h : f.Inv p body)
    (data : List UInt8) : f.Inv p (body ++ data) where
  received_eq := by
    rw [List.take_append_of_le_length h.read_le]
    exact h.received_eq
  read_le := by
    rw [List.length_append]
    exact Nat.le_add_right_of_le h.read_le
  borrowed := fun state hstate => (h.borrowed state hstate).grow data
  ended := h.ended
  in_range := h.in_range

/-! ## Steps -/

theorem slice_eq {start stop : ℕ} (hle : start ≤ stop)
    (hstop : stop ≤ body.length) :
    ∃ chunk, slice body start stop = some chunk ∧
      body.take start ++ chunk = body.take stop := by
  refine ⟨(body.take stop).drop start, if_pos ⟨hle, hstop⟩, ?_⟩
  have htake : body.take start = (body.take stop).take start := by
    rw [List.take_take, Nat.min_eq_left hle]
  rw [htake, List.take_append_drop]

theorem Follower.Inv.goTo {f : Follower} (h : f.Inv p body) (seen : ℕ)
    {place : Place}
    (hborrowed : ∀ state, place = .borrowed state → Sound p body state)
    (hended : place = .ended → f.read = p.body.length)
    (hrange : place ≠ .panicked) :
    { f with place := place, seen := seen }.Inv p body :=
  ⟨h.received_eq, h.read_le, hborrowed, hended, hrange⟩

/-- The places of a follower that has borrowed nothing and was told nothing of
the end. -/
def Place.Quiet (place : Place) : Prop :=
  place = .top ∨ place = .waiting ∨ place = .failed

theorem Follower.Inv.goTo_quiet {f : Follower} (h : f.Inv p body)
    {place : Place} (hquiet : place.Quiet) :
    { f with place := place }.Inv p body := by
  rcases hquiet with rfl | rfl | rfl <;>
    exact h.goTo f.seen (fun _ heq => Place.noConfusion heq)
      (fun heq => Place.noConfusion heq) (fun heq => Place.noConfusion heq)

/-- A follower takes its slice of what was published when it looked, and the
body has all of that. -/
theorem Follower.Inv.readBody {s : Stream} (hs : s.Inv p) {f : Follower}
    (h : f.Inv p s.cell.body) : (f.readBody s).Inv p s.cell.body := by
  unfold Follower.readBody
  split
  case h_1 =>
      refine h.goTo s.version ?_ (fun heq => by simp at heq) (by simp)
      rintro state hstate
      obtain rfl := Place.borrowed.inj hstate
      exact hs.published
  case h_2 state hplace =>
      have hsound := h.borrowed state hplace
      split_ifs with hread hdone
      · have hstop : min (f.read + 64 * 1024) state.bytes ≤
            s.cell.body.length := (Nat.min_le_right _ _).trans hsound.le_length
        have hstart : f.read ≤ min (f.read + 64 * 1024) state.bytes :=
          Nat.le_min.mpr ⟨Nat.le_add_right _ _, hread.le⟩
        obtain ⟨chunk, hchunk, happend⟩ := slice_eq hstart hstop
        simp only [hchunk]
        exact ⟨by rw [h.received_eq, happend], hstop,
          fun _ heq => by simp at heq, fun heq => by simp at heq, by simp⟩
      · refine h.goTo f.seen (fun _ heq => by simp at heq) (fun _ => ?_)
          (by simp)
        -- Nothing is left to read, and nothing more will come.
        have hall := hsound.done_eq hdone
        have hbody := h.read_le.trans
          (hs.body_eq ▸ (s.wrote_isPrefix p).length_le)
        omega
      · exact h.goTo_quiet (.inr (.inl rfl))
  case h_3 =>
      split_ifs
      · exact h.goTo_quiet (.inl rfl)
      · exact h
      · exact h.goTo_quiet (.inr (.inr rfl))
  all_goals exact h

theorem bytes_progress (cell : Cell) (data : List UInt8) (eof : Bool) :
    (cell.progress data eof).bytes = cell.written.bytes + data.length := by
  cases eof <;> rfl

theorem done_progress (cell : Cell) (data : List UInt8) (eof : Bool) :
    (cell.progress data eof).done = eof := by
  cases eof <;> rfl

theorem take_succ_flatten {n : ℕ} {data : List UInt8}
    (hdata : p.chunks[n]? = some data) :
    (p.chunks.take (n + 1)).flatten = (p.chunks.take n).flatten ++ data := by
  rw [List.take_add_one, hdata, List.flatten_append, Option.toList_some,
    List.flatten_singleton]

/-- The leader appends: what it is about to publish is in the body already. -/
theorem Inv.append {s : Stream} (h : s.Inv p) (hidle : s.leader = .idle)
    {data : List UInt8} (hdata : p.chunks[s.calls]? = some data) :
    { s with
      cell := s.cell.extendFromSlice data
      calls := s.calls + 1
      leader := .appended (s.cell.progress data
        (p.eofOnLast && decide (s.calls + 1 = p.chunks.length))) }.Inv p where
  body_eq := (congrArg (· ++ data) h.body_eq).trans
    (take_succ_flatten hdata).symm
  published := h.published.grow data
  idle := fun heq => by simp at heq
  appended := by
    rintro state hstate
    obtain rfl := Leader.appended.inj hstate
    have hlength : (s.cell.body ++ data).length =
        s.cell.written.bytes + data.length := by
      rw [List.length_append, h.idle hidle]
    refine ⟨(bytes_progress _ _ _).trans hlength.symm,
      ((bytes_progress _ _ _).trans hlength.symm).le, fun hdone => ?_⟩
    rw [done_progress, Bool.and_eq_true, decide_eq_true_eq] at hdone
    rw [bytes_progress, ← hlength, h.body_eq, wrote, ← take_succ_flatten hdata,
      hdone.2, List.take_length, Program.body]
  followers := fun i => (h.followers i).grow data

/-- The leader publishes a state that the body bears out. -/
theorem Inv.publish {s : Stream} (h : s.Inv p) {state : Written}
    (hsound : Sound p s.cell.body state)
    (hbytes : state.bytes = s.cell.body.length) {leader : Leader}
    (hleader : ∀ state', leader ≠ .appended state') :
    { s with
      cell := s.cell.sendReplace state
      version := s.version + 1
      leader := leader }.Inv p where
  body_eq := h.body_eq
  published := hsound
  idle := fun _ => hbytes
  appended := fun state' heq => absurd heq (hleader state')
  followers := h.followers

theorem Inv.lead {s : Stream} (h : s.Inv p) : (lead p s).Inv p := by
  unfold Stream.lead
  split
  case h_1 hidle =>
      split
      case h_1 data hdata => exact h.append hidle hdata
      case h_2 hend =>
          have hbytes := h.idle hidle
          have hall : s.cell.written.bytes = p.body.length := by
            rw [List.getElem?_eq_none_iff] at hend
            rw [hbytes, h.body_eq, wrote, List.take_of_length_le hend,
              Program.body]
          have hsound : Sound p s.cell.body
              (.complete s.cell.written.bytes) := ⟨hbytes.le, fun _ => hall⟩
          exact h.publish hsound hbytes (by simp)
  case h_2 state hstate =>
      obtain ⟨hbytes, hsound⟩ := h.appended state hstate
      exact h.publish hsound hbytes (by simp)
  case h_3 => exact h

theorem Inv.step {s : Stream} (h : s.Inv p) (op : Op) :
    (step p s op).Inv p := by
  cases op with
  | lead =>
      simp only [Stream.step]
      split_ifs
      · exact h.lead
      · exact h
  | drop =>
      simp only [Stream.step]
      split
      · exact h
      · exact ⟨h.body_eq, h.published, h.idle, h.appended, h.followers⟩
      · exact ⟨h.body_eq, h.published, h.idle, h.appended, h.followers⟩
  | follow i =>
      refine ⟨h.body_eq, h.published, h.idle, h.appended, fun j => ?_⟩
      simp only [Stream.step]
      by_cases hij : j = i
      · subst hij
        rw [Function.update_self]
        exact (h.followers j).readBody h
      · rw [Function.update_of_ne hij]
        exact h.followers j

theorem inv_start (p : Program) : ({} : Stream).Inv p where
  body_eq := rfl
  published := ⟨le_rfl, fun hdone => by simp [Written.done] at hdone⟩
  idle := fun _ => rfl
  appended := fun _ heq => by simp at heq
  followers := fun _ => ⟨rfl, le_rfl, fun _ heq => by simp at heq,
    fun heq => by simp at heq, by simp⟩

/-- Whatever the order of all accesses, a follower has received a prefix of
what the leader has written, never slices out of range, and is told of the end
only when it has everything. -/
theorem follow_faithful (p : Program) (ops : List Op) (i : ℕ) :
    ((run (step p) {} ops).followers i).received <+:
        (run (step p) {} ops).wrote p ∧
      ((run (step p) {} ops).followers i).place ≠ .panicked ∧
      (((run (step p) {} ops).followers i).place = .ended →
        ((run (step p) {} ops).followers i).received = p.chunks.flatten) := by
  have h : (run (step p) {} ops).Inv p :=
    run_invariant (fun _ op hs => hs.step op) (inv_start p) ops
  have hf := h.followers i
  refine ⟨?_, hf.in_range, fun hended => ?_⟩
  · rw [hf.received_eq, h.body_eq]
    exact List.take_prefix _ _
  · -- As many bytes as there will be are the whole body.
    have hall : (run (step p) {} ops).wrote p = p.body :=
      (wrote_isPrefix p _).eq_of_length_le
        (h.body_eq ▸ hf.ended hended ▸ hf.read_le)
    rw [hf.received_eq, hf.ended hended, h.body_eq, hall, List.take_length]
    rfl

/-- A follower attaches between the first append and its publication, waits,
and is told of the end after both chunks. -/
theorem follow_faithful_two_chunks :
    let ops := [.lead, .follow 0, .follow 0, .lead, .follow 0, .follow 0,
      .follow 0, .lead, .lead, .follow 0, .follow 0, .follow 0, .follow 0]
    ((run (step ⟨[[1, 2], [3]], true⟩) {} ops).followers 0).place = .ended ∧
      ((run (step ⟨[[1, 2], [3]], true⟩) {} ops).followers 0).received =
        [1, 2, 3] :=
  ⟨rfl, (follow_faithful ⟨[[1, 2], [3]], true⟩ _ 0).2.2 rfl⟩

end Stream

end Harmost.Cache
