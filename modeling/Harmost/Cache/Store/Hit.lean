import Harmost.Cache.Store.Stream

/-!
# Reading a finished entry

A hit on a finished entry is read in chunks, from the start or from where the
caller seeks to.  The caller of `seek` also says where the range ends; the
handler has no field to remember it in.
-/

namespace Harmost.Cache

/-- The handle on a finished body, and how far it was read. -/
structure CompleteHit where
  body : List UInt8
  read : ℕ := 0

namespace CompleteHit

def chunkLen : ℕ := 64 * 1024

/-- `read_body`: the next chunk, or nothing at the end of the body.  The outer
`none` is the panic of a slice out of range. -/
def readBody (hit : CompleteHit) :
    Option (Option (List UInt8) × CompleteHit) :=
  if hit.body.length ≤ hit.read then some (none, hit)
  else
    let stop := min (hit.read + chunkLen) hit.body.length
    (slice hit.body hit.read stop).map fun chunk =>
      (some chunk, { hit with read := stop })

/-- `seek`, which drops the end of the range. -/
def seek (hit : CompleteHit) (start : ℕ) (_stop : Option ℕ) : CompleteHit :=
  { hit with read := min start hit.body.length }

/-- The chunks of at most `calls` calls of `read_body`, one after the other, if
the last of them returned nothing. -/
def readAll : (calls : ℕ) → CompleteHit → Option (List UInt8)
  | 0, _ => none
  | calls + 1, hit =>
      match hit.readBody with
      | none => none
      | some (none, _) => some []
      | some (some chunk, hit') => (readAll calls hit').map (chunk ++ ·)

/-- The bytes a caller asks for: from `start` to the exclusive end, or to the
end of the body. -/
def requested (body : List UInt8) (start : ℕ) (stop : Option ℕ) :
    List UInt8 :=
  let last := (stop.map fun stop => min stop body.length).getD body.length
  (body.take last).drop (min start body.length)

variable {hit : CompleteHit}

theorem readBody_of_le (h : hit.body.length ≤ hit.read) :
    hit.readBody = some (none, hit) :=
  if_pos h

/-- Before the end a chunk is read, and it is never empty. -/
theorem readBody_of_lt (h : hit.read < hit.body.length) :
    ∃ chunk stop, hit.readBody = some (some chunk, { hit with read := stop }) ∧
      hit.read < stop ∧ stop ≤ hit.body.length ∧
      hit.body.drop hit.read = chunk ++ hit.body.drop stop := by
  let stop := min (hit.read + chunkLen) hit.body.length
  have hlt : hit.read < stop := lt_min (by simp [chunkLen]) h
  have hle : stop ≤ hit.body.length := min_le_right _ _
  refine ⟨(hit.body.take stop).drop hit.read, stop, ?_, hlt, hle, ?_⟩
  · have hslice : slice hit.body hit.read stop =
        some ((hit.body.take stop).drop hit.read) := if_pos ⟨hlt.le, hle⟩
    rw [readBody, if_neg (not_le.mpr h)]
    exact congrArg (Option.map fun chunk =>
      (some chunk, { hit with read := stop })) hslice
  · conv_lhs => rw [← List.take_append_drop stop hit.body]
    apply List.drop_append_of_le_length
    rw [List.length_take, min_eq_left hle]
    exact hlt.le

/-- Reading on gives the rest of the body, after at most one call per byte and
one to see the end. -/
theorem readAll_eq_drop {calls : ℕ} (hread : hit.read ≤ hit.body.length)
    (hcalls : hit.body.length < hit.read + calls) :
    readAll calls hit = some (hit.body.drop hit.read) := by
  induction calls generalizing hit with
  | zero => exact absurd hread (by omega)
  | succ calls ih =>
      by_cases hend : hit.body.length ≤ hit.read
      · rw [readAll, readBody_of_le hend, List.drop_of_length_le hend]
      · obtain ⟨chunk, stop, hchunk, hlt, hle, hdrop⟩ :=
          readBody_of_lt (not_le.mp hend)
        have hrest : readAll calls { hit with read := stop } =
            some (hit.body.drop stop) :=
          ih hle (show hit.body.length < stop + calls by omega)
        rw [readAll, hchunk]
        simp only [hrest, Option.map_some, hdrop]

/-- The handle `lookup` returns for a finished entry. -/
def ofCell (cell : Cell) : CompleteHit where
  body := cell.body

/-- Without a seek the whole body is read. -/
theorem readAll_ofCell (cell : Cell) {calls : ℕ}
    (hcalls : cell.body.length < calls) :
    readAll calls (ofCell cell) = some cell.body := by
  have hend : cell.body.length < 0 + calls := by omega
  exact @readAll_eq_drop (ofCell cell) calls (Nat.zero_le _) hend

theorem readAll_seek (hit : CompleteHit) (start : ℕ) (stop : Option ℕ)
    {calls : ℕ} (hcalls : hit.body.length < calls) :
    readAll calls (hit.seek start stop) = some (hit.body.drop start) := by
  have hread : (hit.seek start stop).read ≤ (hit.seek start stop).body.length :=
    min_le_right _ _
  have hend : (hit.seek start stop).body.length <
      (hit.seek start stop).read + calls := by
    show hit.body.length < min start hit.body.length + calls
    omega
  rw [readAll_eq_drop hread hend]
  rcases le_total start hit.body.length with hstart | hstart <;>
    simp [seek, hstart]

theorem drop_eq_requested_iff (body : List UInt8) (start : ℕ)
    (stop : Option ℕ) :
    body.drop start = requested body start stop ↔
      ∀ last, stop = some last → body.length ≤ last ∨ body.length ≤ start := by
  cases stop with
  | none =>
      rcases le_total start body.length with hstart | hstart <;>
        simp [requested, hstart]
  | some last =>
      have hiff : body.drop start = (body.take (min last body.length)).drop
          (min start body.length) ↔
            body.length ≤ last ∨ body.length ≤ start := by
        constructor
        · intro h
          -- The two sides already differ in length when the end is dropped.
          have hlen := congrArg List.length h
          simp only [List.length_drop, List.length_take] at hlen
          omega
        · rintro (hlast | hstart)
          · rw [min_eq_right hlast, List.take_length]
            rcases le_total start body.length with hstart | hstart
            · rw [min_eq_left hstart]
            · rw [min_eq_right hstart, List.drop_length,
                List.drop_of_length_le hstart]
          · rw [min_eq_right hstart, List.drop_of_length_le hstart,
              List.drop_of_length_le]
            exact List.length_take_le' _ _
      simpa [requested] using hiff

/-- A range read returns the requested bytes exactly when dropping its end
does not matter: the range is open, ends at or after the end of the body, or
starts there. -/
theorem seek_range_iff (hit : CompleteHit) (start : ℕ) (stop : Option ℕ) :
    (∃ enough, ∀ calls, enough ≤ calls →
      readAll calls (hit.seek start stop) =
        some (requested hit.body start stop)) ↔
    ∀ last, stop = some last →
      hit.body.length ≤ last ∨ hit.body.length ≤ start := by
  rw [← drop_eq_requested_iff]
  constructor
  · rintro ⟨enough, h⟩
    have hcalls := h (max enough (hit.body.length + 1)) (le_max_left _ _)
    rw [readAll_seek hit start stop (le_max_right enough _)] at hcalls
    exact Option.some.inj hcalls
  · intro h
    refine ⟨hit.body.length + 1, ?_⟩
    intro calls hcalls
    rw [readAll_seek hit start stop hcalls, h]

/-- The first byte of two is asked for, and both are read. -/
theorem seek_ignores_end :
    let hit : CompleteHit := { body := [1, 2] }
    requested hit.body 0 (some 1) = [1] ∧
      readAll 3 (hit.seek 0 (some 1)) = some [1, 2] ∧
      ¬∃ enough, ∀ calls, enough ≤ calls →
        readAll calls (hit.seek 0 (some 1)) =
          some (requested hit.body 0 (some 1)) := by
  intro hit
  refine ⟨rfl, rfl, ?_⟩
  rintro ⟨enough, h⟩
  have hcalls := h (max enough 3) (le_max_left _ _)
  rw [readAll_seek hit 0 (some 1) (le_max_right enough 3)] at hcalls
  revert hcalls
  decide

end CompleteHit

end Harmost.Cache
