import Harmost.Proxy.Spool

/-!
# The budget of the spools

All spools of the process share one ceiling for their memory.  A reservation is
taken by a compare-and-swap that is tried again as long as it fails, and it may
fail for no reason; a spool gives its reservations back when it is dropped.

The requests take turns at the counter in any order.  One turn is one access to
it, or what a request does between two accesses.
-/

namespace Harmost.Proxy

open Harmost.Support

/-- The process-wide memory ceiling for spooling. -/
structure SpoolBudget where
  limit : ℕ
  /-- A machine word. -/
  used : ℕ := 0
  limit_lt : limit < 2 ^ 64

def SpoolBudget.new (limit : ℕ) (hlimit : limit < 2 ^ 64) : SpoolBudget where
  limit := limit
  limit_lt := hlimit

/-- `fetch_sub` on the counter. -/
def SpoolBudget.release (budget : SpoolBudget) (bytes : ℕ) : SpoolBudget :=
  { budget with used := (budget.used + 2 ^ 64 - bytes) % 2 ^ 64 }

/-- `release_all`: give back a reservation if there is one. -/
def SpoolBudget.releaseAll (budget : SpoolBudget) (reserved : ℕ) :
    SpoolBudget :=
  if 0 < reserved then budget.release reserved else budget

/-- What is left to do of an offer. -/
abbrev Rest := Reserving (Option Bytes × Spool)

/-- Where a request stands. -/
inductive Stage where
  | idle
  /-- In `reserve`, before the first load of the counter. -/
  | loading (bytes : ℕ) (resume : Bool → Rest)
  /-- In the loop of `reserve`, with the value last seen. -/
  | swapping (bytes seen : ℕ) (resume : Bool → Rest)
  /-- `reserve` has returned. -/
  | resuming (rest : Rest)
  | dropped

structure Task where
  /-- The spool, as it was before the offer under way. -/
  spool : Spool
  stage : Stage := .idle
  /-- The bytes of its successful reservations that it has not returned. -/
  outstanding : ℕ := 0

namespace Task

/-- Run an offer up to its next access to the budget. -/
def settle (task : Task) : Rest → Task
  | .done result => { task with spool := result.2, stage := .idle }
  | .access bytes resume => { task with stage := .loading bytes resume }

end Task

/-- The spools of the process and their budget. -/
structure Spools where
  budget : SpoolBudget
  tasks : AssocMap ℕ Task := ∅

inductive Turn where
  | new (id maxBody : ℕ)
  | offer (id : ℕ) (chunk : Option Bytes) (endOfStream : Bool)
  | load (id : ℕ)
  /-- One compare-and-swap, which may fail spuriously. -/
  | swap (id : ℕ) (spurious : Bool)
  | resume (id : ℕ)
  | drop (id : ℕ)

namespace Spools

variable (spools : Spools)

def put (id : ℕ) (task : Task) : Spools :=
  { spools with tasks := spools.tasks.insert id task }

def offer (id : ℕ) (task : Task) (chunk : Option Bytes) (endOfStream : Bool) :
    Spools :=
  match task.stage with
  | .idle => spools.put id (task.settle (task.spool.offer chunk endOfStream))
  | _ => spools

def load (id : ℕ) (task : Task) : Spools :=
  match task.stage with
  | .loading bytes resume =>
      spools.put id
        { task with stage := .swapping bytes spools.budget.used resume }
  | _ => spools

/-- One turn of the loop of `reserve`. -/
def swap (id : ℕ) (task : Task) (spurious : Bool) : Spools :=
  match task.stage with
  | .swapping bytes seen resume =>
      if seen + bytes < 2 ^ 64 ∧ seen + bytes ≤ spools.budget.limit then
        if spools.budget.used = seen ∧ spurious = false then
          { budget := { spools.budget with used := seen + bytes }
            tasks := spools.tasks.insert id
              { task with
                stage := .resuming (resume true)
                outstanding := task.outstanding + bytes } }
        else
          spools.put id
            { task with stage := .swapping bytes spools.budget.used resume }
      else spools.put id { task with stage := .resuming (resume false) }
  | _ => spools

def resume (id : ℕ) (task : Task) : Spools :=
  match task.stage with
  | .resuming rest => spools.put id (task.settle rest)
  | _ => spools

/-- The buffer is freed with the spool. -/
def drop (id : ℕ) (task : Task) : Spools :=
  match task.stage with
  | .idle =>
      { budget := spools.budget.releaseAll task.spool.reserved
        tasks := spools.tasks.insert id
          { spool :=
              { task.spool with
                buffer := [], reserved := 0, drained := fun _ => rfl }
            stage := .dropped
            outstanding := task.outstanding - task.spool.reserved } }
  | _ => spools

/-- A turn that does not apply changes nothing. -/
def step (turn : Turn) : Spools :=
  match turn with
  | .new id maxBody =>
      if id ∈ spools.tasks then spools
      else spools.put id { spool := .new maxBody }
  | .offer id chunk endOfStream =>
      (spools.tasks.lookup id).elim spools fun task =>
        spools.offer id task chunk endOfStream
  | .load id => (spools.tasks.lookup id).elim spools (spools.load id)
  | .swap id spurious =>
      (spools.tasks.lookup id).elim spools fun task =>
        spools.swap id task spurious
  | .resume id => (spools.tasks.lookup id).elim spools (spools.resume id)
  | .drop id => (spools.tasks.lookup id).elim spools (spools.drop id)

end Spools

/-! ## Giving back -/

namespace SpoolBudget

variable {budget : SpoolBudget}

theorem limit_release (bytes : ℕ) :
    (budget.release bytes).limit = budget.limit := by
  rw [release]

theorem used_release {bytes : ℕ} (hle : bytes ≤ budget.used)
    (hused : budget.used ≤ budget.limit) :
    (budget.release bytes).used + bytes = budget.used := by
  have hlimit := budget.limit_lt
  have hword : budget.used + 2 ^ 64 - bytes = budget.used - bytes + 2 ^ 64 := by
    omega
  rw [release]
  dsimp only
  rw [hword, Nat.add_mod_right, Nat.mod_eq_of_lt (by omega)]
  omega

theorem limit_releaseAll (reserved : ℕ) :
    (budget.releaseAll reserved).limit = budget.limit := by
  rw [releaseAll]
  split_ifs
  · exact limit_release reserved
  · rfl

theorem used_releaseAll {reserved : ℕ} (hle : reserved ≤ budget.used)
    (hused : budget.used ≤ budget.limit) :
    (budget.releaseAll reserved).used + reserved = budget.used := by
  rw [releaseAll]
  split_ifs with hpos
  · exact used_release hle hused
  · omega

end SpoolBudget

/-! ## The account of one spool -/

/-- The buffer is covered by the reservation, which is within the ceiling. -/
structure Spool.Covered (spool : Spool) : Prop where
  buffer_le : spool.buffer.length ≤ spool.reserved
  reserved_le : spool.reserved ≤ spool.maxBody
  maxBody_lt : spool.maxBody < 2 ^ 63

namespace Spool

variable {spool : Spool}

theorem covered_new {maxBody : ℕ} (h : maxBody < 2 ^ 63) :
    (Spool.new maxBody).Covered :=
  ⟨le_rfl, Nat.zero_le _, h⟩

/-- A reservation that is granted covers what is needed and does not exceed the
ceiling. -/
theorem reserveStep_spec (h : spool.Covered) {needed : ℕ}
    (hneeded : spool.reserved < needed) (hmax : needed ≤ spool.maxBody) :
    needed ≤ spool.reserved + spool.reserveStep needed ∧
      spool.reserved + spool.reserveStep needed ≤ spool.maxBody := by
  have hlt := h.maxBody_lt
  rw [reserveStep, RESERVE_STEP]
  omega

theorem Covered.giveUp (h : spool.Covered) (why : SpoolOutcome)
    (chunk : Option Bytes) : (spool.giveUp why chunk).2.Covered :=
  ⟨Nat.zero_le _, h.reserved_le, h.maxBody_lt⟩

theorem Covered.finish (h : spool.Covered) (endOfStream : Bool) :
    (spool.finish endOfStream).2.Covered := by
  cases endOfStream with
  | false => exact h
  | true => exact ⟨Nat.zero_le _, h.reserved_le, h.maxBody_lt⟩

theorem reserved_finish (endOfStream : Bool) :
    (spool.finish endOfStream).2.reserved = spool.reserved := by
  cases endOfStream <;> rfl

/-- What an offer leaves: a spool that is covered and has in its reservation
what the budget has granted. -/
def Balanced (account : ℕ) (result : Option Bytes × Spool) : Prop :=
  result.2.reserved = account ∧ result.2.Covered

/-- What is known after `ensure_reserved`: it was refused and nothing has
changed, or the reservation covers what is needed. -/
def Secured (spool : Spool) (needed account : ℕ) (answer : Option ℕ) : Prop :=
  answer = none ∧ account = spool.reserved ∨
    answer = some account ∧ needed ≤ account ∧ account ≤ spool.maxBody

theorem query_secured {needed step : ℕ}
    (hstep : needed ≤ spool.reserved + step ∧
      spool.reserved + step ≤ spool.maxBody) :
    reserving.Obeys (spool.Secured needed) spool.reserved (do
      if ← Prog.ask step then pure (some (spool.reserved + step))
      else pure none) := by
  refine ⟨trivial, ?_⟩
  rintro (_ | _) -
  · exact .inl ⟨rfl, rfl⟩
  · exact .inr ⟨rfl, hstep⟩

theorem ensureReserved_secured (h : spool.Covered) {needed : ℕ}
    (hmax : needed ≤ spool.maxBody) :
    reserving.Obeys (spool.Secured needed) spool.reserved
      (spool.ensureReserved needed) := by
  rw [ensureReserved]
  split_ifs with hcovered
  · exact .inr ⟨rfl, hcovered, h.reserved_le⟩
  · exact query_secured (reserveStep_spec h (Nat.lt_of_not_le hcovered) hmax)

theorem offer_balanced (h : spool.Covered) (chunk : Option Bytes)
    (endOfStream : Bool) :
    reserving.Obeys Balanced spool.reserved
      (spool.offer chunk endOfStream) := by
  unfold offer
  dsimp only
  split_ifs with hactive hincoming hlarge
  · exact ⟨rfl, h.giveUp .bodyTooLarge chunk⟩
  · refine Discipline.obeys_bind.mpr
      ((ensureReserved_secured h (Nat.le_of_not_lt hlarge)).mono ?_)
    rintro account answer (⟨rfl, rfl⟩ | ⟨rfl, hcovered, hle⟩)
    · exact ⟨rfl, h.giveUp .budgetExhausted chunk⟩
    · refine ⟨reserved_finish endOfStream, Covered.finish ?_ endOfStream⟩
      exact ⟨List.length_append.trans_le hcovered, hle, h.maxBody_lt⟩
  · exact ⟨reserved_finish endOfStream, h.finish endOfStream⟩
  · exact ⟨rfl, h⟩

end Spool

/-- What holds of a request wherever it stands. -/
structure Task.Account (task : Task) : Prop where
  covered : task.spool.Covered
  stage :
    match task.stage with
    | .idle => task.outstanding = task.spool.reserved
    | .loading bytes resume =>
        reserving.Obeys Spool.Balanced task.outstanding
          (.access bytes resume)
    | .swapping bytes _ resume =>
        reserving.Obeys Spool.Balanced task.outstanding
          (.access bytes resume)
    | .resuming rest => reserving.Obeys Spool.Balanced task.outstanding rest
    | .dropped => task.outstanding = 0

theorem Task.Account.settle {task : Task} (h : task.spool.Covered) {rest : Rest}
    (hrest : reserving.Obeys Spool.Balanced task.outstanding rest) :
    (task.settle rest).Account ∧
      (task.settle rest).outstanding = task.outstanding := by
  cases rest with
  | done result => exact ⟨⟨hrest.2, hrest.1.symm⟩, rfl⟩
  | access bytes resume => exact ⟨⟨h, hrest⟩, rfl⟩

/-! ## The budget -/

namespace Spools

/-- The bytes of all successful reservations not yet returned. -/
def outstanding (tasks : AssocMap ℕ Task) : ℕ :=
  AssocMap.total (fun _ task => task.outstanding) tasks

structure Inv (spools : Spools) : Prop where
  used_eq : spools.budget.used = outstanding spools.tasks
  used_le : spools.budget.used ≤ spools.budget.limit
  account : ∀ id task, spools.tasks.lookup id = some task → task.Account

variable {spools : Spools} {id : ℕ} {task : Task}

/-- A request changes its own account and the counter by as much. -/
theorem Inv.update (h : Inv spools) (htask : spools.tasks.lookup id = some task)
    {budget : SpoolBudget} {task' : Task}
    (hlimit : budget.limit = spools.budget.limit)
    (hused : budget.used + task.outstanding =
      spools.budget.used + task'.outstanding)
    (hle : budget.used ≤ spools.budget.limit) (haccount : task'.Account) :
    Inv { budget, tasks := spools.tasks.insert id task' } := by
  refine ⟨?_, hlimit ▸ hle, ?_⟩
  · have htotal := AssocMap.total_insert
      (fun (_ : ℕ) (t : Task) => t.outstanding) htask task'
    have husedEq := h.used_eq
    simp only [outstanding] at husedEq ⊢
    omega
  · intro id' t hlookup
    rcases AssocMap.lookup_insert_cases hlookup with ⟨-, rfl⟩ | ⟨-, hold⟩
    · exact haccount
    · exact h.account id' t hold

theorem Inv.put (h : Inv spools) (htask : spools.tasks.lookup id = some task)
    {task' : Task} (hsame : task'.outstanding = task.outstanding)
    (haccount : task'.Account) : Inv (spools.put id task') :=
  h.update htask rfl (by rw [hsame]) h.used_le haccount

theorem Inv.new (h : Inv spools) (hfresh : id ∉ spools.tasks) {maxBody : ℕ}
    (hmax : maxBody < 2 ^ 63) :
    Inv (spools.put id { spool := .new maxBody }) := by
  refine ⟨?_, h.used_le, ?_⟩
  · rw [Spools.put, outstanding, AssocMap.total_insert_of_notMem _ hfresh,
      Nat.zero_add]
    exact h.used_eq
  · intro id' t hlookup
    rcases AssocMap.lookup_insert_cases hlookup with ⟨-, rfl⟩ | ⟨-, hold⟩
    · exact ⟨Spool.covered_new hmax, rfl⟩
    · exact h.account id' t hold

section

variable (h : Inv spools) (htask : spools.tasks.lookup id = some task)
include h htask

theorem Inv.offer (chunk : Option Bytes) (endOfStream : Bool) :
    Inv (spools.offer id task chunk endOfStream) := by
  have haccount := h.account id task htask
  rw [Spools.offer]
  split
  · rename_i hidle
    have hstage := haccount.stage
    rw [hidle] at hstage
    have hoffer := Spool.offer_balanced haccount.covered chunk endOfStream
    rw [← hstage] at hoffer
    obtain ⟨hsettled, hsame⟩ := Task.Account.settle haccount.covered hoffer
    exact h.put htask hsame hsettled
  · exact h

theorem Inv.load : Inv (spools.load id task) := by
  have haccount := h.account id task htask
  rw [Spools.load]
  split
  · rename_i bytes resume hloading
    have hstage := haccount.stage
    rw [hloading] at hstage
    exact h.put htask rfl ⟨haccount.covered, hstage⟩
  · exact h

theorem Inv.swap (spurious : Bool) : Inv (spools.swap id task spurious) := by
  have haccount := h.account id task htask
  rw [Spools.swap]
  split
  · rename_i bytes seen resume hswapping
    have hstage := haccount.stage
    rw [hswapping] at hstage
    split_ifs with hfits hswapped
    · refine h.update htask rfl ?_ hfits.2
        ⟨haccount.covered, hstage.2 true trivial⟩
      rw [hswapped.1]
      dsimp only
      omega
    · exact h.put htask rfl ⟨haccount.covered, hstage⟩
    · exact h.put htask rfl ⟨haccount.covered, hstage.2 false trivial⟩
  · exact h

theorem Inv.resume : Inv (spools.resume id task) := by
  have haccount := h.account id task htask
  rw [Spools.resume]
  split
  · rename_i rest hresuming
    have hstage := haccount.stage
    rw [hresuming] at hstage
    obtain ⟨hsettled, hsame⟩ := Task.Account.settle haccount.covered hstage
    exact h.put htask hsame hsettled
  · exact h

/-- What a request between two offers has reserved is part of what is used. -/
theorem Inv.reserved_le (hidle : task.stage = .idle) :
    task.outstanding = task.spool.reserved ∧
      task.spool.reserved ≤ spools.budget.used := by
  have hstage := (h.account id task htask).stage
  rw [hidle] at hstage
  refine ⟨hstage, ?_⟩
  rw [h.used_eq, ← hstage]
  exact AssocMap.le_total (fun (_ : ℕ) (t : Task) => t.outstanding) htask

theorem Inv.drop : Inv (spools.drop id task) := by
  have haccount := h.account id task htask
  rw [Spools.drop]
  split
  · rename_i hidle
    obtain ⟨hsame, hle⟩ := h.reserved_le htask hidle
    have hreleased := SpoolBudget.used_releaseAll hle h.used_le
    have hused := h.used_le
    have hcovered : Spool.Covered { task.spool with
        buffer := [], reserved := 0, drained := fun _ => rfl } :=
      ⟨le_rfl, Nat.zero_le _, haccount.covered.maxBody_lt⟩
    refine h.update htask (SpoolBudget.limit_releaseAll _) ?_ (by omega)
      ⟨hcovered, Nat.sub_eq_zero_of_le hsame.le⟩
    rw [hsame, hreleased, Nat.sub_self, Nat.add_zero]
  · exact h

end

end Spools

/-- The ceiling of a new spool is below the largest size of an allocation. -/
def Turn.Sized : Turn → Prop
  | .new _ maxBody => maxBody < 2 ^ 63
  | _ => True

namespace Spools

variable {spools : Spools}

theorem Inv.step (h : Inv spools) {turn : Turn} (hsized : turn.Sized) :
    Inv (spools.step turn) := by
  have helim : ∀ (id : ℕ) (act : Task → Spools),
      (∀ task, spools.tasks.lookup id = some task → Inv (act task)) →
        Inv ((spools.tasks.lookup id).elim spools act) := by
    intro id act hact
    cases hlookup : spools.tasks.lookup id with
    | none => exact h
    | some task => exact hact task hlookup
  cases turn with
  | new id maxBody =>
      rw [Spools.step]
      split_ifs with hmem
      · exact h
      · exact h.new hmem hsized
  | offer id chunk endOfStream =>
      exact helim id _ fun task htask => h.offer htask chunk endOfStream
  | load id => exact helim id _ fun task htask => h.load htask
  | swap id spurious => exact helim id _ fun task htask => h.swap htask spurious
  | resume id => exact helim id _ fun task htask => h.resume htask
  | drop id => exact helim id _ fun task htask => h.drop htask

theorem Inv.run (h : Inv spools) {turns : List Turn}
    (hsized : ∀ turn ∈ turns, turn.Sized) :
    Inv (Support.run Spools.step spools turns) := by
  induction turns generalizing spools with
  | nil => exact h
  | cons turn turns ih =>
      exact ih (h.step (hsized turn List.mem_cons_self))
        fun turn' hmem => hsized turn' (List.mem_cons_of_mem turn hmem)

theorem inv_new (budget : SpoolBudget) (hused : budget.used = 0) :
    Inv { budget } where
  used_eq := hused
  used_le := hused ▸ Nat.zero_le _
  account := by
    intro id task hlookup
    cases hlookup

theorem limit_step (turn : Turn) :
    (spools.step turn).budget.limit = spools.budget.limit := by
  have helim : ∀ (id : ℕ) (act : Task → Spools),
      (∀ task, (act task).budget.limit = spools.budget.limit) →
        ((spools.tasks.lookup id).elim spools act).budget.limit =
          spools.budget.limit := by
    intro id act hact
    cases spools.tasks.lookup id with
    | none => rfl
    | some task => exact hact task
  cases turn with
  | new id maxBody =>
      rw [Spools.step]
      split_ifs <;> rfl
  | offer id chunk endOfStream =>
      refine helim id _ fun task => ?_
      rw [Spools.offer]
      split <;> rfl
  | load id =>
      refine helim id _ fun task => ?_
      rw [Spools.load]
      split <;> rfl
  | swap id spurious =>
      refine helim id _ fun task => ?_
      rw [Spools.swap]
      split
      · split_ifs <;> rfl
      · rfl
  | resume id =>
      refine helim id _ fun task => ?_
      rw [Spools.resume]
      split <;> rfl
  | drop id =>
      refine helim id _ fun task => ?_
      rw [Spools.drop]
      split
      · exact SpoolBudget.limit_releaseAll _
      · rfl

/-- A spool that is dropped between two offers gives back what it has
reserved. -/
theorem Inv.step_drop (h : Inv spools) {id : ℕ} {task : Task}
    (htask : spools.tasks.lookup id = some task) (hidle : task.stage = .idle) :
    (spools.step (.drop id)).budget.used + task.spool.reserved =
        spools.budget.used ∧
      ((spools.step (.drop id)).tasks.lookup id).map Task.stage =
        some .dropped := by
  have hle := (h.reserved_le htask hidle).2
  simp only [Spools.step, htask, Option.elim_some, Spools.drop, hidle,
    AList.lookup_insert, Option.map_some, and_true]
  exact SpoolBudget.used_releaseAll hle h.used_le

/-- For every order of turns, the counter of the budget is the sum of the
successful reservations not yet returned and within the limit; every spool has
its buffer within its reservation and that within its ceiling; what a spool
would give back is never more than is used, and a drop gives back just that;
and once all spools are dropped nothing is used. -/
theorem used_eq_outstanding (limit : ℕ) (hlimit : limit < 2 ^ 64)
    (turns : List Turn) (hsized : ∀ turn ∈ turns, turn.Sized) :
    let spools := Support.run step { budget := .new limit hlimit } turns
    spools.budget.used = outstanding spools.tasks ∧
      spools.budget.used ≤ limit ∧
      (∀ id task, spools.tasks.lookup id = some task →
        task.spool.buffer.length ≤ task.spool.reserved ∧
          task.spool.reserved ≤ task.spool.maxBody ∧
          (task.stage = .idle → task.outstanding = task.spool.reserved ∧
            task.spool.reserved ≤ spools.budget.used ∧
            (spools.step (.drop id)).budget.used + task.spool.reserved =
              spools.budget.used ∧
            ((spools.step (.drop id)).tasks.lookup id).map Task.stage =
              some .dropped)) ∧
      ((∀ id task, spools.tasks.lookup id = some task →
        task.stage = .dropped) → spools.budget.used = 0) := by
  intro spools
  have hinv : Inv spools := (inv_new (.new limit hlimit) rfl).run hsized
  have hlimitEq : spools.budget.limit = limit :=
    run_invariant (P := fun s : Spools => s.budget.limit = limit)
      (fun s turn hs => (s.limit_step turn).trans hs) rfl turns
  refine ⟨hinv.used_eq, hlimitEq ▸ hinv.used_le, ?_, ?_⟩
  · intro id task htask
    have hcovered := (hinv.account id task htask).covered
    refine ⟨hcovered.buffer_le, hcovered.reserved_le, fun hidle => ?_⟩
    obtain ⟨hsame, hle⟩ := hinv.reserved_le htask hidle
    exact ⟨hsame, hle, hinv.step_drop htask hidle⟩
  · intro hdropped
    have hzero : ∀ id task, spools.tasks.lookup id = some task →
        task.outstanding = 0 := by
      intro id task htask
      have hstage := (hinv.account id task htask).stage
      rwa [hdropped id task htask] at hstage
    rw [hinv.used_eq, outstanding, AssocMap.total_congr hzero, AssocMap.total]
    simp

/-- Two spools ask for a byte each.  The first is granted a step after a
spurious failure; for another step there is no room.  The step is given back
with the first spool. -/
theorem used_eq_outstanding_of_two_spools :
    let turns : List Turn :=
      [.new 0 70000, .new 1 70000, .offer 0 (some [7]) false,
        .offer 1 (some [8]) false, .load 0, .load 1, .swap 0 true,
        .swap 0 false, .swap 1 false, .swap 1 false, .resume 1, .resume 0]
    let spools :=
      Support.run step { budget := .new 100000 (by decide) } turns
    spools.budget.used = 65536 ∧ outstanding spools.tasks = 65536 ∧
      (spools.step (.drop 0)).budget.used = 0 := by
  intro turns spools
  have hused : spools.budget.used = 65536 := by decide
  have hsized : ∀ turn ∈ turns, turn.Sized := by simp [turns, Turn.Sized]
  have h := used_eq_outstanding 100000 (by decide) turns hsized
  have hdrop := ((h.2.2.1 0 _ rfl).2.2 rfl).2.2.1
  exact ⟨hused, h.1.symm.trans hused, Nat.add_eq_right.mp hdrop⟩

end Spools

end Harmost.Proxy
