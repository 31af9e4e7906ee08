import Harmost.Cache.Store.Effect

/-!
# The ledger of a run

Every registered fill has exactly one writer, who holds a handle on as many
bytes as the fill has.  Bytes that an operation has in hand between two of its
parts are *loose*: they are in use, and belong to no entry and no writer yet.
-/

namespace Harmost.Cache

open Harmost.Support
open Harmost.Config

namespace System

open BoundedStore

/-- The bytes in the hands of all writers. -/
def writerBytes (sys : System) : ℕ :=
  AssocMap.total (fun _ writer => writer.handle.accounted) sys.writers

theorem writerBytes_keep_of_notMem {sys : System} {id : ℕ}
    (hnew : id ∉ sys.writers) (writer : Writer) (store : BoundedStore) :
    (sys.keep id writer store).writerBytes =
      sys.writerBytes + writer.handle.accounted := by
  rw [writerBytes, keep_writers, AssocMap.total_insert_of_notMem _ hnew,
    Nat.add_comm, writerBytes]

theorem writerBytes_keep {sys : System} {id : ℕ} {writer : Writer}
    (hwriter : sys.writers.lookup id = some writer) (writer' : Writer)
    (store : BoundedStore) :
    writer.handle.accounted + (sys.keep id writer' store).writerBytes =
      writer'.handle.accounted + sys.writerBytes :=
  AssocMap.total_insert (fun (_ : ℕ) (w : Writer) => w.handle.accounted)
    hwriter writer'

theorem writerBytes_leave {sys : System} {id : ℕ} {writer : Writer}
    (hwriter : sys.writers.lookup id = some writer) (store : BoundedStore) :
    (sys.leave id store).writerBytes + writer.handle.accounted =
      sys.writerBytes := by
  rw [Nat.add_comm]
  exact AssocMap.total_erase
    (fun (_ : ℕ) (w : Writer) => w.handle.accounted) hwriter

/-- Between two parts of an operation: every byte in use belongs to a finished
entry or to a writer, apart from the loose ones. -/
structure Inv (sys : System) (cfg : CacheDefaults) (loose : ℕ) : Prop where
  configured : sys.store.maxBytes = cfg.maxMemory
  balanced : sys.store.Balanced (sys.writerBytes + loose)
  indexed : sys.store.Indexed
  owned : ∀ id writer, sys.writers.lookup id = some writer →
    ∃ fill, sys.store.temp.lookup id = some fill ∧
      Owns sys.store.cells id writer.handle fill
  registered : ∀ id ∈ sys.store.temp, id ∈ sys.writers
  fresh : ∀ id ∈ sys.writers, id < sys.store.nextId
  bodies : ∀ key entry, sys.store.cached.lookup key = some entry →
    entry.body < sys.store.nextId ∧ entry.body ∉ sys.writers
  distinct : ∀ key key' entry entry',
    sys.store.cached.lookup key = some entry →
      sys.store.cached.lookup key' = some entry' →
        entry.body = entry'.body → key = key'

theorem inv_init (cfg : CacheDefaults) : (init cfg).Inv cfg 0 where
  configured := rfl
  balanced := ⟨rfl, Nat.zero_le _, rfl⟩
  indexed := by
    intro key entry h
    exact absurd h (by simp [init, BoundedStore.new])
  owned := by
    intro id writer h
    exact absurd h (by simp [init])
  registered := by
    intro id h
    exact absurd h (AList.notMem_empty id)
  fresh := by
    intro id h
    exact absurd h (AList.notMem_empty id)
  bodies := by
    intro key entry h
    exact absurd h (by simp [init, BoundedStore.new])
  distinct := by
    intro key _ entry _ h
    exact absurd h (by simp [init, BoundedStore.new])

section Parts

variable {sys : System} {cfg : CacheDefaults} {loose : ℕ}

theorem Inv.revise (h : sys.Inv cfg loose) {s' : BoundedStore}
    (hrevises : sys.store.Revises s') :
    Inv { sys with store := s' } cfg loose where
  configured := hrevises.maxBytes.trans h.configured
  balanced := hrevises.balanced _ h.balanced
  indexed := hrevises.indexed h.indexed
  owned := by
    intro id writer hwriter
    obtain ⟨fill, hfill, howns⟩ := h.owned id writer hwriter
    refine ⟨fill, hrevises.temp ▸ hfill, howns.key_eq, howns.id_eq,
      howns.body_eq, ?_⟩
    rw [howns.accounted_eq, ← hrevises.cells]
  registered := by
    intro id hid
    exact h.registered id (hrevises.temp ▸ hid)
  fresh := by
    intro id hid
    exact hrevises.nextId.symm ▸ h.fresh id hid
  bodies := by
    intro key entry hentry
    obtain ⟨old, hold, hbody⟩ := hrevises.kept key entry hentry
    rw [← hbody, hrevises.nextId]
    exact h.bodies key old hold
  distinct := by
    intro key key' entry entry' hentry hentry' heq
    obtain ⟨old, hold, hbody⟩ := hrevises.kept key entry hentry
    obtain ⟨old', hold', hbody'⟩ := hrevises.kept key' entry' hentry'
    exact h.distinct key key' old old' hold hold'
      (hbody.trans (heq.trans hbody'.symm))

/-- Charged bytes are loose at first. -/
theorem Inv.charge (h : sys.Inv cfg 0) {amount : ℕ}
    (hfits : sys.store.used + amount ≤ sys.store.maxBytes) :
    Inv { sys with store := sys.store.charge amount } cfg amount where
  configured := h.configured
  balanced := by
    refine ⟨?_, hfits, h.balanced.exact⟩
    have hused := h.balanced.used_eq
    change sys.store.used + amount = sys.store.cachedBytes +
      (sys.writerBytes + amount)
    omega
  indexed := h.indexed
  owned := h.owned
  registered := h.registered
  fresh := h.fresh
  bodies := h.bodies
  distinct := h.distinct

theorem Inv.release (h : sys.Inv cfg loose) :
    Inv { sys with store := sys.store.release loose } cfg 0 where
  configured := h.configured
  balanced := h.balanced.release
  indexed := h.indexed
  owned := h.owned
  registered := h.registered
  fresh := h.fresh
  bodies := h.bodies
  distinct := h.distinct

/-- The next writer takes the loose bytes as those of a new fill. -/
theorem Inv.register {fill : Temp} (h : sys.Inv cfg fill.fixedSize)
    (hbody : fill.body = sys.store.nextId) (phase : Phase) :
    (sys.keep sys.store.nextId
      ⟨⟨fill.key, sys.store.nextId, fill.fixedSize⟩, phase⟩
      (sys.store.register fill)).Inv cfg 0 := by
  have hnew : sys.store.nextId ∉ sys.writers :=
    fun hmem => (h.fresh _ hmem).ne rfl
  refine ⟨h.configured, ?_, h.indexed, ?_, ?_, ?_, ?_, h.distinct⟩
  · rw [Nat.add_zero, writerBytes_keep_of_notMem hnew]
    refine h.balanced.of_cells rfl rfl rfl rfl fun key entry hentry => ?_
    exact Function.update_of_ne (h.bodies key entry hentry).1.ne _ _
  · intro id writer hwriter
    rcases AssocMap.lookup_insert_cases hwriter with ⟨rfl, rfl⟩ | ⟨hid, hold⟩
    · exact ⟨fill, AList.lookup_insert _, rfl, rfl, hbody, by simp⟩
    · obtain ⟨fill', hfill', howns⟩ := h.owned id writer hold
      refine ⟨fill', (AList.lookup_insert_ne hid).trans hfill', howns.key_eq,
        howns.id_eq, howns.body_eq, ?_⟩
      rw [howns.accounted_eq, keep_store, register_cells,
        Function.update_of_ne hid]
  · intro id hid
    exact (AList.mem_insert _).mpr
      (((AList.mem_insert _).mp hid).imp_right (h.registered id))
  · intro id hid
    rcases (AList.mem_insert _).mp hid with rfl | hold
    · exact Nat.lt_succ_self _
    · exact (h.fresh id hold).trans (Nat.lt_succ_self _)
  · intro key entry hentry
    obtain ⟨hlt, hfree⟩ := h.bodies key entry hentry
    refine ⟨hlt.trans (Nat.lt_succ_self _), fun hmem => ?_⟩
    rcases (AList.mem_insert _).mp hmem with heq | hold
    · exact hlt.ne heq
    · exact hfree hold

/-- A writer takes the loose bytes as those it appends to its fill. -/
theorem Inv.append {data : List UInt8} (h : sys.Inv cfg data.length)
    {id : ℕ} {writer : Writer} (hwriter : sys.writers.lookup id = some writer)
    (written : Written) (phase : Phase) :
    (sys.keep id ⟨writer.handle.grow data.length, phase⟩
      (sys.store.append id data written)).Inv cfg 0 := by
  have hmem : id ∈ sys.writers := AssocMap.mem_of_lookup hwriter
  have hkeys : ∀ {id' : ℕ} {writer' : Writer},
      id' ∈ sys.writers.insert id writer' ↔ id' ∈ sys.writers := by
    intro id' writer'
    rw [AList.mem_insert, or_iff_right_of_imp]
    rintro rfl
    exact hmem
  refine ⟨h.configured, ?_, h.indexed, ?_, ?_, ?_, ?_, h.distinct⟩
  · have hbytes := writerBytes_keep hwriter
      ⟨writer.handle.grow data.length, phase⟩
      (sys.store.append id data written)
    rw [FollowableMiss.grow, Nat.add_assoc] at hbytes
    rw [Nat.add_zero, FollowableMiss.grow, Nat.add_left_cancel hbytes,
      Nat.add_comm data.length]
    refine h.balanced.of_cells rfl rfl rfl rfl fun key entry hentry => ?_
    refine Function.update_of_ne (fun heq => ?_) _ _
    exact (h.bodies key entry hentry).2 (heq ▸ hmem)
  · intro id' writer' hwriter'
    rcases AssocMap.lookup_insert_cases hwriter' with ⟨rfl, rfl⟩ | ⟨hid, hold⟩
    · obtain ⟨fill, hfill, howns⟩ := h.owned id' writer hwriter
      refine ⟨fill, hfill, howns.key_eq, howns.id_eq, howns.body_eq, ?_⟩
      simp [FollowableMiss.grow, howns.accounted_eq, Nat.add_assoc]
    · obtain ⟨fill, hfill, howns⟩ := h.owned id' writer' hold
      refine ⟨fill, hfill, howns.key_eq, howns.id_eq, howns.body_eq, ?_⟩
      rw [howns.accounted_eq, keep_store, append_cells,
        Function.update_of_ne hid]
  · exact fun id' hid' => hkeys.mpr (h.registered id' hid')
  · exact fun id' hid' => h.fresh id' (hkeys.mp hid')
  · intro key entry hentry
    obtain ⟨hlt, hfree⟩ := h.bodies key entry hentry
    exact ⟨hlt, fun hin => hfree (hkeys.mp hin)⟩

/-- The bytes of a writer who leaves are loose. -/
theorem Inv.unregister (h : sys.Inv cfg 0) {id : ℕ} {writer : Writer}
    (hwriter : sys.writers.lookup id = some writer) :
    (sys.leave id (sys.store.unregister id)).Inv cfg
      writer.handle.accounted := by
  refine ⟨h.configured, ?_, h.indexed, ?_, ?_, ?_, ?_, h.distinct⟩
  · rw [writerBytes_leave hwriter]
    exact h.balanced.of_cells rfl rfl rfl rfl fun _ _ _ => rfl
  · intro id' writer' hwriter'
    rw [leave_writers] at hwriter'
    have hid : id' ≠ id := by
      rintro rfl
      simp at hwriter'
    rw [AList.lookup_erase_ne hid] at hwriter'
    obtain ⟨fill, hfill, howns⟩ := h.owned id' writer' hwriter'
    exact ⟨fill, (AList.lookup_erase_ne hid).trans hfill, howns⟩
  · intro id' hid'
    obtain ⟨hne, hin⟩ := AList.mem_erase.mp hid'
    exact AList.mem_erase.mpr ⟨hne, h.registered id' hin⟩
  · exact fun id' hid' => h.fresh id' (AList.mem_erase.mp hid').2
  · intro key entry hentry
    obtain ⟨hlt, hfree⟩ := h.bodies key entry hentry
    exact ⟨hlt, fun hin => hfree (AList.mem_erase.mp hin).2⟩

/-- A finished entry takes the loose bytes. -/
theorem Inv.admitEntry {obj : Stored}
    (h : sys.Inv cfg (obj.size sys.store.cells)) (key : Str)
    (hold : obj.body < sys.store.nextId) (hfree : obj.body ∉ sys.writers)
    (hnew : ∀ key' entry, sys.store.cached.lookup key' = some entry →
      entry.body ≠ obj.body) :
    Inv { sys with store := sys.store.admitEntry key obj } cfg 0 := by
  have hdropped := h.revise (sys.store.revises_dropOld key)
  refine ⟨hdropped.configured, h.balanced.admitEntry,
    h.indexed.admitEntry key obj, hdropped.owned, hdropped.registered,
    hdropped.fresh, ?_, ?_⟩
  · intro key' entry hentry
    rcases lookup_admitEntry hentry with ⟨-, rfl⟩ | ⟨-, old, hlookup, hbody⟩
    · exact ⟨(sys.store.revises_dropOld key).nextId.symm ▸ hold, hfree⟩
    · rw [← hbody]
      obtain ⟨hlt, hin⟩ := h.bodies key' old hlookup
      exact ⟨(sys.store.revises_dropOld key).nextId.symm ▸ hlt, hin⟩
  · intro key₁ key₂ entry₁ entry₂ hentry₁ hentry₂ heq
    rcases lookup_admitEntry hentry₁ with ⟨rfl, rfl⟩ | ⟨-, old₁, hold₁, hbody₁⟩
    · rcases lookup_admitEntry hentry₂ with
        ⟨rfl, rfl⟩ | ⟨-, old₂, hold₂, hbody₂⟩
      · rfl
      · exact absurd (hbody₂.trans heq.symm) (hnew key₂ old₂ hold₂)
    · rcases lookup_admitEntry hentry₂ with
        ⟨rfl, rfl⟩ | ⟨-, old₂, hold₂, hbody₂⟩
      · exact absurd (hbody₁.trans heq) (hnew key₁ old₁ hold₁)
      · exact h.distinct key₁ key₂ old₁ old₂ hold₁ hold₂
          (hbody₁.trans (heq.trans hbody₂.symm))

theorem Inv.invalidate (h : sys.Inv cfg loose) (hit : Temp → Bool) :
    Inv { sys with store := sys.store.invalidate hit } cfg loose := by
  refine ⟨h.configured, h.balanced.invalidate hit, h.indexed, ?_, ?_, h.fresh,
    h.bodies, h.distinct⟩
  · intro id writer hwriter
    obtain ⟨fill, hfill, howns⟩ := h.owned id writer hwriter
    refine ⟨_, (AssocMap.lookup_mapValues _ _ id).trans
      (congrArg (Option.map _) hfill), ?_⟩
    dsimp only
    split_ifs
    · exact ⟨howns.key_eq, howns.id_eq, howns.body_eq, howns.accounted_eq⟩
    · exact howns
  · exact fun id hid => h.registered id (AssocMap.mem_mapValues.mp hid)

section

variable {id : ℕ} {writer : Writer} (h : sys.Inv cfg 0)
  (hwriter : sys.writers.lookup id = some writer)
include h hwriter

/-- The fill of a writer who finishes becomes an entry with its bytes. -/
theorem Inv.admitted {fill : Temp}
    (howns : Owns sys.store.cells id writer.handle fill) :
    (sys.leave id ((sys.store.unregister id).admitEntry writer.handle.key
      ⟨fill.serialized, fill.body, fill.path, fill.tags, false⟩)).Inv
        cfg 0 := by
  have hmem : id ∈ sys.writers := AssocMap.mem_of_lookup hwriter
  have hloose := h.unregister hwriter
  have hsize : writer.handle.accounted = Stored.size sys.store.cells
      ⟨fill.serialized, fill.body, fill.path, fill.tags, false⟩ := by
    simp only [howns.accounted_eq, Temp.fixedSize, Stored.size, howns.body_eq]
    omega
  rw [hsize] at hloose
  refine hloose.admitEntry _ ?_ ?_ ?_
  · exact howns.body_eq ▸ h.fresh id hmem
  · simp [howns.body_eq, AList.mem_erase]
  · intro key entry hentry heq
    rw [howns.body_eq] at heq
    exact (h.bodies key entry hentry).2 (heq ▸ hmem)

/-! ## Steps -/

theorem Inv.abandon_effect :
    sys.Effect (sys.leave id (sys.store.abandon writer.handle)) := by
  obtain ⟨fill, hfill, howns⟩ := h.owned id writer hwriter
  rw [BoundedStore.abandon, howns.id_eq, removeTemp_eq hfill howns.key_eq]
  exact .abandoned hwriter

theorem Inv.completeFinish_effect :
    sys.Effect (sys.leave id (sys.store.completeFinish writer.handle)) := by
  obtain ⟨fill, hfill, howns⟩ := h.owned id writer hwriter
  rw [BoundedStore.completeFinish, howns.id_eq,
    removeTemp_eq hfill howns.key_eq]
  dsimp only
  split_ifs with hmarked
  · exact .abandoned hwriter
  · exact .admitted hwriter hfill howns (Bool.eq_false_iff.mpr hmarked)

end

/-- As long as every writer owns its fill, steps do nothing else. -/
theorem Inv.effect (h : sys.Inv cfg 0) (op : Op) :
    sys.Effect (sys.step op) := by
  have hidle : sys.Effect sys := .revised (.refl _)
  cases op with
  | getMissHandler key m =>
      obtain ⟨s', hrevises, hrefused | ⟨fill, hbody, hnew, hfits, heq⟩⟩ :=
        sys.store.getMissHandler_cases key m
      · rw [System.step, hrefused]
        exact .revised hrevises
      · rw [System.step, heq]
        exact .registered hrevises hbody hnew hfits
  | writeBody id data eof =>
      rw [System.step]
      split
      · exact hidle
      · rename_i handle hhandle
        have hwriter := lookup_of_handle? hhandle
        obtain ⟨s', hrevises, hrefused | ⟨written, hfits, heq⟩⟩ :=
          sys.store.writeBody_cases h.balanced.le_max handle data eof
        · have hnone : s'.used + ([] : List UInt8).length ≤ s'.maxBytes :=
            (hrevises.balanced _ h.balanced).le_max
          have heffect := Effect.appended hrevises hwriter hnone
            (s'.cells id).written .writing
          rw [hrefused]
          exact (append_nil_written s' id) ▸ heffect
        · obtain ⟨_, _, howns⟩ := h.owned id _ hwriter
          rw [heq, howns.id_eq]
          exact .appended hrevises hwriter hfits written .writing
  | beginFinish id =>
      rw [System.step]
      split
      · exact hidle
      · rename_i handle hhandle
        have hwriter := lookup_of_handle? hhandle
        obtain ⟨fill, hfill, howns⟩ := h.owned id _ hwriter
        have hnone : sys.store.used + ([] : List UInt8).length ≤
            sys.store.maxBytes := h.balanced.le_max
        have heffect := Effect.appended (.refl _) hwriter hnone
          (.complete (sys.store.cells id).written.bytes)
        rw [sys.store.beginFinish_eq (howns.id_eq ▸ hfill) howns.key_eq,
          howns.id_eq]
        cases htransient : fill.transient with
        | true => exact heffect .handoff
        | false => exact heffect .finishing
  | completeFinish id =>
      rw [System.step]
      split
      · exact hidle
      · rename_i handle hhandle
        exact h.completeFinish_effect (lookup_of_handle? hhandle)
  | drop | expire =>
      rw [System.step]
      split
      · exact hidle
      · rename_i handle hhandle
        exact h.abandon_effect (lookup_of_handle? hhandle)
  | updateMeta key m => exact .revised (revises_updateMeta _ key m)
  | lookup combined => exact .revised (revises_lookup _ combined)
  | purge request =>
      obtain ⟨hsame, -⟩ | ⟨fillHit, hit, heq, -, -⟩ :=
        purge_cases h.indexed request
      · rwa [System.step, hsame]
      · rw [System.step, heq]
        exact .purged fillHit hit

theorem Inv.of_effect (h : sys.Inv cfg 0) {sys' : System}
    (heffect : sys.Effect sys') : sys'.Inv cfg 0 := by
  cases heffect with
  | revised hrevises => exact h.revise hrevises
  | registered hrevises hbody _ hfits =>
      exact ((h.revise hrevises).charge hfits).register hbody .writing
  | appended hrevises hwriter hfits written phase =>
      exact ((h.revise hrevises).charge hfits).append hwriter written phase
  | abandoned hwriter => exact (h.unregister hwriter).release
  | admitted hwriter _ howns _ => exact h.admitted hwriter howns
  | purged fillHit hit =>
      exact (h.invalidate fillHit).revise (revises_purgeMatchingLocked _ hit)

/-- Every operation keeps the ledger. -/
theorem Inv.step (h : sys.Inv cfg 0) (op : Op) : (sys.step op).Inv cfg 0 :=
  h.of_effect (h.effect op)

theorem Inv.run (h : sys.Inv cfg 0) (ops : List Op) : (sys.run ops).Inv cfg 0 :=
  run_invariant (P := fun sys : System => sys.Inv cfg 0)
    (fun _ op h => h.step op) h ops

/-- What every effect preserves holds after every run. -/
theorem Inv.run_of_effect {P : System → Prop}
    (heffect : ∀ sys sys' : System, sys.Effect sys' → P sys → P sys')
    (h : sys.Inv cfg 0) (hsys : P sys) (ops : List Op) : P (sys.run ops) :=
  (run_invariant (P := fun sys : System => sys.Inv cfg 0 ∧ P sys)
    (fun sys op hboth => ⟨hboth.1.step op,
      heffect sys (sys.step op) (hboth.1.effect op) hboth.2⟩)
    ⟨h, hsys⟩ ops).2

end Parts

/-- Registered fills are in the hands of exactly the writers. -/
theorem Inv.fillBytes_eq {sys : System} {cfg : CacheDefaults} {loose : ℕ}
    (h : sys.Inv cfg loose) : sys.fillBytes = sys.writerBytes := by
  have hkeys : ∀ id, id ∈ sys.store.temp ↔ id ∈ sys.writers := by
    refine fun id => ⟨h.registered id, fun hid => ?_⟩
    obtain ⟨writer, hwriter⟩ := Option.isSome_iff_exists.mp
      (AList.lookup_isSome.mpr hid)
    obtain ⟨fill, hfill, -⟩ := h.owned id writer hwriter
    exact AssocMap.mem_of_lookup hfill
  rw [fillBytes, AssocMap.total_key_eq sys.accounted hkeys, writerBytes]
  refine AssocMap.total_congr fun id writer hwriter => ?_
  rw [accounted, hwriter]

theorem inv_run (cfg : CacheDefaults) (ops : List Op) :
    ((init cfg).run ops).Inv cfg 0 :=
  (inv_init cfg).run ops

/-- After any operations of any number of writers, `used` is what the finished
entries and the registered fills take, it is within the configured budget, and
no subtraction from it has clamped. -/
theorem run_accounting (cfg : CacheDefaults) (ops : List Op) :
    ((init cfg).run ops).store.used =
        ((init cfg).run ops).store.cachedBytes +
          ((init cfg).run ops).fillBytes ∧
      ((init cfg).run ops).store.used ≤ cfg.maxMemory ∧
      ((init cfg).run ops).store.clamped = false := by
  have h := inv_run cfg ops
  refine ⟨?_, ?_, h.balanced.exact⟩
  · rw [h.balanced.used_eq, h.fillBytes_eq, Nat.add_zero]
  · exact h.configured ▸ h.balanced.le_max

end System

end Harmost.Cache
