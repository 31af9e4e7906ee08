import Harmost.Next.ToFile

/-!
# What is on disk while configurations are replaced

The names of temporary files are kept apart by their identifiers, so no run
touches the files of another one before they are renamed.  From there on a
target holds the whole of what one run has published, in any interleaving of
runs and with any failures.
-/

namespace Harmost.Next.ToFile

open Harmost.Support

section Runs

variable {ν : Type} {jobs : ν → Job} {valid : Str → Bool}
  {account : Account ν} {path text : Str}

/-! ## What holds between the files and the runs -/

/-- A target is as it was, or some run has replaced it. -/
def Settled (jobs : ν → Job) (valid : Str → Bool) (initial : AssocMap Str Str)
    (path : Str) (found : Option Str) : Prop :=
  found = initial.lookup path ∨
    ∃ i text, found = some text ∧ Published valid (jobs i) path text

structure Inv (jobs : ν → Job) (valid : Str → Bool)
    (initial : AssocMap Str Str) (s : Files)
    (accounts : AssocMap ℕ (Account ν)) : Prop where
  issued : ∀ thread account, accounts.lookup thread = some account →
    ∀ uuid ∈ account.uuids, uuid ∈ s.issued
  apart : ∀ thread thread' account account',
    accounts.lookup thread = some account →
      accounts.lookup thread' = some account' → thread ≠ thread' →
        ∀ uuid ∈ account.uuids, uuid ∉ account'.uuids
  full : ∀ thread account, accounts.lookup thread = some account →
    ∀ path text, (path, text) ∈ account.full →
      account.Owns path ∧ s.content.lookup path = some text
  made : ∀ thread account, accounts.lookup thread = some account →
    ∀ path ∈ account.made, account.Owns path ∧ s.content.lookup path ≠ none
  temporaries : ∀ path, Temporary path → s.content.lookup path ≠ none →
    initial.lookup path ≠ none ∨ ∃ thread account,
      accounts.lookup thread = some account ∧ path ∈ account.made
  targets : ∀ path, ¬Temporary path →
    Settled jobs valid initial path (s.content.lookup path)

variable {initial : AssocMap Str Str} {s s' : Files}
  {accounts : AssocMap ℕ (Account ν)} {thread : ℕ} {account' : Account ν}

theorem Account.Owns.temporary (h : account.Owns path) : Temporary path := by
  obtain ⟨target, pid, uuid, -, rfl⟩ := h
  exact ⟨target, pid, uuid, rfl⟩

theorem Account.Owns.mono (h : account.Owns path)
    (huuids : account.uuids ⊆ account'.uuids) : account'.Owns path := by
  obtain ⟨target, pid, uuid, hmem, rfl⟩ := h
  exact ⟨target, pid, uuid, huuids hmem, rfl⟩

/-- A name belongs to one run only. -/
theorem Account.Owns.apart (h : account.Owns path)
    (hapart : ∀ uuid ∈ account.uuids, uuid ∉ account'.uuids) :
    ¬account'.Owns path := by
  obtain ⟨target, pid, uuid, hmem, rfl⟩ := h
  rintro ⟨target', pid', uuid', hmem', heq⟩
  obtain rfl := uuid_eq_of_temporary_eq heq
  exact hapart uuid hmem hmem'

section

variable (h : Inv jobs valid initial s accounts)
include h

/-- A target gets what a run publishes. -/
theorem Inv.publish {i : ν} {target : Str} (htarget : ¬Temporary target)
    (hpublished : Published valid (jobs i) target text) :
    Inv jobs valid initial
      { s with content := s.content.insert target text } accounts := by
  have hframe : ∀ path, path ≠ target →
      (s.content.insert target text).lookup path = s.content.lookup path :=
    fun path hne => AList.lookup_insert_ne hne
  have hkept : ∀ path, Temporary path →
      (s.content.insert target text).lookup path = s.content.lookup path :=
    fun path hpath => hframe path fun heq => htarget (heq ▸ hpath)
  refine { h with full := ?_, made := ?_, temporaries := ?_, targets := ?_ }
  · intro t a ha path found hmem
    obtain ⟨howned, hfound⟩ := h.full t a ha path found hmem
    exact ⟨howned, (hkept path howned.temporary).trans hfound⟩
  · intro t a ha path hmem
    obtain ⟨howned, hthere⟩ := h.made t a ha path hmem
    exact ⟨howned, (hkept path howned.temporary).symm ▸ hthere⟩
  · intro path hpath hfound
    exact h.temporaries path hpath (hkept path hpath ▸ hfound)
  · intro path hpath
    by_cases heq : path = target
    · subst heq
      exact .inr ⟨i, text, AList.lookup_insert _, hpublished⟩
    · dsimp only
      rw [hframe path heq]
      exact h.targets path hpath

variable (hlookup : accounts.lookup thread = some account)
include hlookup

/-- A run changes files whose names are its own, and it can get a new
identifier for them. -/
theorem Inv.advance (huuids : account.uuids ⊆ account'.uuids)
    (hfresh : ∀ uuid ∈ account'.uuids,
      uuid ∈ account.uuids ∨ uuid ∉ s.issued) (hissued : s.issued ⊆ s'.issued)
    (hown : account'.uuids ⊆ s'.issued) (hframe : ∀ path, ¬account'.Owns path →
      s'.content.lookup path = s.content.lookup path)
    (hfull : ∀ path text, (path, text) ∈ account'.full →
      account'.Owns path ∧ s'.content.lookup path = some text)
    (hmade : ∀ path ∈ account'.made, account'.Owns path ∧
      s'.content.lookup path ≠ none)
    (hleft : ∀ path, account'.Owns path → s'.content.lookup path ≠ none →
      initial.lookup path ≠ none ∨ path ∈ account'.made) :
    Inv jobs valid initial s' (accounts.insert thread account') := by
  have hother : ∀ {thread' found}, thread' ≠ thread →
      (accounts.insert thread account').lookup thread' = some found →
        accounts.lookup thread' = some found := by
    intro thread' found hne hfound
    rwa [AList.lookup_insert_ne hne] at hfound
  have hself : ∀ {found},
      (accounts.insert thread account').lookup thread = some found →
        found = account' := by
    intro found hfound
    rw [AList.lookup_insert] at hfound
    exact (Option.some.inj hfound).symm
  have hapart : ∀ {thread' found}, thread' ≠ thread →
      accounts.lookup thread' = some found →
        ∀ uuid ∈ found.uuids, uuid ∉ account'.uuids := by
    intro thread' found hne hfound uuid hmem hmem'
    rcases hfresh uuid hmem' with hold | hnew
    · exact h.apart _ _ _ _ hfound hlookup hne uuid hmem hold
    · exact hnew (h.issued _ _ hfound uuid hmem)
  refine ⟨?_, ?_, ?_, ?_, ?_, ?_⟩
  · intro t a ha
    by_cases ht : t = thread
    · subst ht
      obtain rfl := hself ha
      exact fun uuid hmem => hown hmem
    · exact fun uuid hmem => hissued (h.issued _ _ (hother ht ha) uuid hmem)
  · intro t t' a a' ha ha' hne
    by_cases ht : t = thread
    · subst ht
      obtain rfl := hself ha
      exact fun uuid hmem hmem' =>
        hapart (Ne.symm hne) (hother (Ne.symm hne) ha') uuid hmem' hmem
    · by_cases ht' : t' = thread
      · subst ht'
        obtain rfl := hself ha'
        exact hapart ht (hother ht ha)
      · exact h.apart _ _ _ _ (hother ht ha) (hother ht' ha') hne
  · intro t a ha path text hmem
    by_cases ht : t = thread
    · subst ht
      obtain rfl := hself ha
      exact hfull path text hmem
    · obtain ⟨howned, htext⟩ := h.full t a (hother ht ha) path text hmem
      have hnot := howned.apart (hapart ht (hother ht ha))
      exact ⟨howned, (hframe path hnot).trans htext⟩
  · intro t a ha path hmem
    by_cases ht : t = thread
    · subst ht
      obtain rfl := hself ha
      exact hmade path hmem
    · obtain ⟨howned, hthere⟩ := h.made t a (hother ht ha) path hmem
      have hnot := howned.apart (hapart ht (hother ht ha))
      exact ⟨howned, (hframe path hnot).symm ▸ hthere⟩
  · intro path htemporary hfound
    by_cases howned : account'.Owns path
    · refine (hleft path howned hfound).imp_right fun hmem => ?_
      exact ⟨thread, account', AList.lookup_insert _, hmem⟩
    · rw [hframe path howned] at hfound
      refine (h.temporaries path htemporary hfound).imp_right ?_
      rintro ⟨t, a, ha, hmem⟩
      have ht : t ≠ thread := by
        rintro rfl
        obtain rfl := Option.some.inj (hlookup.symm.trans ha)
        exact howned ((h.made _ _ hlookup path hmem).1.mono huuids)
      exact ⟨t, a, by rwa [AList.lookup_insert_ne ht], hmem⟩
  · intro path htarget
    rw [hframe path fun howned => htarget howned.temporary]
    exact h.targets path htarget

/-- A run changes its own temporary files. -/
theorem Inv.own {made stuck renames : List Str} {full : List (Str × Str)}
    {content : AssocMap Str Str} (hframe : ∀ path, ¬account.Owns path →
      content.lookup path = s.content.lookup path)
    (hfull : ∀ path text, (path, text) ∈ full →
      account.Owns path ∧ content.lookup path = some text)
    (hmade : ∀ path ∈ made, account.Owns path ∧ content.lookup path ≠ none)
    (hleft : ∀ path, account.Owns path → content.lookup path ≠ none →
      initial.lookup path ≠ none ∨ path ∈ made) :
    Inv jobs valid initial { s with content }
      (accounts.insert thread { account with made, full, stuck, renames }) :=
  h.advance hlookup (List.Subset.refl _) (fun _ hmem => .inl hmem)
    (List.Subset.refl _) (fun _ hmem => h.issued _ _ hlookup _ hmem) hframe
    hfull hmade hleft

/-- Which files of a run can be there. -/
theorem Inv.left (howned : account.Owns path)
    (hfound : s.content.lookup path ≠ none) :
    initial.lookup path ≠ none ∨ path ∈ account.made := by
  refine (h.temporaries path howned.temporary hfound).imp_right ?_
  rintro ⟨t, a, ha, hmem⟩
  by_cases ht : t = thread
  · subst ht
    obtain rfl := Option.some.inj (hlookup.symm.trans ha)
    exact hmem
  · exact absurd (h.made _ _ ha path hmem).1
      (howned.apart (h.apart _ _ _ _ hlookup ha (Ne.symm ht)))

/-- A new identifier is nobody else's. -/
theorem Inv.uuid {uuid : Uuid}
    (hnew : uuid ∉ s.issued) :
    Inv jobs valid initial { s with issued := uuid :: s.issued }
      (accounts.insert thread
        { account with uuids := uuid :: account.uuids }) := by
  have hsub : account.uuids ⊆ uuid :: account.uuids := List.subset_cons_self _ _
  refine h.advance hlookup hsub ?_ (List.subset_cons_self _ _) ?_
    (fun _ _ => rfl) ?_ ?_ ?_
  · exact List.forall_mem_cons.mpr ⟨.inr hnew, fun _ hmem => .inl hmem⟩
  · exact List.cons_subset_cons _ (h.issued _ _ hlookup)
  · intro path text hmem
    obtain ⟨howned, htext⟩ := h.full _ _ hlookup path text hmem
    exact ⟨howned.mono hsub, htext⟩
  · intro path hmem
    obtain ⟨howned, hthere⟩ := h.made _ _ hlookup path hmem
    exact ⟨howned.mono hsub, hthere⟩
  · intro path howned hfound
    by_cases hold : account.Owns path
    · exact (h.left hlookup hold hfound :)
    · obtain ⟨target, pid, uuid', hmem, rfl⟩ := howned
      rcases List.mem_cons.mp hmem with rfl | hmem
      · refine (h.temporaries _ ⟨target, pid, uuid', rfl⟩ hfound).imp_right ?_
        rintro ⟨t, a, ha, hmade⟩
        obtain ⟨⟨target', pid', uuid, hmem', heq⟩, -⟩ := h.made _ _ ha _ hmade
        obtain rfl := uuid_eq_of_temporary_eq heq
        exact absurd (h.issued _ _ ha _ hmem') hnew
      · exact absurd ⟨target, pid, uuid', hmem, rfl⟩ hold

/-- Nothing but the notes of a run change. -/
theorem Inv.same (stuck : List Str) :
    Inv jobs valid initial s
      (accounts.insert thread { account with stuck }) :=
  h.own hlookup (fun _ _ => rfl) (h.full _ _ hlookup) (h.made _ _ hlookup)
    fun _ => h.left hlookup

/-- A run changes one temporary file of its own. -/
theorem Inv.touch (howns : account.Owns path) {made stuck renames : List Str}
    {full : List (Str × Str)} {content : AssocMap Str Str}
    (hother : ∀ other, other ≠ path →
      content.lookup other = s.content.lookup other)
    (hfull : ∀ entry ∈ full, entry ∈ account.full ∧ entry.1 ≠ path ∨
      entry.1 = path ∧ content.lookup path = some entry.2)
    (hmade : ∀ other ≠ path, other ∈ made ↔ other ∈ account.made)
    (hthere : path ∈ made ↔ content.lookup path ≠ none) :
    Inv jobs valid initial { s with content }
      (accounts.insert thread { account with made, full, stuck, renames }) := by
  refine h.own hlookup ?_ ?_ ?_ ?_
  · exact fun other hnot => hother other fun heq => hnot (heq ▸ howns)
  · intro other text hmem
    rcases hfull _ hmem with ⟨hold, hne⟩ | ⟨rfl, htext⟩
    · obtain ⟨howned, htext⟩ := h.full _ _ hlookup other text hold
      exact ⟨howned, (hother other hne).trans htext⟩
    · exact ⟨howns, htext⟩
  · intro other hmem
    by_cases heq : other = path
    · exact heq ▸ ⟨howns, hthere.mp (heq ▸ hmem)⟩
    · obtain ⟨howned, hfound⟩ :=
        h.made _ _ hlookup other ((hmade other heq).mp hmem)
      exact ⟨howned, (hother other heq).symm ▸ hfound⟩
  · intro other howned hfound
    by_cases heq : other = path
    · exact .inr (heq ▸ hthere.mpr (heq ▸ hfound))
    · rw [hother other heq] at hfound
      exact (h.left hlookup howned hfound).imp_right (hmade other heq).mpr

theorem Inv.create (howns : account.Owns path) (hnew : path ∉ s.content) :
    Inv jobs valid initial { s with content := s.content.insert path [] }
      (accounts.insert thread
        { account with made := path :: account.made }) := by
  refine h.touch hlookup howns (fun _ => AList.lookup_insert_ne) ?_ ?_
    (by simp)
  · rintro ⟨other, text⟩ hmem
    refine .inl ⟨hmem, ?_⟩
    rintro rfl
    have htext := (h.full _ _ hlookup _ _ hmem).2
    simp [AList.lookup_eq_none.mpr hnew] at htext
  · intro other hne
    simp [hne]

theorem Inv.write (hmade : path ∈ account.made) (text : Str)
    {full : List (Str × Str)} (hfull : ∀ entry ∈ full,
      entry = (path, text) ∨ entry ∈ account.full ∧ entry.1 ≠ path) :
    Inv jobs valid initial { s with content := s.content.insert path text }
      (accounts.insert thread { account with full }) := by
  refine h.touch hlookup (h.made _ _ hlookup path hmade).1
    (fun _ => AList.lookup_insert_ne) ?_ (fun _ _ => Iff.rfl) (by simp [hmade])
  intro entry hmem
  rcases hfull entry hmem with rfl | hold
  · exact .inr ⟨rfl, AList.lookup_insert _⟩
  · exact .inl hold

theorem Inv.erase (howns : account.Owns path) (renames : List Str) :
    Inv jobs valid initial { s with content := s.content.erase path }
      (accounts.insert thread { account with
        made := account.made.filter (· ≠ path)
        full := account.full.filter (·.1 ≠ path)
        renames }) := by
  refine h.touch hlookup howns (fun _ => AList.lookup_erase_ne) ?_ ?_ (by simp)
  · exact fun entry hmem => .inl (by simpa using hmem)
  · intro other hne
    simp [hne]

end

/-- No run is told to write to a name that a temporary file could have. -/
def Targets (jobs : ν → Job) : Prop :=
  ∀ i, ¬Temporary (jobs i).out ∧
    ∀ target ∈ (jobs i).identityOut, ¬Temporary target

theorem not_temporary_of_published (hjobs : Targets jobs) {i : ν}
    {target : Str} (h : Published valid (jobs i) target text) :
    ¬Temporary target := by
  rcases h with ⟨rfl, -⟩ | ⟨hidentity, -⟩
  · exact (hjobs i).1
  · exact (hjobs i).2 target hidentity

theorem Inv.turn (hjobs : Targets jobs)
    (h : Inv jobs valid initial s accounts)
    (hlookup : accounts.lookup thread = some account) {query : Access}
    (hpermits : (discipline jobs valid).permits account query)
    {outside : Outside} {reply : Reply query}
    (hanswer : answer valid s query outside = some (reply, s')) :
    (discipline jobs valid).expects account query reply ∧
      Inv jobs valid initial s' (accounts.insert thread
        ((discipline jobs valid).next account query reply)) := by
  have hsame := h.same hlookup account.stuck
  cases query with
  | uuid =>
      simp only [answer] at hanswer
      split_ifs at hanswer with hissued
      cases hanswer
      exact ⟨fun hmem => hissued (h.issued _ _ hlookup _ hmem),
        h.uuid hlookup hissued⟩
  | create path =>
      simp only [answer] at hanswer
      split at hanswer
      · cases hanswer
        exact ⟨trivial, hsame⟩
      · split_ifs at hanswer with hthere
        · cases hanswer
          exact ⟨trivial, hsame⟩
        · cases hanswer
          exact ⟨trivial, h.create hlookup hpermits hthere⟩
  | write path text =>
      obtain ⟨hmade, hnew⟩ := hpermits
      have hthere : path ∈ s.content :=
        AList.lookup_isSome.mp
          (Option.isSome_iff_ne_none.mpr (h.made _ _ hlookup _ hmade).2)
      have hne : ∀ entry ∈ account.full, entry.1 ≠ path := by
        rintro ⟨other, text'⟩ hmem rfl
        exact hnew text' hmem
      simp only [answer, if_pos hthere] at hanswer
      split at hanswer
      · cases hanswer
        exact ⟨trivial, h.write hlookup hmade _ fun entry hmem =>
          .inr ⟨hmem, hne entry hmem⟩⟩
      · cases hanswer
        exact ⟨trivial, h.write hlookup hmade _ (List.forall_mem_cons.mpr
          ⟨.inl rfl, fun entry hmem => .inr ⟨hmem, hne entry hmem⟩⟩)⟩
  | check path =>
      simp only [answer] at hanswer
      split_ifs at hanswer with hbinary hvalid
      · cases hanswer
        exact ⟨trivial, hsame⟩
      · cases hanswer
        refine ⟨fun text hmem => ?_, hsame⟩
        rw [(h.full _ _ hlookup path text hmem).2] at hvalid
        simpa using (Bool.and_eq_true _ _ ▸ hvalid).2
      · cases hanswer
        exact ⟨trivial, hsame⟩
  | rename source target =>
      obtain ⟨howns, -, text, hmem, hpublished⟩ := hpermits
      simp only [answer, (h.full _ _ hlookup source text hmem).2] at hanswer
      split at hanswer
      · cases hanswer
        exact ⟨trivial, hsame⟩
      · cases hanswer
        exact ⟨trivial, (h.erase hlookup howns _).publish
          (not_temporary_of_published hjobs hpublished) hpublished⟩
  | unlink path =>
      simp only [answer] at hanswer
      split at hanswer
      · cases hanswer
        exact ⟨trivial, h.same hlookup _⟩
      · split_ifs at hanswer
        · cases hanswer
          exact ⟨trivial, h.erase hlookup hpermits account.renames⟩
        · cases hanswer
          exact ⟨trivial, h.same hlookup _⟩

/-- A new run has nothing yet. -/
theorem Inv.spawn (h : Inv jobs valid initial s accounts) (i : ν)
    (hnew : accounts.lookup thread = none) :
    Inv jobs valid initial s (accounts.insert thread { index := i }) := by
  have hcases : ∀ {t a},
      (accounts.insert thread { index := i }).lookup t = some a →
        accounts.lookup t = some a ∨ a = { index := i } := by
    intro t a ha
    by_cases ht : t = thread
    · subst ht
      rw [AList.lookup_insert] at ha
      exact .inr (Option.some.inj ha).symm
    · rw [AList.lookup_insert_ne ht] at ha
      exact .inl ha
  refine { h with issued := ?_, apart := ?_, full := ?_, made := ?_
                  temporaries := ?_ }
  · intro t a ha
    rcases hcases ha with ha | rfl
    · exact h.issued t a ha
    · exact List.forall_mem_nil _
  · intro t t' a a' ha ha' hne
    rcases hcases ha with ha | rfl
    · rcases hcases ha' with ha' | rfl
      · exact h.apart t t' a a' ha ha' hne
      · exact fun _ _ => List.not_mem_nil
    · exact List.forall_mem_nil _
  · intro t a ha
    rcases hcases ha with ha | rfl
    · exact h.full t a ha
    · exact nofun
  · intro t a ha
    rcases hcases ha with ha | rfl
    · exact h.made t a ha
    · exact List.forall_mem_nil _
  · intro path htemporary hfound
    refine (h.temporaries path htemporary hfound).imp_right ?_
    rintro ⟨t, a, ha, hmem⟩
    have ht : t ≠ thread := by
      rintro rfl
      rw [hnew] at ha
      cases ha
    exact ⟨t, a, by rwa [AList.lookup_insert_ne ht], hmem⟩

theorem keeps (hjobs : Targets jobs) (initial : AssocMap Str Str) :
    (component jobs valid).Keeps (discipline jobs valid)
      (fun i => { index := i }) (Rest jobs)
      fun s _ accounts => Inv jobs valid initial s accounts where
  fresh := fun _ => ⟨fun _ => rfl, nofun⟩
  body := fun _ account run hrest => obeys_body account run hrest
  spawn := fun i h hnew => h.spawn i hnew
  turn := fun h hlookup hpermits hanswer =>
    h.turn hjobs hlookup hpermits hanswer

theorem accounted_after (hjobs : Targets jobs) (initial : AssocMap Str Str)
    (moves : List (Move Outside ν Unit)) :
    ∃ accounts, Component.Accounted (discipline jobs valid)
        (fun i => { index := i }) (Rest jobs)
        (after jobs valid initial moves) accounts ∧
      Inv jobs valid initial (after jobs valid initial moves).object
        accounts := by
  refine (keeps hjobs initial).run _ ⟨∅, Component.accounted_empty _, ?_⟩ moves
  have hnone : ∀ thread (account : Account ν),
      (∅ : AssocMap ℕ (Account ν)).lookup thread ≠ some account := nofun
  exact ⟨fun t a ha => absurd ha (hnone t a),
    fun t _ a _ ha => absurd ha (hnone t a),
    fun t a ha => absurd ha (hnone t a), fun t a ha => absurd ha (hnone t a),
    fun _ _ hfound => .inl hfound, fun _ _ => .inl rfl⟩

/-- However the runs interleave, whatever fails, and wherever one is killed, a
target holds what it held at first, or all of what one run publishes there: its
configuration, and that only if the check passed where it was asked for, or its
identity. -/
theorem target_settled {ν : Type} (jobs : ν → Job) (hjobs : Targets jobs)
    (valid : Str → Bool) (initial : AssocMap Str Str)
    (moves : List (Move Outside ν Unit)) (path : Str)
    (hpath : ¬Temporary path) :
    Settled jobs valid initial path
      ((after jobs valid initial moves).object.content.lookup path) := by
  obtain ⟨accounts, -, hinv⟩ := accounted_after hjobs initial moves
  exact hinv.targets path hpath

/-- A run that writes an identity too, and checks what it writes. -/
def checkedJob : Job where
  out := "h.yaml".toList
  identityOut := some "h.json".toList
  yaml := "version: 1".toList
  identity := "id".toList
  check := true
  bin := "harmost".toList
  pid := 1

theorem targets_checkedJob : Targets fun _ : Unit => checkedJob := by
  refine fun _ => ⟨not_temporary_of_length
    (by decide : checkedJob.out.length < 43), ?_⟩
  rintro target ⟨⟩
  exact not_temporary_of_length (by decide)

/-- A run that is given all that it asks for, up to the last rename. -/
def hindered : List (Move Outside Unit Unit) :=
  let outside (c : Char) : Outside :=
    { uuid := ⟨List.replicate 36 c, List.length_replicate⟩ }
  .spawn 0 () :: .call 0 () :: .turn 0 (outside '0') ::
    (List.replicate 7 (.turn 0 (outside '1')) ++
      [.turn 0 { outside '1' with fault := some "EIO".toList },
        .turn 0 (outside '1'), .turn 0 (outside '1')])

/-- The identity is new, and the configuration is what it was. -/
theorem target_settled_hindered :
    (after (fun _ : Unit => checkedJob) (fun _ => true)
        (AList.singleton "h.yaml".toList []) hindered).object.content.lookup
          "h.json".toList = some checkedJob.identity ∧
      ∀ path ∈ ["h.yaml".toList, "h.json".toList],
        Settled (fun _ : Unit => checkedJob) (fun _ => true)
          (AList.singleton "h.yaml".toList []) path
          ((after (fun _ : Unit => checkedJob) (fun _ => true)
            (AList.singleton "h.yaml".toList [])
              hindered).object.content.lookup path) := by
  refine ⟨by decide +kernel, fun path hpath => ?_⟩
  have hlength : path.length < 43 := by
    revert path
    decide
  exact target_settled (fun _ : Unit => checkedJob) targets_checkedJob
    (fun _ => true) (AList.singleton "h.yaml".toList []) hindered path
    (not_temporary_of_length hlength)

/-! ## How a run ends -/

/-- What was replaced in a history, the latest first. -/
def renamed (history : List (Sigma Reply)) : List Str :=
  history.filterMap fun entry =>
    match entry with
    | ⟨.rename _ target, .ok _⟩ => some target
    | _ => none

/-- The notes of a run agree with what it did. -/
structure Noted (jobs : ν → Job) (i : ν) (history : List (Sigma Reply))
    (account : Account ν) : Prop where
  index : account.index = i
  renames : renamed history = account.renames
  order : account.renames <:+ (jobs i).out :: (jobs i).identityOut.toList
  created : ∀ path, ⟨.create path, .ok ()⟩ ∈ history → account.Owns path
  stuck : ∀ path ∈ account.stuck, ∃ e, ⟨.unlink path, .error e⟩ ∈ history

theorem Noted.cons {i : ν} {history : List (Sigma Reply)}
    {entry : Sigma Reply} (h : Noted jobs i history account)
    (hindex : account'.index = account.index)
    (huuids : account.uuids ⊆ account'.uuids)
    (hrenames : renamed (entry :: history) = account'.renames)
    (horder : account'.renames <:+
      (jobs i).out :: (jobs i).identityOut.toList)
    (hcreated : ∀ path, entry = ⟨.create path, .ok ()⟩ → account'.Owns path)
    (hstuck : ∀ path ∈ account'.stuck, path ∈ account.stuck ∨
      ∃ e, entry = ⟨.unlink path, .error e⟩) :
    Noted jobs i (entry :: history) account' where
  index := hindex.trans h.index
  renames := hrenames
  order := horder
  created := by
    intro path hmem
    rcases List.mem_cons.mp hmem with heq | hmem
    · exact hcreated path heq.symm
    · exact (h.created path hmem).mono huuids
  stuck := by
    intro path hmem
    rcases hstuck path hmem with hold | ⟨e, rfl⟩
    · obtain ⟨e, he⟩ := h.stuck path hold
      exact ⟨e, List.mem_cons_of_mem _ he⟩
    · exact ⟨e, List.mem_cons_self⟩

theorem noted_of_trace {i : ν} {history : List (Sigma Reply)}
    (h : (discipline jobs valid).Trace { index := i } history account) :
    Noted jobs i history account := by
  induction h with
  | nil =>
      exact ⟨rfl, rfl, List.nil_suffix, fun _ hmem =>
        absurd hmem List.not_mem_nil, List.forall_mem_nil _⟩
  | @cons history account query h hpermits reply hexpects ih =>
      have hsame := List.Subset.refl account.uuids
      have hold : ∀ path ∈ account.stuck, path ∈ account.stuck ∨
          ∃ e, (⟨query, reply⟩ : Sigma Reply) = ⟨.unlink path, .error e⟩ :=
        fun _ hmem => .inl hmem
      cases query with
      | uuid =>
          exact ih.cons rfl (List.subset_cons_self _ _) ih.renames ih.order
            nofun hold
      | create path =>
          cases reply with
          | ok =>
              refine ih.cons rfl hsame ih.renames ih.order ?_ hold
              rintro _ ⟨⟩
              exact hpermits
          | error e => exact ih.cons rfl hsame ih.renames ih.order nofun hold
      | write | check =>
          cases reply with
          | ok | error => exact ih.cons rfl hsame ih.renames ih.order nofun hold
      | rename source target =>
          cases reply with
          | ok =>
              refine ih.cons rfl hsame (congrArg (target :: ·) ih.renames) ?_
                nofun hold
              exact ih.index ▸ hpermits.2.1
          | error e => exact ih.cons rfl hsame ih.renames ih.order nofun hold
      | unlink path =>
          cases reply with
          | ok => exact ih.cons rfl hsame ih.renames ih.order nofun hold
          | error e =>
              refine ih.cons rfl hsame ih.renames ih.order nofun ?_
              exact List.forall_mem_cons.mpr ⟨.inr ⟨e, rfl⟩, fun _ hmem =>
                .inl hmem⟩

/-- A run never replaces the configuration before the identity.  It reports
success exactly if it has replaced both; if it reports a failure, the
configuration is not among what it replaced.  A file that it made is still
there only if removing it failed. -/
theorem run_ended {ν : Type} (jobs : ν → Job) (hjobs : Targets jobs)
    (valid : Str → Bool) (initial : AssocMap Str Str)
    (moves : List (Move Outside ν Unit)) (thread : ℕ)
    (program : Prog Reply (ν × Option (Except Str Unit)))
    (hthread : (after jobs valid initial moves).threads.lookup thread =
      some program) :
    let w := after jobs valid initial moves
    (∃ i, renamed (w.own thread) <:+
      (jobs i).out :: (jobs i).identityOut.toList) ∧
    ∀ i result, program = .done (i, some result) →
      (result = .ok () ↔ renamed (w.own thread) =
        (jobs i).out :: (jobs i).identityOut.toList) ∧
      (∀ e, result = .error e → renamed (w.own thread) = [] ∨
        renamed (w.own thread) = (jobs i).identityOut.toList) ∧
      ∀ path, ⟨.create path, .ok ()⟩ ∈ w.own thread →
        initial.lookup path = none → w.object.content.lookup path ≠ none →
          ∃ e, ⟨.unlink path, .error e⟩ ∈ w.own thread := by
  intro w
  obtain ⟨accounts, haccounts, hinv⟩ := accounted_after hjobs initial moves
  obtain ⟨account, hlookup, hobeys, j, htrace⟩ :=
    haccounts.exists_account hthread
  have hnoted := noted_of_trace htrace
  refine ⟨⟨j, hnoted.renames ▸ hnoted.order⟩, ?_⟩
  rintro i result rfl
  obtain ⟨hstuck, paths, hworking, hok, herror⟩ := hobeys.2 result rfl
  rw [← hnoted.renames] at hok herror
  refine ⟨⟨fun heq => (hok heq).2, fun hboth => ?_⟩, herror, ?_⟩
  · cases result with
    | ok => rfl
    | error e =>
        -- What a failed run has replaced is one short of both.
        rcases herror e rfl with hnone | hidentity
        · rw [hboth] at hnone
          exact absurd hnone (List.cons_ne_nil _ _)
        · rw [hboth] at hidentity
          exact absurd hidentity (List.cons_ne_self _ _)
  · intro path hcreated hinitial hthere
    have hleft := hinv.left hlookup (hnoted.created path hcreated) hthere
    exact hnoted.stuck path
      (hstuck (hleft.resolve_left fun hne => hne hinitial))

/-- A run whose last rename failed has replaced the identity only. -/
theorem run_ended_hindered :
    let w := after (fun _ : Unit => checkedJob) (fun _ => true) ∅ hindered
    w.threads.lookup 0 = some (.done ((), some (.error "EIO".toList))) ∧
      renamed (w.own 0) = ["h.json".toList] ∧
      (renamed (w.own 0) = [] ∨
        renamed (w.own 0) = checkedJob.identityOut.toList) := by
  intro w
  have hthread : w.threads.lookup 0 =
      some (.done ((), some (.error "EIO".toList))) := by rfl
  exact ⟨hthread, by rfl, ((run_ended (fun _ : Unit => checkedJob)
    targets_checkedJob (fun _ => true) ∅ hindered 0 _ hthread).2 () _ rfl).2.1
      "EIO".toList rfl⟩

end Runs

end Harmost.Next.ToFile
