import Harmost.Upstream.Gate.Order

/-!
# The breaker of the order follows every access

Stage by stage, an access that may come next is nothing to the breaker of the
order, or it is the moment at which a call takes effect.  A thread without the
lock changes the deadline of a closed breaker only; all else happens under the
lock.
-/

namespace Harmost.Upstream

open Harmost.Support

namespace Gate

open Breaker (Call Transition)

variable {breaker : Breaker} {s s' : Gate} {b b' : Breaker}
  {stage stage' : Stage} {account account' : Account}
  {effect learned : Option Answered} {query : Access} {reply : Reply query}
  {results : List Answered} {outside : ℕ × ℕ} {nowMs : ℕ}
  {token : ProbeToken} {ok : Bool} {allowance : BreakerAllowance}

/-- What the deadline says is what the breaker answers. -/
theorem allowance_of_verdict (henabled : b.enabled = true)
    (hverdict : verdict nowMs b.openUntilMs = some allowance) :
    b.allowance nowMs = (allowance, b) ∧
      b.granted (.allowance nowMs) = none := by
  unfold verdict at hverdict
  split_ifs at hverdict with hclosed hearly
  · cases hverdict
    simp [Breaker.allowance, Breaker.granted, henabled, hclosed]
  · cases hverdict
    simp [Breaker.allowance, Breaker.granted, henabled, hclosed, hearly]

theorem explained_of_verdict (henabled : b.enabled = true)
    (hverdict : verdict nowMs b.openUntilMs = some allowance) :
    Explained b b (some (.allowance nowMs, some allowance)) := by
  obtain ⟨hallowance, hgranted⟩ := allowance_of_verdict henabled hverdict
  refine ⟨?_, .idle hgranted (by simp [Call.reported])⟩
  rw [answerTo, hallowance]

theorem expired_of_verdict {deadline : ℕ}
    (hverdict : verdict nowMs deadline = none) :
    deadline ≠ 0 ∧ deadline ≤ nowMs := by
  unfold verdict at hverdict
  split_ifs at hverdict with hclosed hearly
  exact ⟨hclosed, not_lt.mp hearly⟩

/-- The record of an outcome may be without effect. -/
theorem explained_record : Explained b b (some (.record nowMs ok, none)) :=
  ⟨rfl, .idle rfl (by simp [Call.reported])⟩

theorem explained_off (henabled : b.enabled = false) (call : Call) :
    Explained b b (some (call, offAnswer call)) := by
  have hgranted : b.granted call = none := by
    cases call <;> simp [Breaker.granted, Breaker.allowance, henabled]
  refine ⟨?_, .idle hgranted fun h => absurd h (by simp [henabled])⟩
  cases call <;> simp [offAnswer, answerTo, Breaker.allowance, henabled]

/-- An access that changes nothing. -/
theorem Sound.of_unchanged (hexplained : Explained b b effect)
    (hview : View breaker s b account'.stage)
    (htold : Gate.told s account' = effect.toList ++ Gate.told s account)
    (hholds : account'.stage.holds = account.stage.holds)
    (hdraws : Gate.draws query = 0)
    (hpending : account.stage.pending = account'.stage.pending) :
    Sound breaker s b account account' effect query s b where
  explained := hexplained
  view := hview
  told := htold
  frame := fun _ => ⟨rfl, rfl, rfl, rfl, fun _ => rfl, id⟩
  acquires := fun h => .inl (hholds ▸ h)
  draws := by rw [hdraws, zero_add]
  trips := by rw [hpending]

/-- The breaker of the order can follow an access. -/
def Follows (breaker : Breaker) (s : Gate) (b : Breaker)
    (results : List Answered) (stage : Stage) (query : Access)
    (reply : Reply query) (s' : Gate) : Prop :=
  ∃ b', Sound breaker s b ⟨results, stage⟩
    (Account.next breaker ⟨results, stage⟩ query reply)
    (point breaker s.nextProbe stage query reply) query s' b'

/-- It can follow every access that may come next. -/
def FollowsEach (breaker : Breaker) (s : Gate) (b : Breaker)
    (results : List Answered) (stage : Stage) : Prop :=
  ∀ ⦃query : Access⦄ ⦃reply : Reply query⦄ ⦃outside : ℕ × ℕ⦄ ⦃s' : Gate⦄,
    Permits breaker stage query → answer s query outside = some (reply, s') →
      Follows breaker s b results stage query reply s'

theorem Follows.of_go
    (hgo : go breaker stage query reply = (stage', learned))
    (hpoint : point breaker s.nextProbe stage query reply = effect)
    (hsound : Sound breaker s b ⟨results, stage⟩
      ⟨learned.toList ++ results, stage'⟩ effect query s' b') :
    Follows breaker s b results stage query reply s' := by
  refine ⟨b', ?_⟩
  rwa [hpoint, Account.next, hgo]

/-- A thread without the lock. -/
theorem View.without (h : View breaker s b stage)
    (hholds : stage'.holds = false)
    (hon : stage' ≠ .settled → breaker.enabled = true) :
    View breaker s b stage' :=
  { h with
    facts := facts_of_not_holds hholds
    locked := fun h => absurd h (by simp [hholds])
    on := hon }

/-- A thread with the lock. -/
theorem View.withLock (h : View breaker s b stage)
    (hon : breaker.enabled = true)
    (henabled : b'.enabled = b.enabled) (hopenFor : b'.openForMs = b.openForMs)
    (huntil : b'.openUntilMs = s'.openUntilMs) (hlocked : s'.locked = true)
    (hfacts : Facts s' b' stage') : View breaker s' b' stage' where
  enabled := henabled.trans h.enabled
  openForMs := hopenFor.trans h.openForMs
  openUntilMs := huntil
  quiet := fun hfree => absurd hfree (by simp [hlocked])
  facts := hfacts
  locked := fun _ => hlocked
  on := fun _ => hon

theorem View.deadline_eq (h : View breaker s b stage) (nowMs : ℕ) :
    b.deadline nowMs = breaker.deadline nowMs := by
  rw [Breaker.deadline, Breaker.deadline, h.openForMs]

theorem follows_settled (h : View breaker s b .settled) :
    FollowsEach breaker s b results .settled := by
  intro query reply outside s' hpermits hanswer
  cases query with
  | invoke call =>
      cases hanswer
      cases henabled : breaker.enabled with
      | true =>
          have hgo : go breaker .settled (.invoke call) () =
              (.invoked call, none) := by
            simp [go, henabled]
          exact .of_go hgo (congrArg Prod.snd hgo) (.of_unchanged rfl
            (h.without rfl fun _ => henabled) rfl rfl rfl rfl)
      | false =>
          have hgo : go breaker .settled (.invoke call) () =
              (.settled, some (call, offAnswer call)) := by
            simp [go, henabled]
          exact .of_go hgo (congrArg Prod.snd hgo) (.of_unchanged
            (explained_off (h.enabled.trans henabled) call) h rfl rfl rfl rfl)
  | windowRecord | windowReset =>
      cases hanswer
      exact ⟨b, .of_unchanged rfl h rfl rfl rfl rfl⟩
  | _ => exact hpermits.elim

/-- The lock is taken, and the breakers agree. -/
theorem follows_lock {call : Call} (h : View breaker s b stage)
    (hon : breaker.enabled = true)
    (hpending : stage.pending = 0)
    (hgo : go breaker stage .lock () = (.locked call, none))
    (hpoint : point breaker s.nextProbe stage .lock () = none)
    (htold : told s ⟨results, stage⟩ = results) {reply : Unit}
    (hanswer : answer s .lock outside = some (reply, s')) :
    Follows breaker s b results stage .lock () s' := by
  obtain ⟨hfree, rfl⟩ := answer_lock_eq_some hanswer
  have hsound : Sound breaker s b ⟨results, stage⟩ ⟨results, .locked call⟩
      none .lock { s with locked := true } b :=
    { explained := rfl
      view := h.withLock hon rfl rfl h.openUntilMs rfl (h.quiet hfree)
      told := htold.symm
      frame := fun _ => ⟨rfl, rfl, rfl, rfl, fun _ => rfl, fun _ => rfl⟩
      acquires := fun _ => .inr hfree
      draws := Nat.zero_add _
      trips := by rw [hpending]; rfl }
  exact .of_go hgo hpoint hsound

theorem follows_invoked {call : Call} (h : View breaker s b (.invoked call)) :
    FollowsEach breaker s b results (.invoked call) := by
  intro query reply outside s' hpermits hanswer
  have hon : breaker.enabled = true := h.on Stage.noConfusion
  cases call with
  | allowance nowMs =>
      cases query with
      | loadUntil =>
          cases hanswer
          cases hverdict : verdict nowMs s.openUntilMs with
          | some allowance =>
              have hgo : go breaker (.invoked (.allowance nowMs)) .loadUntil
                  s.openUntilMs =
                    (.settled, some (.allowance nowMs, some allowance)) := by
                simp [go, hverdict]
              refine .of_go hgo (congrArg Prod.snd hgo) (.of_unchanged ?_
                (h.without rfl fun h => absurd rfl h) rfl rfl rfl rfl)
              refine explained_of_verdict (h.enabled.trans hon) ?_
              rw [h.openUntilMs, hverdict]
          | none =>
              have hgo : go breaker (.invoked (.allowance nowMs)) .loadUntil
                  s.openUntilMs = (.due nowMs, none) := by
                simp [go, hverdict]
              exact .of_go hgo (congrArg Prod.snd hgo) (.of_unchanged rfl
                (h.without rfl fun _ => hon) rfl rfl rfl rfl)
      | _ => exact hpermits.elim
  | record nowMs ok =>
      cases query with
      | loadUntil =>
          cases hanswer
          by_cases hwatch : s.openUntilMs = 0 ∧ ok = false
          · have hgo : go breaker (.invoked (.record nowMs ok)) .loadUntil
                s.openUntilMs = (.watching nowMs, none) := by
              simp [go, hwatch]
            exact .of_go hgo (congrArg Prod.snd hgo) (.of_unchanged rfl
              (h.without rfl fun _ => hon) rfl rfl rfl rfl)
          · have hgo : go breaker (.invoked (.record nowMs ok)) .loadUntil
                s.openUntilMs =
                  (.settled, some (.record nowMs ok, none)) := by
              simp only [go, hwatch, if_false]
            exact .of_go hgo (congrArg Prod.snd hgo) (.of_unchanged
              explained_record (h.without rfl fun h => absurd rfl h)
              rfl rfl rfl rfl)
      | _ => exact hpermits.elim
  | recordProbe nowMs token ok =>
      cases query with
      | lock => exact follows_lock h hon rfl rfl rfl rfl hanswer
      | _ => exact hpermits.elim

theorem follows_due (h : View breaker s b (.due nowMs)) :
    FollowsEach breaker s b results (.due nowMs) := by
  intro query reply outside s' hpermits hanswer
  cases query with
  | lock =>
      exact follows_lock h (h.on Stage.noConfusion) rfl rfl rfl rfl hanswer
  | _ => exact hpermits.elim

theorem follows_watching (h : View breaker s b (.watching nowMs)) :
    FollowsEach breaker s b results (.watching nowMs) := by
  intro query reply outside s' hpermits hanswer
  cases query with
  | windowRecord nowMs failed =>
      cases hanswer
      exact ⟨b, .of_unchanged rfl h rfl rfl rfl rfl⟩
  | windowTotals asked =>
      cases hanswer
      cases hover : overThreshold breaker outside with
      | true =>
          have hgo : go breaker (.watching nowMs) (.windowTotals asked)
              outside = (.tripping nowMs, none) := by
            simp [go, hover]
          exact .of_go hgo (congrArg Prod.snd hgo) (.of_unchanged rfl
            (h.without rfl fun _ => h.on Stage.noConfusion) rfl rfl rfl rfl)
      | false =>
          have hgo : go breaker (.watching nowMs) (.windowTotals asked)
              outside = (.settled, some (.record nowMs false, none)) := by
            simp [go, hover]
          exact .of_go hgo (congrArg Prod.snd hgo) (.of_unchanged
            explained_record (h.without rfl fun h => absurd rfl h)
            rfl rfl rfl rfl)
  | _ => exact hpermits.elim

/-- The swap succeeds on a closed breaker only, and then it is a trip. -/
theorem follows_tripping (h : View breaker s b (.tripping nowMs)) :
    FollowsEach breaker s b results (.tripping nowMs) := by
  intro query reply outside s' hpermits hanswer
  cases query with
  | openUntil deadline =>
      obtain rfl : deadline = breaker.deadline nowMs := hpermits
      obtain ⟨hclosed, rfl, rfl⟩ | ⟨rfl, rfl⟩ :=
        answer_openUntil_eq_some hanswer
      · let b' : Breaker :=
          { b with
            openUntilMs := b.deadline nowMs
            trips := b.trips + 1 }
        have hgo : go breaker (.tripping nowMs)
            (.openUntil (breaker.deadline nowMs)) true =
              (.tripped, some (.record nowMs false, none)) := rfl
        have hsound : Sound breaker s b ⟨results, .tripping nowMs⟩
            ⟨(.record nowMs false, none) :: results, .tripped⟩
            (some (.record nowMs false, none))
            (.openUntil (breaker.deadline nowMs))
            { s with openUntilMs := breaker.deadline nowMs } b' :=
          { explained := ⟨rfl, .trip (h.openUntilMs.trans hclosed) b.window⟩
            view :=
              { h with
                openUntilMs := h.deadline_eq nowMs
                facts := trivial
                locked := nofun
                on := fun _ => h.on Stage.noConfusion }
            told := rfl
            frame := fun _ =>
              ⟨rfl, rfl, rfl, rfl, fun hopen => absurd hclosed hopen, id⟩
            acquires := nofun
            draws := Nat.zero_add _
            trips := by simp only [b', Stage.pending]; omega }
        exact .of_go hgo rfl hsound
      · have hgo : go breaker (.tripping nowMs)
            (.openUntil (breaker.deadline nowMs)) false =
              (.settled, some (.record nowMs false, none)) := rfl
        exact .of_go hgo rfl (.of_unchanged explained_record
          (h.without rfl fun h => absurd rfl h) rfl rfl rfl rfl)
  | _ => exact hpermits.elim

theorem follows_tripped (h : View breaker s b .tripped) :
    FollowsEach breaker s b results .tripped := by
  intro query reply outside s' hpermits hanswer
  cases query with
  | trip =>
      cases hanswer
      have hsound : Sound breaker s b ⟨results, .tripped⟩ ⟨results, .settled⟩
          none .trip { s with trips := s.trips + 1 } b :=
        { explained := rfl
          view :=
            { h with
              facts := trivial
              locked := nofun
              on := fun h => absurd rfl h }
          told := rfl
          frame := fun _ => ⟨rfl, rfl, rfl, rfl, fun _ => rfl, id⟩
          acquires := nofun
          draws := Nat.zero_add _
          trips := by simp only [Stage.pending]; omega }
      exact .of_go rfl rfl hsound
  | _ => exact hpermits.elim

/-- An access of a thread with the lock. -/
theorem Sound.of_holds (hholds : account.stage.holds = true)
    (hexplained : Explained b b' effect)
    (hview : View breaker s' b' account'.stage)
    (htold : Gate.told s' account' = effect.toList ++ Gate.told s account)
    (hdraws : Gate.draws query + s.nextProbe = s'.nextProbe)
    (htrips : b'.trips + s.trips + account.stage.pending =
      b.trips + s'.trips + account'.stage.pending) :
    Sound breaker s b account account' effect query s' b' where
  explained := hexplained
  view := hview
  told := htold
  frame := fun h => absurd (hholds.symm.trans h) Bool.noConfusion
  acquires := fun _ => .inl hholds
  draws := hdraws
  trips := htrips

theorem follows_locked {call : Call} (h : View breaker s b (.locked call)) :
    FollowsEach breaker s b results (.locked call) := by
  intro query reply outside s' hpermits hanswer
  have hon : breaker.enabled = true := h.on Stage.noConfusion
  have hlocked : s.locked = true := h.locked rfl
  have hagree : Agree s b := h.facts
  cases call with
  | allowance nowMs =>
      cases query with
      | loadUntil =>
          cases hanswer
          cases hverdict : verdict nowMs s.openUntilMs with
          | some allowance =>
              have hgo : go breaker (.locked (.allowance nowMs)) .loadUntil
                  s.openUntilMs =
                    (.releasing, some (.allowance nowMs, some allowance)) := by
                simp [go, hverdict]
              refine .of_go hgo (congrArg Prod.snd hgo) (.of_unchanged ?_
                (h.withLock hon rfl rfl h.openUntilMs hlocked hagree)
                rfl rfl rfl rfl)
              refine explained_of_verdict (h.enabled.trans hon) ?_
              rw [h.openUntilMs, hverdict]
          | none =>
              have hgo : go breaker (.locked (.allowance nowMs)) .loadUntil
                  s.openUntilMs = (.expired nowMs, none) := by
                simp [go, hverdict]
              exact .of_go hgo (congrArg Prod.snd hgo) (.of_unchanged rfl
                (h.withLock hon rfl rfl h.openUntilMs hlocked
                  ⟨hagree, expired_of_verdict hverdict⟩) rfl rfl rfl rfl)
      | _ => exact hpermits.elim
  | record nowMs ok => cases query <;> exact hpermits.elim
  | recordProbe nowMs token ok =>
      cases query with
      | loadActive =>
          cases hanswer
          by_cases hmatch : s.activeProbe = token.value
          · have hgo : go breaker (.locked (.recordProbe nowMs token ok))
                .loadActive s.activeProbe =
                  (.matched nowMs token ok, none) := by
              simp [go, hmatch]
            exact .of_go hgo (congrArg Prod.snd hgo) (.of_unchanged rfl
              (h.withLock hon rfl rfl h.openUntilMs hlocked ⟨hagree, hmatch⟩)
              rfl rfl rfl rfl)
          · have hgo : go breaker (.locked (.recordProbe nowMs token ok))
                .loadActive s.activeProbe =
                  (.releasing, some (.recordProbe nowMs token ok, none)) := by
              simp [go, hmatch]
            have hidle : Transition b (.recordProbe nowMs token ok) b := by
              refine .idle rfl fun _ => ?_
              simpa [Call.reported, hagree.2] using hmatch
            exact .of_go hgo (congrArg Prod.snd hgo) (.of_unchanged
              ⟨rfl, hidle⟩
              (h.withLock hon rfl rfl h.openUntilMs hlocked hagree)
              rfl rfl rfl rfl)
      | _ => exact hpermits.elim

/-- With the new deadline the probe is granted, and its token is the next to
be drawn. -/
theorem follows_expired (h : View breaker s b (.expired nowMs)) :
    FollowsEach breaker s b results (.expired nowMs) := by
  intro query reply outside s' hpermits hanswer
  cases query with
  | storeUntil deadline =>
      obtain rfl : deadline = breaker.deadline nowMs := hpermits
      cases hanswer
      obtain ⟨⟨hnext, -⟩, hopen, hdue⟩ := h.facts
      have henabled : b.enabled = true :=
        h.enabled.trans (h.on Stage.noConfusion)
      rw [← h.openUntilMs] at hopen hdue
      have hgrants : (b.allowance nowMs).1 = .probe ⟨b.nextProbe + 1⟩ := by
        simp [Breaker.allowance, henabled, hopen, not_lt.mpr hdue]
      have hexplained : Explained b
          { b with
            openUntilMs := b.deadline nowMs
            nextProbe := b.nextProbe + 1
            activeProbe := b.nextProbe + 1 }
          (some (.allowance nowMs, some (.probe ⟨s.nextProbe + 1⟩))) := by
        refine ⟨?_, .probe hopen hdue ?_⟩
        · rw [answerTo, hgrants, hnext]
        · simp only [Breaker.granted, hgrants]
      refine .of_go rfl rfl (.of_holds rfl hexplained ?_ rfl
        (Nat.zero_add _) rfl)
      exact h.withLock (h.on Stage.noConfusion) rfl rfl (h.deadline_eq nowMs)
        (h.locked rfl) ⟨congrArg (· + 1) hnext, congrArg (· + 1) hnext⟩
  | _ => exact hpermits.elim

theorem follows_claimed (h : View breaker s b (.claimed nowMs)) :
    FollowsEach breaker s b results (.claimed nowMs) := by
  intro query reply outside s' hpermits hanswer
  cases query with
  | nextProbe =>
      cases hanswer
      refine .of_go rfl rfl (.of_holds rfl (rfl : Explained b b none) ?_ rfl
        (Nat.add_comm _ _) rfl)
      exact h.withLock (h.on Stage.noConfusion) rfl rfl h.openUntilMs
        (h.locked rfl) ⟨rfl, h.facts⟩
  | _ => exact hpermits.elim

theorem follows_drawn {probe : ℕ} (h : View breaker s b (.drawn probe)) :
    FollowsEach breaker s b results (.drawn probe) := by
  intro query reply outside s' hpermits hanswer
  cases query with
  | storeActive value =>
      obtain rfl : value = probe + 1 := hpermits
      cases hanswer
      obtain ⟨hnext, hnext', hactive'⟩ := h.facts
      refine .of_go rfl rfl (.of_holds rfl (rfl : Explained b b none) ?_ rfl
        (Nat.zero_add _) rfl)
      exact h.withLock (h.on Stage.noConfusion) rfl rfl h.openUntilMs
        (h.locked rfl) ⟨hnext'.trans hnext.symm, hactive'⟩
  | _ => exact hpermits.elim

theorem follows_matched (h : View breaker s b (.matched nowMs token ok)) :
    FollowsEach breaker s b results (.matched nowMs token ok) := by
  intro query reply outside s' hpermits hanswer
  cases query with
  | storeActive value =>
      obtain rfl : value = 0 := hpermits
      cases hanswer
      obtain ⟨⟨hnext, hactive⟩, hmatch⟩ := h.facts
      refine .of_go rfl rfl (.of_holds rfl (rfl : Explained b b none) ?_ rfl
        (Nat.zero_add _) rfl)
      exact h.withLock (h.on Stage.noConfusion) rfl rfl h.openUntilMs
        (h.locked rfl) ⟨hnext, hactive.trans hmatch, rfl⟩
  | _ => exact hpermits.elim

/-- With its deadline the report of the current probe takes effect. -/
theorem exists_explained_report
    (hactive : b.activeProbe = token.value) (nowMs : ℕ) (ok : Bool) :
    ∃ window, Explained b
      { b with
        openUntilMs := if ok then 0 else b.deadline nowMs
        activeProbe := 0
        window }
      (some (.recordProbe nowMs token ok, none)) := by
  cases ok with
  | true => exact ⟨b.window.reset, rfl, .recover hactive⟩
  | false => exact ⟨b.window, rfl, .rearm hactive⟩

theorem follows_cleared (h : View breaker s b (.cleared nowMs token ok)) :
    FollowsEach breaker s b results (.cleared nowMs token ok) := by
  intro query reply outside s' hpermits hanswer
  cases query with
  | windowReset =>
      cases hanswer
      exact ⟨b, .of_unchanged rfl h rfl rfl rfl rfl⟩
  | storeUntil deadline =>
      cases hanswer
      obtain ⟨hnext, hactive, hcleared⟩ := h.facts
      obtain ⟨window, hexplained⟩ := exists_explained_report hactive nowMs ok
      refine .of_go rfl rfl (.of_holds rfl hexplained ?_ rfl
        (Nat.zero_add _) rfl)
      refine h.withLock (h.on Stage.noConfusion) rfl rfl ?_ (h.locked rfl)
        ⟨hnext, hcleared.symm⟩
      rw [h.deadline_eq nowMs]
      exact hpermits.symm
  | _ => exact hpermits.elim

theorem follows_releasing (h : View breaker s b .releasing) :
    FollowsEach breaker s b results .releasing := by
  intro query reply outside s' hpermits hanswer
  cases query with
  | unlock =>
      cases hanswer
      refine .of_go rfl rfl (.of_holds rfl (rfl : Explained b b none) ?_ rfl
        (Nat.zero_add _) rfl)
      exact
        { h with
          quiet := fun _ => h.facts
          facts := trivial
          locked := nofun
          on := fun h => absurd rfl h }
  | _ => exact hpermits.elim

theorem follows (h : View breaker s b stage) :
    FollowsEach breaker s b results stage := by
  cases stage with
  | settled => exact follows_settled h
  | invoked call => exact follows_invoked h
  | due nowMs => exact follows_due h
  | watching nowMs => exact follows_watching h
  | tripping nowMs => exact follows_tripping h
  | tripped => exact follows_tripped h
  | locked call => exact follows_locked h
  | expired nowMs => exact follows_expired h
  | claimed nowMs => exact follows_claimed h
  | drawn probe => exact follows_drawn h
  | «matched» nowMs token ok => exact follows_matched h
  | cleared nowMs token ok => exact follows_cleared h
  | releasing => exact follows_releasing h

end Gate

end Harmost.Upstream
