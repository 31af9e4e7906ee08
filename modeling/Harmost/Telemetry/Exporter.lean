import Harmost.Config.Settings
import Harmost.Support.Run
import Harmost.Telemetry.Collector
import Harmost.Telemetry.Otlp

/-!
# The span exporter

Requests put spans into a bounded channel without waiting, and one task takes
them out and posts them in batches.  A full channel means that a span is
dropped; so does a closed one.  At shutdown the task closes the channel and
posts what is left, until a deadline.

A span is counted when it is recorded or dropped, and again when the batch it
was in has been posted.  The counters are unbounded here.
-/

namespace Harmost.Telemetry

open Harmost.Support

/-- Where the task goes on after a flush. -/
inductive Resume where
  | select
  | drain
  | stop
  deriving DecidableEq

/-- Where the task is. -/
inductive Phase where
  | unstarted
  /-- In the `select!` of the loop. -/
  | select
  /-- In a flush, while the post goes on. -/
  | posting (resume : Resume)
  /-- At the top of the loop that drains the channel. -/
  | drain
  | stopped
  deriving DecidableEq

/-- The metric for spans, by its label. -/
structure SpanCounts where
  recorded : ℕ := 0
  dropped : ℕ := 0
  exported : ℕ := 0
  exportFailed : ℕ := 0

structure OtlpExporter where
  endpoint : Endpoint
  maxQueue : ℕ
  maxBatch : ℕ
  resource : List (Str × Str)

/-- The limits that the channel and the task are built with. -/
def build (cfg : Config.Otlp) (resource : List (Str × Str)) :
    Except Str OtlpExporter := do
  let endpoint ← parseEndpoint cfg.endpoint
  return { endpoint, maxQueue := max cfg.maxQueue 1
           maxBatch := max cfg.maxBatch 1, resource }

/-- The sinks, the channel and the task. -/
structure Pipeline where
  phase : Phase := .unstarted
  /-- Is there a sink left to record through? -/
  sinks : Bool := true
  queue : List SpanRecord := []
  closed : Bool := false
  batch : List SpanRecord := []
  dropped : ℕ := 0
  spans : SpanCounts := {}
  /-- The bodies that were posted, in order. -/
  bodies : List Str := []
  /-- The spans that were given to a sink, in order. -/
  offered : List SpanRecord := []
  /-- The spans that went into the channel. -/
  accepted : List SpanRecord := []

inductive Event where
  | record (span : SpanRecord)
  | sinksGone
  | start
  /-- A branch of the `select!`, like the next two. -/
  | received
  | tick
  | shutdown
  /-- The end of a post. -/
  | answered (result : Except Str Unit)
  /-- The end of the time for draining. -/
  | deadline

namespace Pipeline

/-- `SpanSink::record`. -/
def record (maxQueue : ℕ) (span : SpanRecord) (p : Pipeline) : Pipeline :=
  if p.closed || decide (maxQueue ≤ p.queue.length) then
    { p with
      dropped := p.dropped + 1
      spans := { p.spans with dropped := p.spans.dropped + 1 }
      offered := p.offered ++ [span] }
  else
    { p with
      queue := p.queue ++ [span]
      spans := { p.spans with recorded := p.spans.recorded + 1 }
      offered := p.offered ++ [span]
      accepted := p.accepted ++ [span] }

/-- The task returns, and the receiving half is gone. -/
def stop (p : Pipeline) : Pipeline :=
  { p with phase := .stopped, closed := true, queue := [], batch := [] }

def goOn : Resume → Pipeline → Pipeline
  | .select, p => { p with phase := .select }
  | .drain, p => { p with phase := .drain }
  | .stop, p => p.stop

/-- `flush`, up to the post. -/
def flush (version : Str) (exporter : OtlpExporter) (resume : Resume)
    (p : Pipeline) : Pipeline :=
  if p.batch.isEmpty then p.goOn resume
  else
    { p with
      phase := .posting resume
      bodies := p.bodies ++ [encode version exporter.resource p.batch] }

/-- The rest of `flush`. -/
def flushed (result : Except Str Unit) (p : Pipeline) : Pipeline :=
  match result with
  | .ok _ =>
      { p with
        spans := { p.spans with
          exported := p.spans.exported + p.batch.length }
        batch := [] }
  | .error _ =>
      { p with
        spans := { p.spans with
          exportFailed := p.spans.exportFailed + p.batch.length }
        batch := [] }

/-- `recv_many`, when there is something to receive. -/
def receive (maxBatch : ℕ) (p : Pipeline) : Pipeline :=
  { p with
    batch := p.batch ++ p.queue.take maxBatch
    queue := p.queue.drop maxBatch }

def recordShutdownDrop (count : ℕ) (p : Pipeline) : Pipeline :=
  if count = 0 then p
  else
    { p with
      dropped := p.dropped + count
      spans := { p.spans with dropped := p.spans.dropped + count } }

/-- The branch of the `select!` for the channel.  It waits while the channel is
empty and can still be filled. -/
def received (version : Str) (exporter : OtlpExporter) (p : Pipeline) :
    Pipeline :=
  if p.queue.isEmpty then
    if p.sinks then p else p.flush version exporter .stop
  else
    let p := p.receive exporter.maxBatch
    if exporter.maxBatch ≤ p.batch.length then
      p.flush version exporter .select
    else p

/-- One turn of the loop that drains. -/
def drained (version : Str) (exporter : OtlpExporter) (p : Pipeline) :
    Pipeline :=
  if p.batch.isEmpty then
    if p.queue.isEmpty then p.stop
    else (p.receive exporter.maxBatch).flush version exporter .drain
  else p.flush version exporter .drain

/-- An event that is not awaited changes nothing. -/
def step (version : Str) (exporter : OtlpExporter) (p : Pipeline) :
    Event → Pipeline
  | .record span => if p.sinks then p.record exporter.maxQueue span else p
  | .sinksGone => { p with sinks := false }
  | .start => if p.phase = .unstarted then { p with phase := .select } else p
  | .received =>
      match p.phase with
      | .select => p.received version exporter
      | .drain => p.drained version exporter
      | _ => p
  | .tick => if p.phase = .select then p.flush version exporter .select else p
  | .shutdown =>
      if p.phase = .select then { p with phase := .drain, closed := true }
      else p
  | .answered result =>
      match p.phase with
      | .posting resume => (p.flushed result).goOn resume
      | _ => p
  | .deadline =>
      if p.phase = .drain ∨ p.phase = .posting .drain then
        (p.recordShutdownDrop (p.batch.length + p.queue.length)).stop
      else p

end Pipeline

/-! ## The ledger -/

/-- What has become of the spans, when some batches were sent and some spans
are still waiting.  Unless the deadline cut it short, nothing is missing in
between. -/
structure Ledger (version : Str) (exporter : OtlpExporter) (whole : Prop)
    (sent : List (List SpanRecord)) (waiting : List SpanRecord)
    (p : Pipeline) : Prop where
  bodies : p.bodies = sent.map (encode version exporter.resource)
  sizes : ∀ batch ∈ sent, batch ≠ [] ∧ batch.length < 2 * exporter.maxBatch
  order : sent.flatten ++ waiting <+: p.accepted
  complete : whole ∨ p.closed = false →
    sent.flatten ++ waiting = p.accepted ∧
      p.offered.length = p.accepted.length + p.spans.dropped
  accepted : p.accepted.Sublist p.offered
  recorded : p.spans.recorded = p.accepted.length
  dropped : p.dropped = p.spans.dropped
  counted : p.offered.length = p.spans.exported + p.spans.exportFailed +
    p.spans.dropped + p.batch.length + p.queue.length
  queue : p.queue.length ≤ exporter.maxQueue

namespace Pipeline

/-- The spans that have been accepted and are in no posted batch. -/
def unsent (p : Pipeline) : List SpanRecord :=
  match p.phase with
  | .posting _ => p.queue
  | _ => p.batch ++ p.queue

/-- The batch is as large as it can be in each phase. -/
def Fits (exporter : OtlpExporter) (p : Pipeline) : Prop :=
  match p.phase with
  | .unstarted | .select => p.batch.length < exporter.maxBatch
  | .posting resume =>
      0 < p.batch.length ∧ p.batch.length < 2 * exporter.maxBatch ∧
        (resume = .drain → p.closed = true) ∧
        (resume = .stop → p.queue = [] ∧ p.sinks = false)
  | .drain => p.batch.length < exporter.maxBatch ∧ p.closed = true
  | .stopped => p.batch = [] ∧ p.queue = [] ∧ p.closed = true

def Sound (version : Str) (exporter : OtlpExporter) (whole : Prop)
    (p : Pipeline) : Prop :=
  p.Fits exporter ∧ ∃ sent, Ledger version exporter whole sent p.unsent p

variable {version : Str} {exporter : OtlpExporter} {whole : Prop}
  {sent : List (List SpanRecord)} {waiting : List SpanRecord} {p : Pipeline}

/-- A channel that takes another span is open, and its task has not
returned. -/
theorem Fits.push (hfits : p.Fits exporter) (hsinks : p.sinks = true)
    (hopen : p.closed = false) (queue : List SpanRecord) (spans : SpanCounts)
    (offered accepted : List SpanRecord) :
    Fits exporter { p with queue, spans, offered, accepted } := by
  unfold Fits at hfits ⊢
  cases hphase : p.phase with
  | unstarted | select | drain => simpa only [hphase] using hfits
  | posting resume =>
      simp only [hphase] at hfits
      refine ⟨hfits.1, hfits.2.1, hfits.2.2.1, fun hstop => ?_⟩
      rw [(hfits.2.2.2 hstop).2] at hsinks
      cases hsinks
  | stopped =>
      simp only [hphase, hopen] at hfits
      cases hfits.2.2

theorem Fits.length_lt (hfits : p.Fits exporter)
    (hpos : 0 < exporter.maxBatch) :
    p.batch.length < 2 * exporter.maxBatch := by
  unfold Fits at hfits
  cases hphase : p.phase with
  | unstarted | select | drain =>
      simp only [hphase] at hfits
      omega
  | posting resume =>
      simp only [hphase] at hfits
      exact hfits.2.1
  | stopped =>
      simp only [hphase] at hfits
      rw [hfits.1, List.length_nil]
      omega

theorem Fits.sinksGone (hfits : p.Fits exporter) :
    Fits exporter { p with sinks := false } := by
  unfold Fits at hfits ⊢
  cases hphase : p.phase with
  | posting resume =>
      simp only [hphase] at hfits
      exact ⟨hfits.1, hfits.2.1, hfits.2.2.1, fun hstop =>
        ⟨(hfits.2.2.2 hstop).1, rfl⟩⟩
  | unstarted | select | drain | stopped => simpa only [hphase] using hfits

theorem sound_record (span : SpanRecord) (h : p.Sound version exporter whole)
    (hsinks : p.sinks = true) :
    (p.record exporter.maxQueue span).Sound version exporter whole := by
  obtain ⟨hfits, sent, h⟩ := h
  have hcounted := h.counted
  rw [record]
  split_ifs with hfull
  · refine ⟨hfits, sent, { h with
      complete := ?_
      accepted := h.accepted.trans (List.sublist_append_left _ _)
      dropped := congrArg (· + 1) h.dropped
      counted := ?_ }⟩
    · intro hwhole
      obtain ⟨hall, hrefused⟩ := h.complete hwhole
      refine ⟨hall, ?_⟩
      rw [List.length_append, hrefused, List.length_singleton, Nat.add_assoc]
    · rw [List.length_append, List.length_singleton]
      dsimp only
      omega
  · simp only [Bool.or_eq_true, decide_eq_true_eq, not_or, Bool.not_eq_true,
      not_le] at hfull
    obtain ⟨hopen, hroom⟩ := hfull
    obtain ⟨hall, hrefused⟩ := h.complete (.inr hopen)
    have hall' : sent.flatten ++ (p.unsent ++ [span]) =
        p.accepted ++ [span] := by
      rw [← List.append_assoc, hall]
    have hunsent : unsent { p with
        queue := p.queue ++ [span]
        spans := { p.spans with recorded := p.spans.recorded + 1 }
        offered := p.offered ++ [span]
        accepted := p.accepted ++ [span] } = p.unsent ++ [span] := by
      simp only [unsent]
      split
      · rfl
      · rw [List.append_assoc]
    refine ⟨hfits.push hsinks hopen _ _ _ _, sent, ?_⟩
    rw [hunsent]
    exact { h with
      order := hall' ▸ List.prefix_rfl
      complete := fun _ => ⟨hall', by
        simp only [List.length_append, List.length_singleton]
        omega⟩
      accepted := h.accepted.append (List.Sublist.refl _)
      recorded := by simp [h.recorded]
      counted := by
        simp only [List.length_append, List.length_singleton]
        omega
      queue := by
        rw [List.length_append, List.length_singleton]
        exact hroom }

/-- The task returns when nothing is left. -/
theorem sound_stop (h : Ledger version exporter whole sent [] p)
    (hbatch : p.batch = []) (hqueue : p.queue = []) :
    p.stop.Sound version exporter whole := by
  refine ⟨⟨rfl, rfl, rfl⟩, sent, { h with
    complete := ?_
    counted := ?_
    queue := Nat.zero_le _ }⟩
  · rintro (hwhole | hopen)
    · exact h.complete (.inl hwhole)
    · cases hopen
  · have hcounted := h.counted
    rwa [hbatch, hqueue] at hcounted

/-- After a flush the batch is empty. -/
theorem sound_goOn (hpos : 0 < exporter.maxBatch)
    (h : Ledger version exporter whole sent (p.batch ++ p.queue) p)
    (hbatch : p.batch = []) {resume : Resume}
    (hdrain : resume = .drain → p.closed = true)
    (hstop : resume = .stop → p.queue = []) :
    (p.goOn resume).Sound version exporter whole := by
  have hlength : p.batch.length < exporter.maxBatch := by rwa [hbatch]
  cases resume with
  | select => exact ⟨hlength, sent, { h with }⟩
  | drain => exact ⟨⟨hlength, hdrain rfl⟩, sent, { h with }⟩
  | stop =>
      have hqueue := hstop rfl
      rw [hbatch, hqueue] at h
      exact sound_stop h hbatch hqueue

theorem sound_flush (hpos : 0 < exporter.maxBatch)
    (h : Ledger version exporter whole sent (p.batch ++ p.queue) p)
    (hlength : p.batch.length < 2 * exporter.maxBatch) {resume : Resume}
    (hdrain : resume = .drain → p.closed = true)
    (hstop : resume = .stop → p.queue = [] ∧ p.sinks = false) :
    (p.flush version exporter resume).Sound version exporter whole := by
  rw [flush]
  split
  · next hempty =>
      exact sound_goOn hpos h (List.isEmpty_iff.mp hempty) hdrain
        fun heq => (hstop heq).1
  · next hbatch =>
      rw [List.isEmpty_iff] at hbatch
      have hflatten : (sent ++ [p.batch]).flatten ++ p.queue =
          sent.flatten ++ (p.batch ++ p.queue) := by
        simp
      refine ⟨⟨List.length_pos_iff.mpr hbatch, hlength, hdrain, hstop⟩,
        sent ++ [p.batch], { h with
          bodies := ?_
          sizes := ?_
          order := ?_
          complete := ?_ }⟩
      · rw [List.map_append, ← h.bodies]
        rfl
      · exact List.forall_mem_append.mpr
          ⟨h.sizes, List.forall_mem_singleton.mpr ⟨hbatch, hlength⟩⟩
      · exact hflatten ▸ h.order
      · exact fun hwhole =>
          ⟨hflatten.trans (h.complete hwhole).1, (h.complete hwhole).2⟩

theorem sound_flushed (hpos : 0 < exporter.maxBatch) {resume : Resume}
    (hphase : p.phase = .posting resume) (h : p.Sound version exporter whole)
    (result : Except Str Unit) :
    ((p.flushed result).goOn resume).Sound version exporter whole := by
  obtain ⟨hfits, sent, h⟩ := h
  have hcounted := h.counted
  simp only [Fits, hphase] at hfits
  simp only [unsent, hphase] at h
  obtain ⟨-, -, hdrain, hstop⟩ := hfits
  have hledger : Ledger version exporter whole sent
      ([] ++ (p.flushed result).queue) (p.flushed result) := by
    cases result <;> exact { h with
      counted := by
        dsimp only [flushed, List.length_nil]
        omega }
  cases result <;>
    exact sound_goOn hpos hledger rfl hdrain fun heq => (hstop heq).1

theorem ledger_receive (maxBatch : ℕ)
    (h : Ledger version exporter whole sent (p.batch ++ p.queue) p) :
    Ledger version exporter whole sent
      ((p.receive maxBatch).batch ++ (p.receive maxBatch).queue)
      (p.receive maxBatch) := by
  have hwaiting : (p.receive maxBatch).batch ++ (p.receive maxBatch).queue =
      p.batch ++ p.queue := by
    simp [receive]
  rw [hwaiting]
  have hcounted := h.counted
  have hqueue := h.queue
  exact { h with
    counted := by
      simp only [receive, List.length_append, List.length_take,
        List.length_drop]
      omega
    queue := by
      simp only [receive, List.length_drop]
      omega }

theorem sound_received (hpos : 0 < exporter.maxBatch)
    (hphase : p.phase = .select) (h : p.Sound version exporter whole) :
    (p.received version exporter).Sound version exporter whole := by
  obtain ⟨hfits, sent, hledger⟩ := id h
  simp only [Fits, hphase] at hfits
  simp only [unsent, hphase] at hledger
  simp only [received]
  split_ifs with hempty hsinks hfull
  · exact h
  · rw [List.isEmpty_iff] at hempty
    exact sound_flush hpos hledger (by omega) nofun
      fun _ => ⟨hempty, by simpa using hsinks⟩
  · have hlength : (p.receive exporter.maxBatch).batch.length <
        2 * exporter.maxBatch := by
      simp only [receive, List.length_append, List.length_take]
      omega
    exact sound_flush hpos (ledger_receive _ hledger) hlength nofun nofun
  · refine ⟨?_, sent, ?_⟩
    · simp only [Fits, receive, hphase]
      exact not_le.mp hfull
    · have hreceived := ledger_receive exporter.maxBatch hledger
      simp only [unsent, receive, hphase] at hreceived ⊢
      exact hreceived

theorem sound_drained (hpos : 0 < exporter.maxBatch)
    (hphase : p.phase = .drain) (h : p.Sound version exporter whole) :
    (p.drained version exporter).Sound version exporter whole := by
  obtain ⟨hfits, sent, hledger⟩ := h
  simp only [Fits, hphase] at hfits
  simp only [unsent, hphase] at hledger
  rw [drained]
  split_ifs with hbatch hqueue
  · rw [List.isEmpty_iff] at hbatch hqueue
    rw [hbatch, hqueue] at hledger
    exact sound_stop hledger hbatch hqueue
  · rw [List.isEmpty_iff] at hbatch
    have hlength : (p.receive exporter.maxBatch).batch.length <
        2 * exporter.maxBatch := by
      simp only [receive, List.length_append, List.length_take, hbatch,
        List.length_nil]
      omega
    exact sound_flush hpos (ledger_receive _ hledger) hlength
      (fun _ => hfits.2) nofun
  · exact sound_flush hpos hledger (by omega) (fun _ => hfits.2) nofun

theorem recordShutdownDrop_eq (count : ℕ) (p : Pipeline) :
    p.recordShutdownDrop count = { p with
      dropped := p.dropped + count
      spans := { p.spans with dropped := p.spans.dropped + count } } := by
  cases count <;> rfl

theorem sound_deadline (hwhole : ¬whole) (h : p.Sound version exporter whole) :
    (p.recordShutdownDrop (p.batch.length + p.queue.length)).stop.Sound
      version exporter whole := by
  obtain ⟨-, sent, h⟩ := h
  have hcounted := h.counted
  rw [recordShutdownDrop_eq]
  refine ⟨⟨rfl, rfl, rfl⟩, sent, { h with
    order := ?_
    complete := fun hor => absurd hor (by simp [hwhole, stop])
    dropped := congrArg (· + (p.batch.length + p.queue.length)) h.dropped
    counted := ?_
    queue := Nat.zero_le _ }⟩
  · simp only [unsent, stop, List.append_nil]
    exact (List.prefix_append _ _).trans h.order
  · simp only [stop, List.length_nil]
    omega

theorem sound_step (hpos : 0 < exporter.maxBatch) (event : Event)
    (hevent : whole → event ≠ .deadline)
    (h : p.Sound version exporter whole) :
    (p.step version exporter event).Sound version exporter whole := by
  cases event with
  | record span =>
      rw [step]
      split_ifs with hsinks
      · exact sound_record span h hsinks
      · exact h
  | sinksGone =>
      obtain ⟨hfits, sent, hledger⟩ := h
      exact ⟨hfits.sinksGone, sent, { hledger with }⟩
  | start =>
      rw [step]
      split_ifs with hphase
      · obtain ⟨hfits, sent, hledger⟩ := h
        simp only [Fits, hphase] at hfits
        simp only [unsent, hphase] at hledger
        exact ⟨hfits, sent, { hledger with }⟩
      · exact h
  | received =>
      rw [step]
      split
      · exact sound_received hpos ‹_› h
      · exact sound_drained hpos ‹_› h
      · exact h
  | tick =>
      rw [step]
      split_ifs with hphase
      · obtain ⟨hfits, sent, hledger⟩ := h
        simp only [Fits, hphase] at hfits
        simp only [unsent, hphase] at hledger
        exact sound_flush hpos hledger (by omega) nofun nofun
      · exact h
  | shutdown =>
      rw [step]
      split_ifs with hphase
      · obtain ⟨hfits, sent, hledger⟩ := h
        simp only [Fits, hphase] at hfits
        simp only [unsent, hphase] at hledger
        refine ⟨⟨hfits, rfl⟩, sent, { hledger with complete := ?_ }⟩
        rintro (hwhole | hopen)
        · exact hledger.complete (.inl hwhole)
        · cases hopen
      · exact h
  | answered result =>
      rw [step]
      split
      · exact sound_flushed hpos ‹_› h result
      · exact h
  | deadline =>
      rw [step]
      split_ifs
      · exact sound_deadline (fun hwhole => hevent hwhole rfl) h
      · exact h

end Pipeline

/-- The pipeline after some events. -/
def exported (version : Str) (exporter : OtlpExporter) (events : List Event) :
    Pipeline :=
  run (Pipeline.step version exporter) {} events

section Exported

variable {cfg : Config.Otlp} {resource : List (Str × Str)}
  {exporter : OtlpExporter}

theorem build_eq_ok (h : build cfg resource = .ok exporter) :
    exporter.maxQueue = max cfg.maxQueue 1 ∧
      exporter.maxBatch = max cfg.maxBatch 1 ∧
      exporter.resource = resource := by
  obtain ⟨endpoint, -, h⟩ := bind_eq_ok.mp h
  cases h
  exact ⟨rfl, rfl, rfl⟩

theorem maxBatch_pos (h : build cfg resource = .ok exporter) :
    0 < exporter.maxBatch := by
  rw [(build_eq_ok h).2.1]
  exact lt_max_of_lt_right Nat.one_pos

theorem sound_exported (version : Str) (h : build cfg resource = .ok exporter)
    {whole : Prop} {events : List Event}
    (hevents : whole → Event.deadline ∉ events) :
    (exported version exporter events).Sound version exporter whole := by
  have hstart : Pipeline.Sound version exporter whole {} :=
    ⟨maxBatch_pos h, [], rfl, List.forall_mem_nil _, List.prefix_rfl,
      fun _ => ⟨rfl, rfl⟩, List.Sublist.refl _, rfl, rfl, rfl, Nat.zero_le _⟩
  refine List.foldlRecOn events _ hstart fun p hp event hmem => ?_
  refine Pipeline.sound_step (maxBatch_pos h) event (fun hwhole => ?_) hp
  rintro rfl
  exact hevents hwhole hmem

/-- An exporter for at most two spans in the channel. -/
def smallExporter : OtlpExporter where
  endpoint :=
    ⟨"localhost".toList, 4318, "/v1/traces".toList, "localhost".toList⟩
  maxQueue := 2
  maxBatch := 1
  resource := []

theorem build_smallExporter :
    build { endpoint := "http://localhost".toList, maxQueue := 2, maxBatch := 1 }
      [] = .ok smallExporter := by
  rfl

def someSpan : SpanRecord where
  traceId := ⟨List.Vector.replicate 16 1⟩
  spanId := ⟨List.Vector.replicate 8 1⟩
  parentSpanId := none
  name := "GET".toList
  kind := .server
  startUnixNano := 1
  endUnixNano := 2
  error := false
  attributes := []

/-- Every span that was given to a sink is counted as exported, failed or
dropped, or it is in the batch or in the channel, and these are bounded.  Once
the task has returned they are empty. -/
theorem spans_accounted (version : Str)
    (h : build cfg resource = .ok exporter) (events : List Event) :
    let p := exported version exporter events
    p.offered.length = p.spans.exported + p.spans.exportFailed +
        p.spans.dropped + p.batch.length + p.queue.length ∧
      p.dropped = p.spans.dropped ∧
      p.queue.length ≤ max cfg.maxQueue 1 ∧
      p.batch.length < 2 * max cfg.maxBatch 1 ∧
      (p.phase = .stopped → p.batch = [] ∧ p.queue = []) := by
  intro p
  obtain ⟨hqueue, hbatch, -⟩ := build_eq_ok h
  obtain ⟨hfits, sent, hledger⟩ : p.Sound version exporter False :=
    sound_exported version h False.elim
  have hpos := maxBatch_pos h
  rw [← hqueue, ← hbatch]
  refine ⟨hledger.counted, hledger.dropped, hledger.queue, hfits.length_lt hpos,
    fun hstopped => ?_⟩
  simp only [Pipeline.Fits, hstopped] at hfits
  exact ⟨hfits.1, hfits.2.1⟩

/-- The third span is dropped. -/
theorem spans_accounted_small :
    (exported [] smallExporter
      (List.replicate 3 (.record someSpan))).spans.dropped = 1 ∧
    (exported [] smallExporter
      (List.replicate 3 (.record someSpan))).queue.length ≤ max 2 1 :=
  ⟨rfl, (spans_accounted [] build_smallExporter
    (List.replicate 3 (.record someSpan))).2.2.1⟩

/-- The bodies that were posted are batches of spans that went into the
channel, in the order in which they were recorded: none is posted twice, and
none is left out before another. -/
theorem posted_in_order (version : Str)
    (h : build cfg resource = .ok exporter) (events : List Event) :
    let p := exported version exporter events
    ∃ sent : List (List SpanRecord),
      p.bodies = sent.map (encode version resource) ∧
        sent.flatten <+: p.accepted ∧ p.accepted.Sublist p.offered ∧
        p.spans.recorded = p.accepted.length ∧
        ∀ batch ∈ sent, batch ≠ [] ∧ batch.length < 2 * max cfg.maxBatch 1 := by
  intro p
  obtain ⟨-, hbatch, hresource⟩ := build_eq_ok h
  obtain ⟨-, sent, hledger⟩ : p.Sound version exporter False :=
    sound_exported version h False.elim
  refine ⟨sent, hresource ▸ hledger.bodies,
    (List.prefix_append _ _).trans hledger.order, hledger.accepted,
    hledger.recorded, hbatch ▸ hledger.sizes⟩

/-- Two spans go out in two bodies, in order. -/
theorem posted_in_order_small :
    let p := exported [] smallExporter [.record someSpan, .record someSpan,
      .start, .received, .answered (.ok ()), .received]
    p.bodies.length = 2 ∧ ∃ sent : List (List SpanRecord),
      p.bodies = sent.map (encode [] []) ∧ sent.flatten <+: p.accepted ∧
        p.accepted.Sublist p.offered ∧
        ∀ batch ∈ sent, batch ≠ [] ∧ batch.length < 2 := by
  intro p
  obtain ⟨sent, hbodies, horder, haccepted, -, hsizes⟩ :=
    posted_in_order [] build_smallExporter [.record someSpan,
      .record someSpan, .start, .received, .answered (.ok ()), .received]
  exact ⟨rfl, sent, hbodies, horder, haccepted, hsizes⟩

/-- The task takes what is left, and the collector answers. -/
def round (result : Except Str Unit) : List Event :=
  [.received, .answered result]

/-- Is an event a turn of the task or an answer to it? -/
def Event.ofTask : Event → Bool
  | .received | .answered _ => true
  | _ => false

namespace Pipeline

variable {p : Pipeline}

/-- The task has returned, or it drains and there are more rounds to come than
it needs. -/
def Draining (p : Pipeline) (turns : List Event) : Prop :=
  p.phase = .stopped ∨ p.closed = true ∧ ∃ results : List (Except Str Unit),
    (p.phase = .drain ∧ turns = results.flatMap round ∧
      p.batch.length + p.queue.length < results.length ∨
    p.phase = .posting .drain ∧
      (∃ result, turns = .answered result :: results.flatMap round) ∧
      p.queue.length < results.length)

theorem phase_step_of_stopped (version : Str) (event : Event)
    (h : p.phase = .stopped) :
    (p.step version exporter event).phase = .stopped := by
  cases event with
  | record span =>
      simp only [step, record]
      split_ifs <;> exact h
  | _ => simp [step, h]

/-- A span that is recorded now is dropped, and no other event matters to the
task. -/
theorem Draining.idle (version : Str) {event : Event} {turns : List Event}
    (h : p.Draining turns) (hevent : event.ofTask = false)
    (hdeadline : event ≠ .deadline) :
    (p.step version exporter event).Draining turns := by
  rcases h with hstopped | ⟨hclosed, results, h⟩
  · exact .inl (phase_step_of_stopped version event hstopped)
  · have hphase : p.phase ≠ .select ∧ p.phase ≠ .unstarted := by
      rcases h with ⟨hphase, -⟩ | ⟨hphase, -⟩ <;> simp [hphase]
    cases event with
    | record span =>
        simp only [step, record, hclosed, Bool.true_or, if_true]
        split_ifs
        · exact .inr ⟨rfl, results, h⟩
        · exact .inr ⟨hclosed, results, h⟩
    | sinksGone => exact .inr ⟨hclosed, results, h⟩
    | start =>
        rw [step, if_neg hphase.2]
        exact .inr ⟨hclosed, results, h⟩
    | tick | shutdown =>
        rw [step, if_neg hphase.1]
        exact .inr ⟨hclosed, results, h⟩
    | received | answered => cases hevent
    | deadline => exact absurd rfl hdeadline

/-- A batch that is not empty is posted. -/
theorem draining_flush (version : Str) (hbatch : p.batch ≠ [])
    (hclosed : p.closed = true) {result : Except Str Unit}
    {results : List (Except Str Unit)}
    (hresults : p.queue.length < results.length) :
    (p.flush version exporter .drain).Draining
      (.answered result :: results.flatMap round) := by
  have hempty : p.batch.isEmpty = false := List.isEmpty_eq_false_iff.mpr hbatch
  simp only [flush, hempty]
  exact .inr ⟨hclosed, results, .inr ⟨rfl, ⟨result, rfl⟩, hresults⟩⟩

/-- With nothing left the drain ends; otherwise a round leaves less. -/
theorem Draining.turn (version : Str) (hpos : 0 < exporter.maxBatch)
    {event : Event} {turns : List Event} (h : p.Draining (event :: turns)) :
    (p.step version exporter event).Draining turns := by
  rcases h with hstopped | ⟨hclosed, results, ⟨hphase, hturns, hlt⟩ |
    ⟨hphase, ⟨result, hturns⟩, hlt⟩⟩
  · exact .inl (phase_step_of_stopped version event hstopped)
  · cases results with
    | nil => cases hturns
    | cons result results =>
        cases hturns
        rw [List.length_cons] at hlt
        simp only [step, hphase, drained]
        split_ifs with hbatch hqueue
        · exact .inl rfl
        · rw [List.isEmpty_iff] at hbatch hqueue
          refine draining_flush (p := p.receive exporter.maxBatch) version
            ?_ hclosed ?_
          · simp only [receive, hbatch, List.nil_append, ne_eq,
              List.take_eq_nil_iff, not_or]
            exact ⟨hpos.ne', hqueue⟩
          · have hlength := List.length_pos_iff.mpr hqueue
            simp only [receive, List.length_drop]
            omega
        · rw [List.isEmpty_iff] at hbatch
          have hlength := List.length_pos_iff.mpr hbatch
          exact draining_flush version hbatch hclosed (by omega)
  · cases hturns
    simp only [step, hphase]
    cases result <;> exact .inr ⟨hclosed, results, .inl ⟨rfl, rfl, by
      simpa [flushed, goOn] using hlt⟩⟩

theorem Draining.run (version : Str) (hpos : 0 < exporter.maxBatch)
    {later : List Event} (hlater : Event.deadline ∉ later)
    (h : p.Draining (later.filter Event.ofTask)) :
    (Support.run (step version exporter) p later).phase = .stopped := by
  induction later generalizing p with
  | nil =>
      rcases h with hstopped | ⟨-, results, ⟨-, hturns, hlt⟩ |
        ⟨-, ⟨result, hturns⟩, -⟩⟩
      · exact hstopped
      · cases results with
        | nil => exact absurd hlt (Nat.not_lt_zero _)
        | cons => cases hturns
      · cases hturns
  | cons event later ih =>
      obtain ⟨hne, hlater⟩ := List.ne_and_not_mem_of_not_mem_cons hlater
      rw [run_cons]
      refine ih hlater ?_
      by_cases hevent : event.ofTask = true
      · rw [List.filter_cons_of_pos hevent] at h
        exact h.turn version hpos
      · rw [List.filter_cons_of_neg hevent] at h
        exact h.idle version (by simpa using hevent) hne.symm

end Pipeline

/-- When no deadline cuts the drain short and every post is answered, the task
returns, whatever is recorded and whichever sinks go away meanwhile; and by
then every span that went into the channel was posted. -/
theorem shutdown_posts_everything (version : Str)
    (h : build cfg resource = .ok exporter) (events later : List Event)
    (hevents : Event.deadline ∉ events ++ later)
    (hselect : (exported version exporter events).phase = .select)
    (results : List (Except Str Unit))
    (hlater : later.filter Event.ofTask = results.flatMap round)
    (hresults : (exported version exporter events).batch.length +
      (exported version exporter events).queue.length < results.length) :
    let p := exported version exporter (events ++ .shutdown :: later)
    p.phase = .stopped ∧
      p.spans.exported + p.spans.exportFailed = p.accepted.length ∧
      ∃ sent : List (List SpanRecord),
        p.bodies = sent.map (encode version resource) ∧
          sent.flatten = p.accepted := by
  intro p
  obtain ⟨hbefore, hafter⟩ := not_or.mp (mt List.mem_append.mpr hevents)
  have hstopped : p.phase = .stopped := by
    have hshutdown : (exported version exporter events).step version exporter
        .shutdown = { exported version exporter events with
          phase := .drain, closed := true } :=
      if_pos hselect
    have hrun : p = run (Pipeline.step version exporter)
        (exported version exporter events) (.shutdown :: later) :=
      run_append _ _ events _
    rw [hrun, run_cons, hshutdown]
    exact Pipeline.Draining.run version (maxBatch_pos h) hafter
      (.inr ⟨rfl, results, .inl ⟨rfl, hlater, hresults⟩⟩)
  have hall : Event.deadline ∉ events ++ .shutdown :: later := by
    simp [hbefore, hafter]
  obtain ⟨hfits, sent, hledger⟩ : p.Sound version exporter True :=
    sound_exported version h fun _ => hall
  simp only [Pipeline.Fits, hstopped] at hfits
  simp only [Pipeline.unsent, hstopped] at hledger
  obtain ⟨hcomplete, hrefused⟩ := hledger.complete (.inl trivial)
  have hcounted := hledger.counted
  rw [hfits.1, hfits.2.1] at hcomplete hcounted
  rw [List.length_nil] at hcounted
  exact ⟨hstopped, by omega, sent, (build_eq_ok h).2.2 ▸ hledger.bodies,
    by simpa using hcomplete⟩

/-- A span that is recorded during the drain is not posted. -/
theorem shutdown_posts_everything_small :
    let p := exported [] smallExporter ([.record someSpan, .start] ++
      [.shutdown, .received, .record someSpan, .answered (.ok ()), .tick,
        .received, .answered (.ok ())])
    p.phase = .stopped ∧ p.offered.length = 2 ∧
      p.spans.exported + p.spans.exportFailed = p.accepted.length := by
  obtain ⟨hstopped, hcounted, -⟩ := shutdown_posts_everything []
    build_smallExporter [.record someSpan, .start]
    [.received, .record someSpan, .answered (.ok ()), .tick, .received,
      .answered (.ok ())] (by simp) rfl [.ok (), .ok ()] rfl (by decide)
  exact ⟨hstopped, rfl, hcounted⟩

end Exported

end Harmost.Telemetry
