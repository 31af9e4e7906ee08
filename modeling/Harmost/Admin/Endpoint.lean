import Harmost.Admin.Purge
import Harmost.Cache.Store.PurgeExact
import Harmost.Support.Checks
import Harmost.Support.Run
import Harmost.Telemetry.Otlp

/-!
# The purge endpoint

One endpoint of the admin listener changes anything: `POST /purge`, for whoever
presents the token.  A purge takes the tags and the paths of a request in two
passes over the store and then counts what is left, and everything else that
happens to the store may happen in between.
-/

namespace Harmost.Admin

open Harmost.Support
open Harmost.Config
open Harmost.Cache (BoundedStore System Op Purged)
open Harmost.Telemetry (Members fieldStr label objectJson objectText quoted)

/-! ## Authorisation -/

/-- The bits in which two secrets differ, without stopping at the first. -/
def difference (provided expected : List UInt8) : UInt8 :=
  (provided.zip expected).foldl (fun diff pair => diff ||| (pair.1 ^^^ pair.2))
    0

def secretEq (provided expected : List UInt8) : Bool :=
  if provided.length ≠ expected.length then false
  else difference provided expected == 0

theorem foldl_or_xor_eq_zero_iff {pairs : List (UInt8 × UInt8)}
    {diff : UInt8} :
    pairs.foldl (fun diff pair => diff ||| (pair.1 ^^^ pair.2)) diff = 0 ↔
      diff = 0 ∧ ∀ pair ∈ pairs, pair.1 = pair.2 := by
  induction pairs generalizing diff with
  | nil => simp
  | cons pair pairs ih =>
      rw [List.foldl_cons, ih, UInt8.or_eq_zero_iff, UInt8.xor_eq_zero_iff,
        List.forall_mem_cons, and_assoc]

theorem secretEq_iff {provided expected : List UInt8} :
    secretEq provided expected = true ↔ provided = expected := by
  have hpairs : difference provided expected = 0 ↔
      ∀ pair ∈ provided.zip expected, pair.1 = pair.2 := by
    rw [difference, foldl_or_xor_eq_zero_iff, and_iff_right rfl]
  rw [← List.forall₂_eq_eq_eq, List.forall₂_iff_zip, secretEq]
  split_ifs with hlength
  · simp [hlength]
  · rw [beq_iff_eq, hpairs]
    simp [not_not.mp hlength]

def bearer : List UInt8 :=
  utf8 "Bearer ".toList

/-- `value.strip_prefix(b"Bearer ")`. -/
def presented (value : List UInt8) : Option (List UInt8) :=
  if bearer.isPrefixOf value then some (value.drop bearer.length) else none

/-- Does the request come from whoever holds the token? -/
def authorize (purgeToken : Option Str) (authorization : Option (List UInt8)) :
    Except PurgeRefusal Unit :=
  match purgeToken with
  | none => .error .disabled
  | some token =>
      match authorization.bind presented with
      | none => .error .unauthorized
      | some secret =>
          if secretEq secret (utf8 token) then .ok ()
          else .error .unauthorized

theorem presented_eq_some_iff {value secret : List UInt8} :
    presented value = some secret ↔ value = bearer ++ secret := by
  rw [presented]
  constructor
  · intro h
    split_ifs at h with hbearer
    cases h
    obtain ⟨rest, rfl⟩ := List.isPrefixOf_iff_prefix.mp hbearer
    rw [List.drop_left]
  · rintro rfl
    rw [if_pos (List.isPrefixOf_iff_prefix.mpr (List.prefix_append _ _)),
      List.drop_left]

/-- The request holds the token in its `Authorization`, and nothing else. -/
theorem authorize_eq_ok_iff {purgeToken : Option Str}
    {authorization : Option (List UInt8)} :
    authorize purgeToken authorization = .ok () ↔
      ∃ token, purgeToken = some token ∧
        authorization = some (utf8 ("Bearer ".toList ++ token)) := by
  have hvalue : ∀ token,
      utf8 ("Bearer ".toList ++ token) = bearer ++ utf8 token :=
    utf8_append _
  cases purgeToken with
  | none => simp [authorize]
  | some token =>
      have hsecret : authorize (some token) authorization = .ok () ↔
          ∃ secret, authorization.bind presented = some secret ∧
            secretEq secret (utf8 token) = true := by
        rw [authorize]
        cases authorization.bind presented with
        | none => simp
        | some secret => simp
      rw [hsecret]
      simp only [Option.bind_eq_some_iff, presented_eq_some_iff, secretEq_iff,
        Option.some.injEq, exists_eq_left', exists_eq_right, hvalue]

/-! ## Handling a request -/

/-- A request to the admin listener. -/
structure Request where
  method : Str
  path : Str
  query : Option Str
  authorization : Option (List UInt8)
  deriving DecidableEq

structure Response where
  status : ℕ
  headers : List (Str × Str)
  body : Str
  deriving DecidableEq

/-- `no-store` on every answer. -/
def build (status : ℕ) (contentType : Str) (body : Str) : Response where
  status := status
  headers := [("content-type".toList, contentType),
    ("cache-control".toList, "no-store".toList),
    ("content-length".toList, decimal (byteLen body))]
  body := body

def json (status : ℕ) (body : Str) : Response :=
  build status "application/json".toList body

def text (status : ℕ) (body : Str) : Response :=
  build status "text/plain; charset=utf-8".toList body

def unauthorized : Response :=
  let response := text 401
    "purge requires Authorization: Bearer <cache.purge.token>\n".toList
  { response with
    headers := response.headers ++
      [("www-authenticate".toList, "Bearer realm=\"harmost-purge\"".toList)] }

/-- What the endpoints that only read would answer now. -/
structure Documents where
  liveness : Str
  readiness : ℕ × Str
  status : Str
  index : Str

/-- How far the handling of an accepted purge has come. -/
inductive Purging where
  | all
  | tags (tags paths : List Str)
  /-- The tags are purged. -/
  | paths (tags : ℕ) (paths : List Str) (purged : Purged)
  /-- What is left is to be counted. -/
  | count (scope : Str) (tags paths : ℕ) (purged : Purged)
  deriving DecidableEq

def firstStage : PurgeRequest → Purging
  | .all => .all
  | .selective tags paths => .tags tags paths

/-- What a purge reports. -/
structure Report where
  scope : Str
  tags : ℕ
  paths : ℕ
  purged : Purged
  remaining : ℕ
  deriving DecidableEq

def Report.body (report : Report) : Str :=
  "\x7b\"purged\":true,".toList ++
    (fieldStr "scope".toList report.scope ++
      ("\"tags\":".toList ++ (decimal report.tags ++
        (",\"paths\":".toList ++ (decimal report.paths ++
          (",\"entries\":".toList ++ (decimal report.purged.entries ++
            (",\"bytes\":".toList ++ (decimal report.purged.bytes ++
              (",\"remaining_entries\":".toList ++
                (decimal report.remaining ++ "\x7d".toList)))))))))))

def Report.response (report : Report) : Response :=
  json 200 report.body

inductive Handling where
  | purging (stage : Purging)
  | purged (report : Report)
  | answered (response : Response)
  deriving DecidableEq

/-- Authorisation happens before parsing. -/
def purge (purgeToken : Option Str) (authorization : Option (List UInt8))
    (query : Option Str) : Except PurgeRefusal Purging :=
  (authorize purgeToken authorization).bind fun _ =>
    (parsePurgeQuery query).map firstStage

def refused : PurgeRefusal → Response
  | .disabled => text 404
      "purge is not configured; set cache.purge.token to enable it\n".toList
  | .unauthorized => unauthorized
  | .malformed why => text 400 (why ++ "\n".toList)

def document (documents : Documents) (path : Str) : Response :=
  if path = "/health/live".toList ∨ path = "/healthz".toList then
    json 200 documents.liveness
  else if path = "/health/ready".toList ∨ path = "/readyz".toList then
    json documents.readiness.1 documents.readiness.2
  else if path = "/status".toList then json 200 documents.status
  else if path = "/".toList then text 200 documents.index
  else text 404 "not found\n".toList

/-- How the handling of a request begins. -/
def response (purgeToken : Option Str) (documents : Documents)
    (request : Request) : Handling :=
  if request.path = "/purge".toList then
    if request.method ≠ "POST".toList then
      .answered (text 405 ("purge is POST only; a GET that invalidates a " ++
        "cache is a stampede waiting for a crawler\n").toList)
    else
      match purge purgeToken request.authorization request.query with
      | .ok stage => .purging stage
      | .error refusal => .answered (refused refusal)
  else if request.method ≠ "GET".toList ∧ request.method ≠ "HEAD".toList then
    .answered (text 405 "only GET and HEAD are served here\n".toList)
  else .answered (document documents request.path)

/-- The counts of two passes are summed. -/
def summed (p q : Purged) : Purged :=
  ⟨p.entries + q.entries, p.bytes + q.bytes⟩

/-- The next pass of a purge, or the count at its end. -/
def advance (s : BoundedStore) : Purging → BoundedStore × Handling
  | .all => (s.purgeAll.1, .purging (.count "all".toList 0 0 s.purgeAll.2))
  | .tags tags paths =>
      ((s.purgeTags tags).1,
        .purging (.paths tags.length paths (s.purgeTags tags).2))
  | .paths tags paths purged =>
      ((s.purgePaths paths).1,
        .purging (.count "selective".toList tags paths.length
          (summed purged (s.purgePaths paths).2)))
  | .count scope tags paths purged =>
      (s, .purged ⟨scope, tags, paths, purged, s.cached.entries.length⟩)

/-! ## A listener and its store -/

/-- A store, and the requests that the listener was given. -/
structure Listener where
  system : System
  handlings : AssocMap ℕ Handling := ∅

inductive Event where
  /-- Anything that happens to the store besides. -/
  | store (op : Op)
  /-- A request, and what the endpoints that only read answer then. -/
  | arrive (id : ℕ) (request : Request) (documents : Documents)
  | advance (id : ℕ)

def Event.arrival? : Event → Option ℕ
  | .arrive id _ _ => some id
  | _ => none

section Run

variable (purgeToken : Option Str)

def step (l : Listener) : Event → Listener
  | .store op => { l with system := l.system.step op }
  | .arrive id request documents =>
      if (l.handlings.lookup id).isSome then l
      else
        { l with
          handlings := l.handlings.insert id
            (response purgeToken documents request) }
  | .advance id =>
      match l.handlings.lookup id with
      | some (.purging stage) =>
          { system :=
              { l.system with store := (advance l.system.store stage).1 }
            handlings :=
              l.handlings.insert id (advance l.system.store stage).2 }
      | _ => l

/-- A `POST /purge` with the token. -/
def holdsToken (request : Request) : Bool :=
  purgeToken.any fun token =>
    request.path == "/purge".toList && request.method == "POST".toList &&
      request.authorization == some (utf8 ("Bearer ".toList ++ token))

/-- Everything but the requests without the token. -/
def Event.counts : Event → Bool
  | .arrive _ request _ => holdsToken purgeToken request
  | _ => true

variable {purgeToken} {cfg : CacheDefaults} {l l' : Listener}

/-- Only a request with the token gets as far as the store. -/
theorem holdsToken_of_purging {documents : Documents} {request : Request}
    {stage : Purging}
    (h : response purgeToken documents request = .purging stage) :
    holdsToken purgeToken request = true := by
  rw [response] at h
  split_ifs at h with hpath hmethod
  cases hpurge : purge purgeToken request.authorization request.query with
  | error refusal =>
      rw [hpurge] at h
      cases h
  | ok stage' =>
      obtain ⟨_, hauthorized, _⟩ := bind_eq_ok.mp hpurge
      obtain ⟨token, rfl, hvalue⟩ := authorize_eq_ok_iff.mp hauthorized
      rw [holdsToken, Option.any_some, hpath, not_not.mp hmethod, hvalue]
      simp only [beq_self_eq_true, Bool.and_self]

theorem step_advance {id : ℕ} {stage : Purging}
    (h : l.handlings.lookup id = some (.purging stage)) :
    step purgeToken l (.advance id) =
      { system := { l.system with store := (advance l.system.store stage).1 }
        handlings :=
          l.handlings.insert id (advance l.system.store stage).2 } := by
  rw [step, h]

theorem step_advance_idle {id : ℕ}
    (h : ∀ stage, l.handlings.lookup id ≠ some (.purging stage)) :
    step purgeToken l (.advance id) = l := by
  rw [step]
  split
  · rename_i stage hstage
    exact absurd hstage (h stage)
  · rfl

/-- Two listeners with the same store, the second of which was only given
some of the requests of the first: all that purge something. -/
structure Follows (l l' : Listener) : Prop where
  system : l'.system = l.system
  purging : ∀ id stage, l'.handlings.lookup id = some (.purging stage) ↔
    l.handlings.lookup id = some (.purging stage)
  unknown : ∀ id, l.handlings.lookup id = none →
    l'.handlings.lookup id = none

theorem Follows.insert (h : Follows l l') (system : System)
    (id : ℕ) (handling : Handling) :
    Follows ⟨system, l.handlings.insert id handling⟩
      ⟨system, l'.handlings.insert id handling⟩ := by
  refine ⟨rfl, fun other stage => ?_, fun other => ?_⟩
  · by_cases hother : other = id
    · subst hother
      simp
    · simp [AList.lookup_insert_ne hother, h.purging]
  · by_cases hother : other = id
    · subst hother
      simp
    · simpa [AList.lookup_insert_ne hother] using h.unknown other

theorem Follows.advance (h : Follows l l') (id : ℕ) :
    Follows (step purgeToken l (.advance id))
      (step purgeToken l' (.advance id)) := by
  by_cases hstage : ∃ stage, l.handlings.lookup id = some (.purging stage)
  · obtain ⟨stage, hstage⟩ := hstage
    rw [step_advance hstage, step_advance ((h.purging id stage).mpr hstage),
      h.system]
    exact h.insert _ _ _
  · rwa [step_advance_idle fun stage heq => hstage ⟨stage, heq⟩,
      step_advance_idle fun stage heq =>
        hstage ⟨stage, (h.purging id stage).mp heq⟩]

/-- A request that is new to both. -/
theorem Follows.arrive (h : Follows l l') {id : ℕ}
    (hnew : l.handlings.lookup id = none) (request : Request)
    (documents : Documents) :
    Follows (step purgeToken l (.arrive id request documents))
      (step purgeToken l' (.arrive id request documents)) := by
  simp only [step, hnew, h.unknown id hnew, h.system]
  exact h.insert _ _ _

/-- A request without the token is answered at once. -/
theorem Follows.refuse (h : Follows l l') {id : ℕ}
    (hnew : l.handlings.lookup id = none) {request : Request}
    (hrequest : ¬holdsToken purgeToken request = true)
    (documents : Documents) :
    Follows (step purgeToken l (.arrive id request documents)) l' := by
  have hanswered : ∀ stage,
      response purgeToken documents request ≠ .purging stage :=
    fun _ heq => hrequest (holdsToken_of_purging heq)
  simp only [step, hnew]
  refine ⟨h.system, fun other stage => ?_, fun other => ?_⟩
  · rw [h.purging]
    by_cases hother : other = id
    · subst hother
      simp [hnew, hanswered]
    · simp [AList.lookup_insert_ne hother]
  · by_cases hother : other = id
    · subst hother
      simp
    · simpa [AList.lookup_insert_ne hother] using h.unknown other

theorem lookup_step_eq_none {event : Event} {id : ℕ}
    (h : l.handlings.lookup id = none) (hevent : event.arrival? ≠ some id) :
    (step purgeToken l event).handlings.lookup id = none := by
  cases event with
  | store op => exact h
  | arrive other request documents =>
      have hne : id ≠ other := fun heq => hevent (congrArg some heq.symm)
      rw [step]
      split_ifs
      · exact h
      · rwa [AList.lookup_insert_ne hne]
  | advance other =>
      by_cases hstage :
          ∃ stage, l.handlings.lookup other = some (.purging stage)
      · obtain ⟨stage, hstage⟩ := hstage
        have hne : id ≠ other := by
          rintro rfl
          cases h.symm.trans hstage
        rwa [step_advance hstage, AList.lookup_insert_ne hne]
      · rwa [step_advance_idle fun stage heq => hstage ⟨stage, heq⟩]

theorem follows_run (h : Follows l l') {events : List Event}
    (hids : events.Pairwise fun event later => ∀ id,
      event.arrival? = some id → ∀ id', later.arrival? = some id' → id ≠ id')
    (hnew : ∀ event ∈ events, ∀ id, event.arrival? = some id →
      l.handlings.lookup id = none) :
    Follows (run (step purgeToken) l events)
      (run (step purgeToken) l'
        (events.filter (Event.counts purgeToken))) := by
  induction events generalizing l l' with
  | nil => exact h
  | cons event events ih =>
      rw [List.pairwise_cons] at hids
      rw [List.forall_mem_cons] at hnew
      have hnew' : ∀ later ∈ events, ∀ id, later.arrival? = some id →
          (step purgeToken l event).handlings.lookup id = none :=
        fun later hlater id hid => lookup_step_eq_none
          (hnew.2 later hlater id hid)
          fun heq => hids.1 later hlater id heq id hid rfl
      rw [run_cons]
      cases event with
      | store op =>
          rw [List.filter_cons_of_pos rfl, run_cons]
          refine ih ⟨?_, h.purging, h.unknown⟩ hids.2 hnew'
          exact congrArg (System.step · op) h.system
      | advance id =>
          rw [List.filter_cons_of_pos rfl, run_cons]
          exact ih (h.advance id) hids.2 hnew'
      | arrive id request documents =>
          have hid : l.handlings.lookup id = none := hnew.1 id rfl
          by_cases hrequest :
              Event.counts purgeToken (.arrive id request documents) = true
          · rw [List.filter_cons_of_pos hrequest, run_cons]
            exact ih (h.arrive hid request documents) hids.2 hnew'
          · rw [List.filter_cons_of_neg hrequest]
            exact ih (h.refuse hid hrequest documents) hids.2 hnew'

/-- In any run, what becomes of the store is the same without the requests
that do not present the token: those to other endpoints, with other methods,
and with any other `Authorization`. -/
theorem store_without_token (system : System) (events : List Event)
    (hids : (events.filterMap Event.arrival?).Nodup) :
    (run (step purgeToken) { system } events).system =
      (run (step purgeToken) { system }
        (events.filter (Event.counts purgeToken))).system := by
  have hsame : Follows { system } { system } :=
    ⟨rfl, fun _ _ => Iff.rfl, fun _ hsome => hsome⟩
  have hnew : ∀ event ∈ events, ∀ id, event.arrival? = some id →
      ({ system } : Listener).handlings.lookup id = none :=
    fun _ _ _ _ => rfl
  exact (follows_run hsame (List.pairwise_filterMap.mp hids) hnew).system.symm

/-- A purge with the token `t`. -/
def purgeOf (query : Str) : Request where
  method := "POST".toList
  path := "/purge".toList
  query := some query
  authorization := some (utf8 "Bearer t".toList)

/-- A purge with another token comes between, and it might as well not have
been sent. -/
theorem store_without_token_refused :
    let documents : Documents := ⟨[], (200, []), [], []⟩
    let forged : Request :=
      { purgeOf "all=1".toList with
        authorization := some (utf8 "Bearer u".toList) }
    let events : List Event := [.arrive 0 forged documents, .advance 0,
      .arrive 1 (purgeOf "all=1".toList) documents, .advance 1]
    (events.filterMap Event.arrival?).Nodup ∧
      (run (step (some ['t'])) ⟨System.init {}, ∅⟩ events).system =
        (run (step (some ['t'])) ⟨System.init {}, ∅⟩
          [.advance 0, .arrive 1 (purgeOf "all=1".toList) documents,
            .advance 1]).system := by
  intro documents forged events
  have hids : (events.filterMap Event.arrival?).Nodup := by decide
  exact ⟨hids, store_without_token _ events hids⟩

/-! ## What a purge reports -/

/-- The store is one that its operations lead to. -/
def Reached (cfg : CacheDefaults) (sys : System) : Prop :=
  ∃ ops, sys = (System.init cfg).run ops

theorem Reached.op {sys : System} (h : Reached cfg sys)
    (op : Op) : Reached cfg (sys.step op) := by
  obtain ⟨ops, rfl⟩ := h
  exact ⟨ops ++ [op], (run_append System.step _ ops [op]).symm⟩

theorem reached_step (h : Reached cfg l.system) (event : Event) :
    Reached cfg (step purgeToken l event).system := by
  cases event with
  | store op => exact h.op op
  | arrive id request documents =>
      rw [step]
      split_ifs <;> exact h
  | advance id =>
      rw [step]
      split
      · rename_i stage _
        cases stage with
        | all => exact h.op (.purge .all)
        | tags wanted later => exact h.op (.purge (.tags wanted))
        | paths before wanted purged => exact h.op (.purge (.paths wanted))
        | count scope before wanted purged => exact h
      · exact h

/-- What the handling of a request has removed so far. -/
def counted : Handling → Purged
  | .purging (.paths _ _ purged) => purged
  | .purging (.count _ _ _ purged) => purged
  | .purged report => report.purged
  | _ => {}

def countedOf (id : ℕ) (l : Listener) : Purged :=
  ((l.handlings.lookup id).map counted).getD {}

theorem counted_response (documents : Documents) (request : Request) :
    counted (response purgeToken documents request) = {} := by
  rw [response]
  split_ifs
  · rfl
  · cases hpurge : purge purgeToken request.authorization request.query with
    | error refusal => rfl
    | ok stage =>
        obtain ⟨_, _, hstage⟩ := bind_eq_ok.mp hpurge
        obtain ⟨asked, _, rfl⟩ := map_eq_ok.mp hstage
        cases asked <;> rfl
  · rfl
  · rfl

/-- A pass counts the entries and the bytes that it removes. -/
theorem counted_advance (h : Reached cfg l.system) (stage : Purging) :
    let s := l.system.store
    let s' := (advance s stage).1
    ∃ removed : Purged,
      counted (advance s stage).2 =
          summed (counted (.purging stage)) removed ∧
        removed.entries + s'.cached.entries.length =
          s.cached.entries.length ∧
        removed.bytes + s'.used = s.used := by
  obtain ⟨ops, hops⟩ := h
  have hcoherent : l.system.store.Coherent := by
    rw [hops]
    exact System.coherent_run cfg ops
  have hbalanced := (System.inv_run cfg ops).balanced
  rw [← hops] at hbalanced
  cases stage with
  | all =>
      have hexact : l.system.store.PurgesExactly l.system.store.purgeAll
          fun _ _ => true :=
        hcoherent.purgesExactly hbalanced (fun _ => rfl) fun _ _ _ => rfl
      refine ⟨l.system.store.purgeAll.2, ?_, hexact.count, hexact.bytes⟩
      simp [advance, counted, summed]
  | tags wanted later =>
      have hexact := hcoherent.purgesExactly_tags hbalanced wanted
      refine ⟨(l.system.store.purgeTags wanted).2, ?_, hexact.count,
        hexact.bytes⟩
      simp [advance, counted, summed]
  | paths before wanted purged =>
      have hexact := hcoherent.purgesExactly_paths hbalanced wanted
      exact ⟨(l.system.store.purgePaths wanted).2, rfl, hexact.count,
        hexact.bytes⟩
  | count scope before wanted purged =>
      exact ⟨{}, rfl, Nat.zero_add _, Nat.zero_add _⟩

def Event.advances (id : ℕ) : Event → Bool
  | .advance other => other == id
  | _ => false

/-- What one step takes out of the store. -/
def gone (l l' : Listener) : Purged where
  entries := l.system.store.cached.entries.length -
    l'.system.store.cached.entries.length
  bytes := l.system.store.used - l'.system.store.used

/-- A pass of one request does not count for another. -/
theorem countedOf_advance (h : Reached cfg l.system) {other : ℕ}
    {stage : Purging}
    (hstage : l.handlings.lookup other = some (.purging stage)) (id : ℕ) :
    let l' := step purgeToken l (.advance other)
    countedOf id l' =
      if other = id then summed (countedOf id l) (gone l l')
      else countedOf id l := by
  intro l'
  have hl' : l' = _ := step_advance hstage
  rw [hl']
  split_ifs with hid
  · subst hid
    obtain ⟨removed, hcounted, hentries, hbytes⟩ := counted_advance h stage
    have hbefore : countedOf other l = counted (.purging stage) := by
      rw [countedOf, hstage]
      rfl
    rw [hbefore, countedOf, AList.lookup_insert, Option.map_some,
      Option.getD_some, hcounted, gone, summed]
    congr 1
    · exact congrArg _ (Nat.eq_sub_of_add_eq hentries)
    · exact congrArg _ (Nat.eq_sub_of_add_eq hbytes)
  · rw [countedOf, countedOf, AList.lookup_insert_ne (Ne.symm hid)]

theorem countedOf_step (purgeToken : Option Str) (h : Reached cfg l.system)
    (event : Event) (id : ℕ) :
    let l' := step purgeToken l event
    countedOf id l' =
      if event.advances id then summed (countedOf id l) (gone l l')
      else countedOf id l := by
  cases event with
  | store op => rfl
  | arrive other request documents =>
      refine Eq.trans ?_ (if_neg Bool.false_ne_true).symm
      rw [step]
      split_ifs with hsome
      · rfl
      · by_cases hid : id = other
        · subst hid
          have hnone : l.handlings.lookup id = none := by
            simpa using hsome
          rw [countedOf, countedOf, AList.lookup_insert, hnone,
            Option.map_some, counted_response]
          rfl
        · rw [countedOf, countedOf, AList.lookup_insert_ne hid]
  | advance other =>
      by_cases hstage :
          ∃ stage, l.handlings.lookup other = some (.purging stage)
      · obtain ⟨stage, hstage⟩ := hstage
        simpa only [Event.advances, beq_iff_eq] using
          countedOf_advance h hstage id
      · have hidle : step purgeToken l (.advance other) = l :=
          step_advance_idle fun stage heq => hstage ⟨stage, heq⟩
        simp [hidle, gone, summed]

variable (purgeToken)

/-- What the passes of one request take out of the store in a run. -/
def removedBy (id : ℕ) : Listener → List Event → Purged
  | _, [] => {}
  | l, event :: events =>
      let l' := step purgeToken l event
      let later := removedBy id l' events
      if event.advances id then summed (gone l l') later else later

variable {purgeToken}

theorem countedOf_run (h : Reached cfg l.system) (events : List Event)
    (id : ℕ) :
    countedOf id (run (step purgeToken) l events) =
      summed (countedOf id l) (removedBy purgeToken id l events) := by
  induction events generalizing l with
  | nil => rfl
  | cons event events ih =>
      have hstep := countedOf_step purgeToken h event id
      have hrest := ih (@reached_step purgeToken _ _ h event)
      dsimp only at hstep
      rw [run_cons, hrest, hstep, removedBy]
      split_ifs
      · simp only [summed, Nat.add_assoc]
      · rfl

/-! ### The document -/

def Report.members (report : Report) : Members :=
  [("purged".toList, .bool true, "true".toList),
    ("scope".toList, .string report.scope, quoted report.scope),
    ("tags".toList, .number (.ofNat report.tags), decimal report.tags),
    ("paths".toList, .number (.ofNat report.paths), decimal report.paths),
    ("entries".toList, .number (.ofNat report.purged.entries),
      decimal report.purged.entries),
    ("bytes".toList, .number (.ofNat report.purged.bytes),
      decimal report.purged.bytes),
    ("remaining_entries".toList, .number (.ofNat report.remaining),
      decimal report.remaining)]

theorem Report.body_eq (report : Report) :
    report.body = objectText report.members := by
  unfold Report.body
  simp only [Report.members, objectText, label,
    List.map_cons, List.map_nil, commaSeparated, fieldStr,
    quoted, List.append_assoc, List.cons_append, List.nil_append]
  rfl

theorem Report.rendered (report : Report) :
    report.members.Forall (Telemetry.Rendered 1) :=
  ⟨⟨rfl, Json.renders_bool true⟩, ⟨rfl, Telemetry.renders_quoted _⟩,
    ⟨rfl, Json.renders_nat _⟩, ⟨rfl, Json.renders_nat _⟩,
    ⟨rfl, Json.renders_nat _⟩, ⟨rfl, Json.renders_nat _⟩,
    ⟨rfl, Json.renders_nat _⟩⟩

theorem Report.parse_body (report : Report) :
    Json.parse report.body =
      some (objectJson report.members) := by
  rw [Report.body_eq]
  refine (Telemetry.renders_objectText report.rendered).parse ?_
  rw [objectText, List.length_cons]
  omega

/-- However a purge interleaves with other purges and with everything else that
happens to the store, the document it is answered with is read back, and its
numbers of entries and bytes are what its own passes took out of the store. -/
theorem report_counts_removed (cfg : CacheDefaults) (events : List Event)
    (id : ℕ) (report : Report)
    (h : (run (step purgeToken) { system := System.init cfg }
      events).handlings.lookup id = some (.purged report)) :
    ∃ removed, removed = removedBy purgeToken id
        { system := System.init cfg } events ∧
      report.purged = removed ∧
      ∃ document, Json.parse report.response.body = some document ∧
        (document.field? "entries".toList).bind Json.nat? =
          some removed.entries ∧
        (document.field? "bytes".toList).bind Json.nat? =
          some removed.bytes := by
  have hcounted : report.purged = removedBy purgeToken id
      { system := System.init cfg } events := by
    have hrun := @countedOf_run purgeToken cfg { system := System.init cfg }
      ⟨[], rfl⟩ events id
    simpa [countedOf, h, counted, summed] using hrun
  refine ⟨_, rfl, hcounted, _, report.parse_body, ?_, ?_⟩
  · rw [← hcounted]
    rfl
  · rw [← hcounted]
    rfl

/-- A page is purged by its path while another one is admitted. -/
theorem report_counts_removed_one_page :
    let documents : Documents := ⟨[], (200, []), [], []⟩
    let fill (id : ℕ) (key path : Str) : List Event :=
      [.store (.getMissHandler ⟨key, path⟩ ⟨[], some ([], [])⟩),
        .store (.beginFinish id), .store (.completeFinish id)]
    let events : List Event := fill 0 ['k'] ['/', 'p'] ++
      [.arrive 0 (purgeOf "path=/p".toList) documents, .advance 0] ++
      fill 1 ['l'] ['/'] ++ [.advance 0, .advance 0]
    (run (step (some ['t'])) ⟨System.init {}, ∅⟩ events).handlings.lookup 0 =
        some (.purged ⟨"selective".toList, 0, 1, ⟨1, 2⟩, 1⟩) ∧
      removedBy (some ['t']) 0 ⟨System.init {}, ∅⟩ events = ⟨1, 2⟩ := by
  intro documents fill events
  have h : (run (step (some ['t'])) ⟨System.init {}, ∅⟩
      events).handlings.lookup 0 =
        some (.purged ⟨"selective".toList, 0, 1, ⟨1, 2⟩, 1⟩) := by
    decide +kernel
  obtain ⟨_, hremoved, hpurged, _⟩ := report_counts_removed {} events 0 _ h
  exact ⟨h, hremoved.symm.trans hpurged.symm⟩

end Run

end Harmost.Admin
