import Harmost.Telemetry.Json

/-!
# Access logs

One line for each request, as JSON or as text.  Paths, hosts and methods come
from the client, so a line must not be forged by them: it stays one line, and
what is read back from it are the values that were written.
-/

namespace Harmost.Telemetry

open Harmost.Support

/-- One access log line. -/
structure AccessLog where
  method : Str
  /-- Path only, never the query string. -/
  path : Str
  route : Str
  class_ : Str
  cache : Str
  upstream : Option Str
  client : Str
  scheme : Str
  status : ℕ
  shed : Bool
  originMs : ℕ
  totalMs : ℕ
  permitReleasedAt : Str
  spool : Str
  traceId : Str
  spanId : Str
  traceContinued : Bool
  generation : ℕ

/-- `Display` of a Boolean. -/
def displayBool (b : Bool) : Str :=
  if b then "true".toList else "false".toList

namespace AccessLog

variable (log : AccessLog)

/-- `self.upstream.unwrap_or("-")`. -/
def upstreamOrDash : Str :=
  log.upstream.getD "-".toList

def toJson : Str :=
  '{' :: (fieldStr "method".toList log.method ++
    fieldStr "path".toList log.path ++
    fieldStr "route".toList log.route ++
    fieldStr "class".toList log.class_ ++
    fieldStr "cache".toList log.cache ++
    fieldStr "upstream".toList log.upstreamOrDash ++
    fieldStr "client".toList log.client ++
    fieldStr "scheme".toList log.scheme ++
    fieldStr "permit_released".toList log.permitReleasedAt ++
    fieldStr "spool".toList log.spool ++
    fieldStr "trace_id".toList log.traceId ++
    fieldStr "span_id".toList log.spanId ++
    "\"status\":".toList ++ decimal log.status ++
    ",\"shed\":".toList ++ displayBool log.shed ++
    ",\"origin_ms\":".toList ++ decimal log.originMs ++
    ",\"total_ms\":".toList ++ decimal log.totalMs ++
    ",\"trace_continued\":".toList ++ displayBool log.traceContinued ++
    ",\"generation\":".toList ++ decimal log.generation ++ ['}'])

/-- The strings of the text form, with their keys. -/
def strings : List (Str × Str) :=
  [("method".toList, log.method), ("path".toList, log.path),
    ("route".toList, log.route), ("class".toList, log.class_),
    ("cache".toList, log.cache), ("upstream".toList, log.upstreamOrDash),
    ("client".toList, log.client), ("scheme".toList, log.scheme),
    ("permit_released".toList, log.permitReleasedAt),
    ("spool".toList, log.spool), ("trace_id".toList, log.traceId),
    ("span_id".toList, log.spanId)]

/-- One turn of the loop of `to_text`. -/
def pushPair (s : Str) (pair : Str × Str) : Str :=
  (if s.isEmpty then s else s ++ [' ']) ++ pair.1 ++ "=\"".toList ++
    escapeInto pair.2 ++ ['"']

def toText : Str :=
  log.strings.foldl pushPair [] ++
    " status=".toList ++ decimal log.status ++
    " shed=".toList ++ displayBool log.shed ++
    " origin_ms=".toList ++ decimal log.originMs ++
    " total_ms=".toList ++ decimal log.totalMs ++
    " trace_continued=".toList ++ displayBool log.traceContinued ++
    " generation=".toList ++ decimal log.generation

/-- The values of a line: an absent upstream is shown as a dash. -/
def shown : AccessLog :=
  { log with upstream := some (log.upstream.getD ['-']) }

/-! ## The JSON form -/

/-- The values that are not strings, with their keys and texts. -/
def scalars : List (Str × Json × Str) :=
  [("status".toList, .number (.ofNat log.status), decimal log.status),
    ("shed".toList, .bool log.shed, displayBool log.shed),
    ("origin_ms".toList, .number (.ofNat log.originMs), decimal log.originMs),
    ("total_ms".toList, .number (.ofNat log.totalMs), decimal log.totalMs),
    ("trace_continued".toList, .bool log.traceContinued,
      displayBool log.traceContinued),
    ("generation".toList, .number (.ofNat log.generation),
      decimal log.generation)]

/-- The members of the object, with their texts. -/
def rendered : List (Str × Json × Str) :=
  log.strings.map (fun pair => (pair.1, .string pair.2, quoted pair.2)) ++
    log.scalars

/-- The eighteen members of a log line. -/
def members : List (Str × Json) :=
  [("method".toList, .string log.method), ("path".toList, .string log.path),
    ("route".toList, .string log.route), ("class".toList, .string log.class_),
    ("cache".toList, .string log.cache),
    ("upstream".toList, .string (log.upstream.getD ['-'])),
    ("client".toList, .string log.client),
    ("scheme".toList, .string log.scheme),
    ("permit_released".toList, .string log.permitReleasedAt),
    ("spool".toList, .string log.spool),
    ("trace_id".toList, .string log.traceId),
    ("span_id".toList, .string log.spanId),
    ("status".toList, .number (.ofNat log.status)),
    ("shed".toList, .bool log.shed),
    ("origin_ms".toList, .number (.ofNat log.originMs)),
    ("total_ms".toList, .number (.ofNat log.totalMs)),
    ("trace_continued".toList, .bool log.traceContinued),
    ("generation".toList, .number (.ofNat log.generation))]

/-- The keys need no escape. -/
theorem escapeInto_key :
    ∀ key ∈ log.rendered.map Prod.fst, escapeInto key = key := by
  have hkeys : log.rendered.map Prod.fst =
      ["method".toList, "path".toList, "route".toList, "class".toList,
        "cache".toList, "upstream".toList, "client".toList, "scheme".toList,
        "permit_released".toList, "spool".toList, "trace_id".toList,
        "span_id".toList, "status".toList, "shed".toList, "origin_ms".toList,
        "total_ms".toList, "trace_continued".toList, "generation".toList] :=
    rfl
  rw [hkeys]
  decide

theorem commaSeparated_append (items : List Str) {others : List Str}
    (hne : others ≠ []) :
    commaSeparated [] (items ++ others) =
      items.flatMap (· ++ [',']) ++ commaSeparated [] others := by
  obtain ⟨next, others, rfl⟩ := List.exists_cons_of_ne_nil hne
  induction items with
  | nil => rfl
  | cons item items ih =>
      cases items with
      | nil => simp [commaSeparated]
      | cons item' items =>
          simp only [List.cons_append, commaSeparated, List.nil_append,
            List.flatMap_cons, List.append_assoc] at ih ⊢
          rw [ih]

theorem fieldStr_eq (key value : Str) :
    '"' :: (key ++ '"' :: ':' :: quoted value) ++ [','] =
      fieldStr key value := by
  simp only [fieldStr, quoted, List.cons_append, List.append_assoc,
    List.nil_append]
  rfl

/-- The text of the values that are not strings. -/
theorem scalars_eq :
    "\"status\":".toList ++ decimal log.status ++
      ",\"shed\":".toList ++ displayBool log.shed ++
      ",\"origin_ms\":".toList ++ decimal log.originMs ++
      ",\"total_ms\":".toList ++ decimal log.totalMs ++
      ",\"trace_continued\":".toList ++ displayBool log.traceContinued ++
      ",\"generation\":".toList ++ decimal log.generation ++ ['}'] =
    commaSeparated [] (log.scalars.map fun member =>
      '"' :: (member.1 ++ '"' :: ':' :: member.2.2)) ++ ['}'] := by
  simp only [scalars, List.map_cons, List.map_nil, commaSeparated,
    List.append_assoc, List.cons_append, List.nil_append]
  rfl

/-- The line is an object with these members. -/
theorem toJson_eq : log.toJson =
    '{' :: (commaSeparated [] (log.rendered.map fun member =>
      Json.memberText escapeChar member.1 member.2.2) ++ ['}']) := by
  have hmembers : log.rendered.map (fun member =>
      Json.memberText escapeChar member.1 member.2.2) =
        log.rendered.map fun member =>
          '"' :: (member.1 ++ '"' :: ':' :: member.2.2) := by
    refine List.map_congr_left fun member hmember => ?_
    exact memberText_of_key
      (log.escapeInto_key _ (List.mem_map_of_mem hmember)) _
  have hstrings : (log.strings.map fun pair =>
      '"' :: (pair.1 ++ '"' :: ':' :: quoted pair.2)).flatMap (· ++ [',']) =
        log.strings.flatMap fun pair => fieldStr pair.1 pair.2 := by
    rw [List.flatMap_map]
    exact List.flatMap_congr fun pair _ => fieldStr_eq pair.1 pair.2
  have hne : log.scalars.map (fun member =>
      '"' :: (member.1 ++ '"' :: ':' :: member.2.2)) ≠ [] :=
    List.cons_ne_nil _ _
  rw [hmembers, rendered, List.map_append, List.map_map,
    commaSeparated_append _ hne, List.append_assoc, ← log.scalars_eq]
  refine congrArg ('{' :: ·) (Eq.trans ?_ (congrArg (· ++ _) hstrings.symm))
  simp only [strings, List.flatMap_cons, List.flatMap_nil, List.append_assoc,
    List.nil_append]

theorem renders_rendered :
    ∀ member ∈ log.rendered, Json.Renders member.2.2 member.2.1 1 := by
  intro member hmember
  rcases List.mem_append.mp hmember with hstring | hscalar
  · obtain ⟨pair, -, rfl⟩ := List.mem_map.mp hstring
    exact renders_quoted pair.2
  · simp only [scalars, List.mem_cons, List.not_mem_nil, or_false] at hscalar
    rcases hscalar with rfl | rfl | rfl | rfl | rfl | rfl
    · exact Json.renders_nat _
    · exact Json.renders_bool _
    · exact Json.renders_nat _
    · exact Json.renders_nat _
    · exact Json.renders_bool _
    · exact Json.renders_nat _

theorem parse_toJson : Json.parse log.toJson = some (.object log.members) := by
  rw [toJson_eq]
  refine (Json.renders_object quotes_escapeChar log.renders_rendered).parse ?_
  simp only [List.length_cons]
  omega

/-! ## The text form -/

/-- The value of a key of the text form. -/
def readPair (key text : Str) : Option (Str × Str) :=
  (expect (key ++ "=\"".toList) text).bind (readQuoted Json.readChar)

def readNat (literal text : Str) : Option (ℕ × Str) :=
  (expect literal text).map fun rest =>
    ((digitsValue (readDigits rest).1), (readDigits rest).2)

def readBool (literal text : Str) : Option (Bool × Str) :=
  (expect literal text).bind fun rest =>
    ((expect "true".toList rest).map (Prod.mk true)).or
      ((expect "false".toList rest).map (Prod.mk false))

/-- The values of these keys, one after the other. -/
def readPairs : List Str → Reader (List Str)
  | [], text => some ([], text)
  | key :: keys, text =>
      (readPair key text).bind fun (value, rest) =>
        (readPairs keys rest).map fun (values, rest) => (value :: values, rest)

/-- The values that are not strings. -/
structure Scalars where
  status : ℕ
  shed : Bool
  originMs : ℕ
  totalMs : ℕ
  traceContinued : Bool
  generation : ℕ

def readScalars (text : Str) : Option Scalars :=
  (readNat " status=".toList text).bind fun (status, text) =>
  (readBool " shed=".toList text).bind fun (shed, text) =>
  (readNat " origin_ms=".toList text).bind fun (originMs, text) =>
  (readNat " total_ms=".toList text).bind fun (totalMs, text) =>
  (readBool " trace_continued=".toList text).bind
    fun (traceContinued, text) =>
  (readNat " generation=".toList text).map fun (generation, _) =>
    ⟨status, shed, originMs, totalMs, traceContinued, generation⟩

/-- The keys of the strings, as they stand in a line. -/
def textKeys : List Str :=
  ["method".toList, ' ' :: "path".toList, ' ' :: "route".toList,
    ' ' :: "class".toList, ' ' :: "cache".toList, ' ' :: "upstream".toList,
    ' ' :: "client".toList, ' ' :: "scheme".toList,
    ' ' :: "permit_released".toList, ' ' :: "spool".toList,
    ' ' :: "trace_id".toList, ' ' :: "span_id".toList]

/-- Read the values of a line in the text form. -/
def readText (text : Str) : Option AccessLog :=
  (readPairs textKeys text).bind fun (strings, text) =>
  (readScalars text).bind fun scalars =>
    match strings with
    | [method, path, route, class_, cache, upstream, client, scheme,
        permitReleasedAt, spool, traceId, spanId] =>
      some
        { method, path, route, class_, cache, upstream := some upstream,
          client, scheme, permitReleasedAt, spool, traceId, spanId,
          status := scalars.status
          shed := scalars.shed
          originMs := scalars.originMs
          totalMs := scalars.totalMs
          traceContinued := scalars.traceContinued
          generation := scalars.generation }
    | _ => none

/-- A pair of the text form. -/
def pairText (key value : Str) : Str :=
  key ++ "=\"".toList ++ escapeInto value ++ ['"']

theorem readPair_pairText (key value rest : Str) :
    readPair key (pairText key value ++ rest) = some (value, rest) := by
  have hread := quotes_escapeChar.readQuoted value rest
  rwa [pairText, readPair, List.append_assoc, List.append_assoc, expect_append,
    Option.bind_some, List.singleton_append]

theorem readNat_append (literal : Str) (n : ℕ) {rest : Str}
    (h : NoDigit rest) :
    readNat literal (literal ++ (decimal n ++ rest)) = some (n, rest) := by
  rw [readNat, expect_append, Option.map_some,
    readDigits_append (fun c => isDigit_of_mem_decimal) h, digitsValue_decimal]

theorem readBool_append (literal : Str) (b : Bool) (rest : Str) :
    readBool literal (literal ++ (displayBool b ++ rest)) = some (b, rest) := by
  rw [readBool, expect_append, Option.bind_some]
  cases b <;> rfl

theorem readPairs_flatMap (pairs : List (Str × Str)) (rest : Str) :
    readPairs (pairs.map Prod.fst)
        (pairs.flatMap (fun pair => pairText pair.1 pair.2) ++ rest) =
      some (pairs.map Prod.snd, rest) := by
  induction pairs with
  | nil => rfl
  | cons pair pairs ih =>
      rw [List.map_cons, readPairs, List.flatMap_cons, List.append_assoc,
        readPair_pairText]
      dsimp only [Option.bind_some]
      rw [ih]
      rfl

/-- After the first pair every other one comes after a space. -/
theorem foldl_pushPair {front : Str} (hne : front ≠ [])
    (pairs : List (Str × Str)) :
    pairs.foldl pushPair front =
      front ++ pairs.flatMap fun pair => pairText (' ' :: pair.1) pair.2 := by
  induction pairs generalizing front with
  | nil => exact (List.append_nil front).symm
  | cons pair pairs ih =>
      have hpush : pushPair front pair =
          front ++ pairText (' ' :: pair.1) pair.2 := by
        rw [pushPair, if_neg (mt List.isEmpty_iff.mp hne), pairText]
        simp only [List.append_assoc, List.cons_append, List.nil_append]
      rw [List.foldl_cons, hpush, ih (by simp [hne]), List.flatMap_cons,
        List.append_assoc]

/-- The pairs as they stand in a line: after a space, but for the first. -/
def spaced : List (Str × Str) → List (Str × Str)
  | [] => []
  | first :: others => first :: others.map fun pair => (' ' :: pair.1, pair.2)

theorem foldl_pushPair_nil (first : Str × Str) (others : List (Str × Str))
    (hkey : first.1 ≠ []) :
    (first :: others).foldl pushPair [] =
      (spaced (first :: others)).flatMap
        fun pair => pairText pair.1 pair.2 := by
  have hne : pairText first.1 first.2 ≠ [] := by
    simp [pairText, hkey]
  rw [List.foldl_cons, spaced, List.flatMap_cons, List.flatMap_map]
  exact foldl_pushPair hne others

/-- The text of the values that are not strings. -/
def scalarsText : Str :=
  " status=".toList ++ (decimal log.status ++
    (" shed=".toList ++ (displayBool log.shed ++
    (" origin_ms=".toList ++ (decimal log.originMs ++
    (" total_ms=".toList ++ (decimal log.totalMs ++
    (" trace_continued=".toList ++ (displayBool log.traceContinued ++
    (" generation=".toList ++ (decimal log.generation ++ [])))))))))))

theorem map_fst_spaced : (spaced log.strings).map Prod.fst = textKeys :=
  rfl

theorem toText_eq : log.toText =
    (spaced log.strings).flatMap (fun pair => pairText pair.1 pair.2) ++
      log.scalarsText := by
  have hkey : "method".toList ≠ [] := by decide
  have hcons : log.strings =
      ("method".toList, log.method) :: log.strings.tail := rfl
  have hpairs := foldl_pushPair_nil ("method".toList, log.method)
    log.strings.tail hkey
  rw [← hcons] at hpairs
  unfold toText scalarsText
  rw [hpairs, List.append_nil (decimal log.generation)]
  simp only [List.append_assoc]

theorem noDigit_nil : NoDigit [] := by
  simp [NoDigit]

theorem noDigit_of_head {literal : Str} (h : literal.head? = some ' ')
    (rest : Str) : NoDigit (literal ++ rest) := by
  intro c hc
  rw [List.head?_append_of_ne_nil _ (by rintro rfl; cases h), h] at hc
  cases hc
  rfl

theorem readScalars_scalarsText : readScalars log.scalarsText =
    some ⟨log.status, log.shed, log.originMs, log.totalMs, log.traceContinued,
      log.generation⟩ := by
  have hshed := @noDigit_of_head " shed=".toList (by decide)
  have htotal := @noDigit_of_head " total_ms=".toList (by decide)
  have hcontinued := @noDigit_of_head " trace_continued=".toList (by decide)
  unfold readScalars scalarsText
  simp only [readNat_append _ _ (hshed _), readNat_append _ _ (htotal _),
    readNat_append _ _ (hcontinued _), readNat_append _ _ noDigit_nil,
    readBool_append, Option.bind_some, Option.map_some]

/-- All values are read back from the text form. -/
theorem readText_toText : readText log.toText = some log.shown := by
  have hpairs := readPairs_flatMap (spaced log.strings) log.scalarsText
  rw [map_fst_spaced] at hpairs
  rw [toText_eq, readText, hpairs]
  dsimp only [Option.bind_some]
  rw [readScalars_scalarsText]
  rfl

/-! ## Lines -/

theorem printable_displayBool (b : Bool) : Printable (displayBool b) := by
  cases b <;> decide

theorem printable_toJson : Printable log.toJson := by
  simp only [toJson, printable_cons, printable_append, printable_decimal,
    printable_displayBool, and_true]
  refine ⟨by decide, ?_⟩
  repeat' apply And.intro
  all_goals first
    | exact printable_fieldStr (by decide) _
    | decide

theorem printable_pairText {key : Str} (hkey : Printable key) (value : Str) :
    Printable (pairText key value) := by
  simp only [pairText, printable_append]
  exact ⟨⟨⟨hkey, by decide⟩, printable_escapeInto value⟩, by decide⟩

theorem printable_toText : Printable log.toText := by
  have hkeys : ∀ key ∈ textKeys, Printable key := by decide +kernel
  rw [toText_eq, printable_append]
  constructor
  · refine printable_iff.mpr fun c hc => ?_
    obtain ⟨pair, hpair, hmem⟩ := List.mem_flatMap.mp hc
    have hkey : pair.1 ∈ textKeys := by
      rw [← log.map_fst_spaced]
      exact List.mem_map_of_mem hpair
    exact printable_iff.mp (printable_pairText (hkeys _ hkey) pair.2) c hmem
  · unfold scalarsText
    simp only [printable_append, printable_decimal, printable_displayBool,
      true_and]
    decide +kernel

/-- A log line is a single line in both forms.  The JSON form is an object with
the eighteen keys, each once, and the values of the record; from the text form
all values are read back, so that records with different values have different
lines. -/
theorem accessLog_not_forged (log : AccessLog) :
    (∀ c ∈ log.toJson, c ≠ '\r' ∧ c ≠ '\n') ∧
      Json.parse log.toJson = some (.object log.members) ∧
      log.members.length = 18 ∧ (log.members.map Prod.fst).Nodup ∧
      (∀ c ∈ log.toText, c ≠ '\r' ∧ c ≠ '\n') ∧
      readText log.toText = some log.shown ∧
      ∀ other : AccessLog, other.shown ≠ log.shown →
        other.toText ≠ log.toText := by
  refine ⟨log.printable_toJson.ne_lineBreak, log.parse_toJson, rfl, ?_,
    log.printable_toText.ne_lineBreak, log.readText_toText, ?_⟩
  · have hkeys : (log.members.map Prod.fst) =
        ["method".toList, "path".toList, "route".toList, "class".toList,
          "cache".toList, "upstream".toList, "client".toList,
          "scheme".toList, "permit_released".toList, "spool".toList,
          "trace_id".toList, "span_id".toList, "status".toList,
          "shed".toList, "origin_ms".toList, "total_ms".toList,
          "trace_continued".toList, "generation".toList] := rfl
    rw [hkeys]
    decide
  · intro other hne hsame
    have hread := other.readText_toText
    rw [hsame, log.readText_toText] at hread
    exact hne (Option.some.inj hread).symm

end AccessLog

end Harmost.Telemetry
