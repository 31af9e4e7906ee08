import Harmost.Telemetry.AccessLog
import Harmost.Telemetry.Trace

/-!
# Spans as OTLP

A batch of spans in the JSON form of an export request.  A parser takes the text
back as one value, and the resource and the spans are read from it as they were
given.
-/

namespace Harmost.Telemetry

open Harmost.Support

/-- The two kinds of span that are produced. -/
inductive SpanKind where
  | server
  | client
  deriving DecidableEq

/-- The wire values. -/
def SpanKind.code : SpanKind → ℕ
  | .server => 2
  | .client => 3

inductive AttrValue where
  | str (value : Str)
  | int (value : ℤ)
  | bool (value : Bool)
  deriving DecidableEq

structure Attr where
  key : Str
  value : AttrValue
  deriving DecidableEq

/-- One finished span. -/
structure SpanRecord where
  traceId : TraceId
  spanId : SpanId
  parentSpanId : Option SpanId
  name : Str
  kind : SpanKind
  startUnixNano : ℕ
  endUnixNano : ℕ
  error : Bool
  attributes : List Attr
  deriving DecidableEq

/-! ## The encoder -/

/-- A loop that puts a comma in front of every turn but the first. -/
def listed {α : Type} (text : α → Str) (items : List α) : Str :=
  items.zipIdx.flatMap fun item =>
    (if 0 < item.2 then [','] else []) ++ text item.1

/-- `Display` of an integer. -/
def displayInt (value : ℤ) : Str :=
  if value < 0 then '-' :: decimal value.natAbs else decimal value.natAbs

def encodeValue : AttrValue → Str
  | .str v => "\"stringValue\":".toList ++ quoted v
  | .int v => "\"intValue\":\"".toList ++ displayInt v ++ ['"']
  | .bool v => "\"boolValue\":".toList ++ displayBool v

/-- One turn of the loop over attributes. -/
def encodeAttr (attr : Attr) : Str :=
  "\x7b\"key\":".toList ++ quoted attr.key ++ ",\"value\":\x7b".toList ++
    encodeValue attr.value ++ "\x7d\x7d".toList

/-- `encode_span`. -/
def encodeSpan (span : SpanRecord) : Str :=
  "\x7b\"traceId\":\"".toList ++ span.traceId.toHex ++
    "\",\"spanId\":\"".toList ++ span.spanId.toHex ++ ['"'] ++
    (match span.parentSpanId with
      | none => []
      | some parent =>
          ",\"parentSpanId\":\"".toList ++ parent.toHex ++ ['"']) ++
    ",\"name\":".toList ++ quoted span.name ++
    ",\"kind\":".toList ++ decimal span.kind.code ++
    ",\"startTimeUnixNano\":\"".toList ++ decimal span.startUnixNano ++
    "\",\"endTimeUnixNano\":\"".toList ++ decimal span.endUnixNano ++
    "\",\"attributes\":[".toList ++ listed encodeAttr span.attributes ++
    "],\"status\":\x7b\"code\":".toList ++
    (if span.error then ['2'] else ['0']) ++ "\x7d\x7d".toList

/-- One turn of the loop over the resource. -/
def encodeResource (pair : Str × Str) : Str :=
  "\x7b\"key\":".toList ++ quoted pair.1 ++
    ",\"value\":\x7b\"stringValue\":".toList ++ quoted pair.2 ++
    "\x7d\x7d".toList

/-- `encode`, by a crate of some version. -/
def encode (version : Str) (resource : List (Str × Str))
    (spans : List SpanRecord) : Str :=
  ("\x7b\"resourceSpans\":[\x7b\"resource\":" ++
      "\x7b\"attributes\":[").toList ++
    listed encodeResource resource ++
    ("]\x7d,\"scopeSpans\":[\x7b\"scope\":\x7b\"name\":" ++
      "\"harmost\",\"version\":\"").toList ++ escapeInto version ++
    "\"\x7d,\"spans\":[".toList ++ listed encodeSpan spans ++
    "]\x7d]\x7d]\x7d".toList

/-! ## Reading a request -/

/-- An id in hexadecimal. -/
def readId (n : ℕ) (text : Str) : Option (List.Vector UInt8 n) :=
  if text.length = 2 * n then readBytes (utf8 text) 0 n else none

def readDecimal (text : Str) : Option ℕ :=
  if !text.isEmpty && text.all Char.isDigit then some (digitsValue text)
  else none

def readInteger : Str → Option ℤ
  | [] => none
  | c :: text =>
      if c = '-' then (readDecimal text).map fun n : ℕ => -(n : ℤ)
      else (readDecimal (c :: text)).map fun n : ℕ => (n : ℤ)

def SpanKind.ofCode : ℕ → Option SpanKind
  | 2 => some .server
  | 3 => some .client
  | _ => none

/-- The status of a span: is it an error? -/
def readStatus : ℕ → Option Bool
  | 0 => some false
  | 2 => some true
  | _ => none

/-- The string of an object under a name. -/
def textField (name : Str) (v : Json) : Option Str :=
  (v.field? name).bind Json.string?

def readValue (v : Json) : Option AttrValue :=
  ((textField "stringValue".toList v).map AttrValue.str).or
    ((((textField "intValue".toList v).bind readInteger).map
      AttrValue.int).or
        (((v.field? "boolValue".toList).bind Json.bool?).map AttrValue.bool))

def readAttr (v : Json) : Option Attr := do
  let key ← textField "key".toList v
  let value ← (v.field? "value".toList).bind readValue
  return { key, value }

def readParent (v : Json) : Option (Option SpanId) :=
  match v.field? "parentSpanId".toList with
  | none => some none
  | some id => (id.string?.bind (readId 8)).map fun id => some ⟨id⟩

def readSpan (v : Json) : Option SpanRecord := do
  let traceId ← (textField "traceId".toList v).bind (readId 16)
  let spanId ← (textField "spanId".toList v).bind (readId 8)
  let parentSpanId ← readParent v
  let name ← textField "name".toList v
  let kind ← ((v.field? "kind".toList).bind Json.nat?).bind SpanKind.ofCode
  let startUnixNano ←
    (textField "startTimeUnixNano".toList v).bind readDecimal
  let endUnixNano ← (textField "endTimeUnixNano".toList v).bind readDecimal
  let attributes ← (v.field? "attributes".toList).bind Json.items?
  let attributes ← attributes.mapM readAttr
  let status ← v.field? "status".toList
  let error ← ((status.field? "code".toList).bind Json.nat?).bind readStatus
  return { traceId := ⟨traceId⟩, spanId := ⟨spanId⟩, parentSpanId, name, kind,
           startUnixNano, endUnixNano, error, attributes }

/-- An attribute of the resource, which is a string. -/
def readResource (v : Json) : Option (Str × Str) :=
  (readAttr v).bind fun attr =>
    match attr.value with
    | .str value => some (attr.key, value)
    | _ => none

/-- The only item of an array. -/
def onlyItem (v : Json) : Option Json :=
  match v with
  | .array [item] => some item
  | _ => none

/-- The resource and the spans of a request. -/
def readRequest (v : Json) : Option (List (Str × Str) × List SpanRecord) := do
  let entry ← (v.field? "resourceSpans".toList).bind onlyItem
  let resource ← entry.field? "resource".toList
  let attributes ← (resource.field? "attributes".toList).bind Json.items?
  let attributes ← attributes.mapM readResource
  let scope ← (entry.field? "scopeSpans".toList).bind onlyItem
  let spans ← (scope.field? "spans".toList).bind Json.items?
  let spans ← spans.mapM readSpan
  return (attributes, spans)

/-! ## What is written -/

/-- The beginning of a member. -/
def label (key : Str) : Str :=
  '"' :: (key ++ ['"', ':'])

/-- Members with their values and the texts of these. -/
abbrev Members := List (Str × Json × Str)

def objectText (members : Members) : Str :=
  '{' :: (commaSeparated [] (members.map fun member =>
    label member.1 ++ member.2.2) ++ ['}'])

def objectJson (members : Members) : Json :=
  .object (members.map fun member => (member.1, member.2.1))

def arrayText (texts : List Str) : Str :=
  '[' :: (commaSeparated [] texts ++ [']'])

theorem commaSeparated_cons (item : Str) (items : List Str) :
    commaSeparated [] (item :: items) =
      item ++ items.flatMap fun item => ',' :: item := by
  induction items generalizing item with
  | nil => exact (List.append_nil item).symm
  | cons next items ih => rw [commaSeparated, ih, List.flatMap_cons]; rfl

/-- A loop with commas writes the items of an array. -/
theorem listed_eq {α : Type} (text : α → Str) (items : List α) :
    listed text items = commaSeparated [] (items.map text) := by
  have hlater : ∀ (items : List α) (k : ℕ), 0 < k →
      ((items.zipIdx k).flatMap fun item =>
        (if 0 < item.2 then [','] else []) ++ text item.1) =
      (items.map text).flatMap fun item => ',' :: item := by
    intro items
    induction items with
    | nil => exact fun _ _ => rfl
    | cons item items ih =>
        intro k hk
        rw [List.zipIdx_cons, List.flatMap_cons, if_pos hk,
          ih (k + 1) (Nat.succ_pos k), List.map_cons, List.flatMap_cons]
        rfl
  cases items with
  | nil => rfl
  | cons item items =>
      rw [listed, List.zipIdx_cons, List.flatMap_cons,
        hlater items 1 Nat.one_pos, List.map_cons, commaSeparated_cons]
      rfl

theorem listed_congr {α : Type} {text text' : α → Str}
    (h : ∀ a, text a = text' a) (items : List α) :
    listed text items = commaSeparated [] (items.map text') := by
  rw [listed_eq]
  exact congrArg _ (List.map_congr_left fun a _ => h a)

/-- Text that needs no escape. -/
theorem quoted_of_plain {text : Str} (h : ∀ c ∈ text, escapeChar c = [c]) :
    quoted text = '"' :: (text ++ ['"']) := by
  have hplain : escapeInto text = text := by
    rw [escapeInto, List.flatMap_congr h]
    exact List.flatMap_singleton' text
  rw [quoted, hplain]

theorem quoted_hex (bytes : List UInt8) :
    quoted (hex bytes) = '"' :: (hex bytes ++ ['"']) := by
  have hdigits : ∀ c ∈ hexDigits, escapeChar c = [c] :=
    List.all_iff_forall_prop.mp (by decide)
  exact quoted_of_plain fun c hc => hdigits c (mem_hexDigits_of_mem_hex c hc)

theorem escapeChar_of_isDigit {c : Char} (h : c.isDigit = true) :
    escapeChar c = [c] := by
  have hne : ∀ d : Char, d.isDigit = false → c ≠ d :=
    fun d hd => Json.ne_of_isDigit h hd
  have hzero : '0'.toNat = 48 := rfl
  have hrange := Char.isDigit_iff_toNat.mp h
  rw [escapeChar, if_neg (hne _ rfl), if_neg (hne _ rfl), if_neg (hne _ rfl),
    if_neg (hne _ rfl), if_neg (hne _ rfl), if_neg (by omega)]

theorem quoted_decimal (n : ℕ) :
    quoted (decimal n) = '"' :: (decimal n ++ ['"']) :=
  quoted_of_plain fun _ hc => escapeChar_of_isDigit (isDigit_of_mem_decimal hc)

theorem quoted_displayInt (value : ℤ) :
    quoted (displayInt value) = '"' :: (displayInt value ++ ['"']) := by
  refine quoted_of_plain fun c hc => ?_
  rw [displayInt] at hc
  split_ifs at hc
  · rcases List.mem_cons.mp hc with rfl | hmem
    · decide
    · exact escapeChar_of_isDigit (isDigit_of_mem_decimal hmem)
  · exact escapeChar_of_isDigit (isDigit_of_mem_decimal hc)

/-! ### Members -/

/-- A member of an object: its name needs no escape, and its text is read as
its value. -/
structure Rendered (depth : ℕ) (member : Str × Json × Str) : Prop where
  key : escapeInto member.1 = member.1
  value : Json.Renders member.2.2 member.2.1 depth

theorem rendered_toList {depth : ℕ} {key text : Str} {v : Json}
    (hkey : (key.all fun c => escapeChar c == [c]) = true)
    (h : Json.Renders text v depth) :
    Rendered depth ((String.ofList key).toList, v, text) := by
  refine ⟨?_, h⟩
  rw [String.toList_ofList, escapeInto, List.flatMap_congr fun c hc =>
    eq_of_beq (List.all_eq_true.mp hkey c hc)]
  exact List.flatMap_singleton' key

theorem renders_objectText {depth : ℕ} {members : Members}
    (h : members.Forall (Rendered depth)) :
    Json.Renders (objectText members) (objectJson members) (depth + 1) := by
  rw [List.forall_iff_forall_mem] at h
  have htexts : (members.map fun member => label member.1 ++ member.2.2) =
      members.map fun member =>
        Json.memberText escapeChar member.1 member.2.2 := by
    refine List.map_congr_left fun member hmember => ?_
    rw [memberText_of_key (h member hmember).key, label, List.cons_append,
      List.append_assoc]
    rfl
  rw [objectText, htexts]
  exact Json.renders_object quotes_escapeChar fun member hmember =>
    (h member hmember).value

theorem renders_arrayText {α : Type} {depth : ℕ} {items : List α}
    {text : α → Str} {v : α → Json}
    (h : ∀ item ∈ items, Json.Renders (text item) (v item) depth) :
    Json.Renders (arrayText (items.map text)) (.array (items.map v))
      (depth + 1) := by
  have harray := @Json.renders_array depth
    (items.map fun item => (v item, text item)) (by simpa using h)
  rwa [List.map_map, List.map_map] at harray

/-- An array of one item. -/
theorem renders_singleton {depth : ℕ} {text : Str} {v : Json}
    (h : Json.Renders text v depth) :
    Json.Renders (arrayText [text]) (.array [v]) (depth + 1) :=
  @renders_arrayText Unit depth [()] (fun _ => text) (fun _ => v) fun _ _ => h

/-! ### Attributes -/

def AttrValue.member : AttrValue → Str × Json × Str
  | .str v => ("stringValue".toList, .string v, quoted v)
  | .int v => ("intValue".toList, .string (displayInt v), quoted (displayInt v))
  | .bool v => ("boolValue".toList, .bool v, displayBool v)

def Attr.members (attr : Attr) : Members :=
  [("key".toList, .string attr.key, quoted attr.key),
    ("value".toList, objectJson [attr.value.member],
      objectText [attr.value.member])]

theorem encodeValue_eq (value : AttrValue) :
    encodeValue value = label value.member.1 ++ value.member.2.2 := by
  unfold encodeValue AttrValue.member
  cases value <;>
    simp only [label, quoted_displayInt, List.cons_append, List.nil_append,
      String.reduceToList]

theorem encodeAttr_eq (attr : Attr) :
    encodeAttr attr = objectText attr.members := by
  unfold encodeAttr Attr.members
  rw [encodeValue_eq]
  simp only [objectText, label, List.map_cons, List.map_nil, commaSeparated,
    List.append_assoc, List.cons_append, List.nil_append, String.reduceToList]

theorem encodeResource_eq (pair : Str × Str) :
    encodeResource pair = objectText (Attr.members ⟨pair.1, .str pair.2⟩) := by
  rw [← encodeAttr_eq]
  unfold encodeResource encodeAttr encodeValue
  simp only [List.append_assoc, List.cons_append, List.nil_append,
    String.reduceToList]

theorem rendered_value (value : AttrValue) : Rendered 1 value.member := by
  cases value with
  | str v => exact rendered_toList rfl (renders_quoted v)
  | int v => exact rendered_toList rfl (renders_quoted (displayInt v))
  | bool v => exact rendered_toList rfl (Json.renders_bool v)

theorem renders_attr (attr : Attr) :
    Json.Renders (objectText attr.members) (objectJson attr.members) 3 := by
  have hvalue : Json.Renders _ (objectJson [attr.value.member]) 2 :=
    renders_objectText (rendered_value attr.value)
  exact renders_objectText
    ⟨rendered_toList rfl ((renders_quoted attr.key).mono (by decide)),
      rendered_toList rfl hvalue⟩

/-! ### Spans -/

def statusCode (error : Bool) : ℕ :=
  if error then 2 else 0

def statusMembers (error : Bool) : Members :=
  [("code".toList, .number (.ofNat (statusCode error)),
    decimal (statusCode error))]

def parentMember (parent : SpanId) : Str × Json × Str :=
  ("parentSpanId".toList, .string parent.toHex, quoted parent.toHex)

def SpanRecord.members (span : SpanRecord) : Members :=
  [("traceId".toList, .string span.traceId.toHex, quoted span.traceId.toHex),
    ("spanId".toList, .string span.spanId.toHex, quoted span.spanId.toHex)] ++
  (span.parentSpanId.toList.map parentMember ++
  [("name".toList, .string span.name, quoted span.name),
    ("kind".toList, .number (.ofNat span.kind.code), decimal span.kind.code),
    ("startTimeUnixNano".toList, .string (decimal span.startUnixNano),
      quoted (decimal span.startUnixNano)),
    ("endTimeUnixNano".toList, .string (decimal span.endUnixNano),
      quoted (decimal span.endUnixNano)),
    ("attributes".toList,
      .array (span.attributes.map fun attr => objectJson attr.members),
      arrayText (span.attributes.map fun attr => objectText attr.members)),
    ("status".toList, objectJson (statusMembers span.error),
      objectText (statusMembers span.error))])

variable (span : SpanRecord) (version : Str) (resource : List (Str × Str))
  (spans : List SpanRecord)

theorem encodeSpan_eq (span : SpanRecord) :
    encodeSpan span = objectText span.members := by
  have herror : (if span.error then ['2'] else ['0']) =
      decimal (statusCode span.error) := by
    cases span.error <;> rfl
  unfold encodeSpan SpanRecord.members statusMembers parentMember
  rw [herror, listed_congr encodeAttr_eq span.attributes]
  -- with or without a parent, both sides are the same pieces in a row
  cases span.parentSpanId <;>
    simp only [objectText, arrayText, label, TraceId.toHex, SpanId.toHex,
      quoted_hex, quoted_decimal, Option.toList_none, Option.toList_some,
      List.map_cons, List.map_nil, commaSeparated, List.append_assoc,
      List.cons_append, List.nil_append, String.reduceToList]

theorem renders_span :
    Json.Renders (objectText span.members) (objectJson span.members) 5 := by
  have hattributes := renders_arrayText fun attr (_ : attr ∈ span.attributes) =>
    renders_attr attr
  have hstatus : Json.Renders _ (objectJson (statusMembers span.error)) 2 :=
    renders_objectText
      (rendered_toList rfl (Json.renders_nat (statusCode span.error)))
  have hstring : ∀ text, Json.Renders (quoted text) (.string text) 4 :=
    fun text => (renders_quoted text).mono (by decide)
  refine renders_objectText (List.forall_append.mpr
    ⟨⟨rendered_toList rfl (hstring _), rendered_toList rfl (hstring _)⟩,
      List.forall_append.mpr ⟨?_, rendered_toList rfl (hstring _),
        rendered_toList rfl ((Json.renders_nat _).mono (by decide)),
        rendered_toList rfl (hstring _), rendered_toList rfl (hstring _),
        rendered_toList rfl hattributes,
        rendered_toList rfl (hstatus.mono (by decide))⟩⟩)
  cases span.parentSpanId with
  | none => trivial
  | some parent => exact rendered_toList rfl (hstring _)

/-! ### Requests -/

def scopeMembers (version : Str) : Members :=
  [("name".toList, .string "harmost".toList, quoted "harmost".toList),
    ("version".toList, .string version, quoted version)]

def scopeSpansMembers (version : Str) (spans : List SpanRecord) : Members :=
  [("scope".toList, objectJson (scopeMembers version),
      objectText (scopeMembers version)),
    ("spans".toList, .array (spans.map fun span => objectJson span.members),
      arrayText (spans.map fun span => objectText span.members))]

/-- An attribute of the resource. -/
def resourceMembers (pair : Str × Str) : Members :=
  Attr.members ⟨pair.1, .str pair.2⟩

def attributesMembers (resource : List (Str × Str)) : Members :=
  [("attributes".toList,
    .array (resource.map fun pair => objectJson (resourceMembers pair)),
    arrayText (resource.map fun pair => objectText (resourceMembers pair)))]

def entryMembers (version : Str) (resource : List (Str × Str))
    (spans : List SpanRecord) : Members :=
  [("resource".toList, objectJson (attributesMembers resource),
      objectText (attributesMembers resource)),
    ("scopeSpans".toList, .array [objectJson (scopeSpansMembers version spans)],
      arrayText [objectText (scopeSpansMembers version spans)])]

def requestMembers (version : Str) (resource : List (Str × Str))
    (spans : List SpanRecord) : Members :=
  [("resourceSpans".toList,
    .array [objectJson (entryMembers version resource spans)],
    arrayText [objectText (entryMembers version resource spans)])]

theorem harmost_plain :
    ("harmost".toList.all fun c => escapeChar c == [c]) = true := by
  decide

theorem encode_eq :
    encode version resource spans =
      objectText (requestMembers version resource spans) := by
  unfold encode requestMembers entryMembers attributesMembers scopeSpansMembers
    scopeMembers
  rw [listed_congr encodeResource_eq resource, listed_congr encodeSpan_eq spans,
    quoted_of_plain (List.all_iff_forall_prop.mp harmost_plain)]
  simp only [objectText, arrayText, label, quoted, resourceMembers,
    List.map_cons, List.map_nil, commaSeparated, List.append_assoc,
    List.cons_append, List.nil_append, String.toList_append,
    String.reduceToList]

theorem renders_scope :
    Json.Renders (objectText (scopeMembers version))
      (objectJson (scopeMembers version)) 2 :=
  renders_objectText ⟨rendered_toList rfl (renders_quoted "harmost".toList),
    rendered_toList rfl (renders_quoted version)⟩

theorem renders_scopeSpans :
    Json.Renders (objectText (scopeSpansMembers version spans))
      (objectJson (scopeSpansMembers version spans)) 7 := by
  have hspans := renders_arrayText fun span (_ : span ∈ spans) =>
    renders_span span
  exact renders_objectText
    ⟨rendered_toList rfl ((renders_scope version).mono (by decide)),
      rendered_toList rfl hspans⟩

theorem renders_attributes :
    Json.Renders (objectText (attributesMembers resource))
      (objectJson (attributesMembers resource)) 5 := by
  have hpairs := renders_arrayText fun pair (_ : pair ∈ resource) =>
    renders_attr ⟨pair.1, .str pair.2⟩
  exact renders_objectText (rendered_toList rfl hpairs)

theorem renders_entry :
    Json.Renders (objectText (entryMembers version resource spans))
      (objectJson (entryMembers version resource spans)) 9 :=
  renders_objectText
    ⟨rendered_toList rfl ((renders_attributes resource).mono (by decide)),
      rendered_toList rfl
        (renders_singleton (renders_scopeSpans version spans))⟩

theorem renders_request :
    Json.Renders (objectText (requestMembers version resource spans))
      (objectJson (requestMembers version resource spans)) 11 :=
  renders_objectText (rendered_toList rfl
    (renders_singleton (renders_entry version resource spans)))

theorem parse_encode :
    Json.parse (encode version resource spans) =
      some (objectJson (requestMembers version resource spans)) := by
  have hlength : 11 ≤ (encode version resource spans).length + 1 := by
    have hopen : 11 ≤ ("\x7b\"resourceSpans\":[\x7b\"resource\":" ++
        "\x7b\"attributes\":[").toList.length := by
      rw [String.toList_append]
      exact Nat.le_trans (by decide) (List.length_append ▸ Nat.le_add_right _ _)
    unfold encode
    simp only [List.length_append] at hopen ⊢
    omega
  rw [encode_eq] at hlength ⊢
  exact (renders_request version resource spans).parse hlength

/-! ## Reading back -/

theorem readId_hex {n : ℕ} (bytes : List.Vector UInt8 n) :
    readId n (hex bytes.toList) = some bytes := by
  rw [readId, length_hex, bytes.toList_length, if_pos rfl]
  exact readBytes_eq_some.mpr List.prefix_rfl

theorem readDecimal_decimal (n : ℕ) : readDecimal (decimal n) = some n := by
  have hdigits : (decimal n).all Char.isDigit = true :=
    List.all_eq_true.mpr fun _ hc => isDigit_of_mem_decimal hc
  rw [readDecimal, hdigits, List.isEmpty_eq_false_iff.mpr (decimal_ne_nil n),
    digitsValue_decimal]
  rfl

theorem readInteger_displayInt (value : ℤ) :
    readInteger (displayInt value) = some value := by
  rw [displayInt]
  split_ifs with hnegative
  · rw [readInteger, if_pos rfl, readDecimal_decimal, Option.map_some,
      Int.ofNat_natAbs_of_nonpos hnegative.le, neg_neg]
  · obtain ⟨first, others, hdecimal, hdigit, -⟩ := decimal_eq_cons value.natAbs
    have hne : first ≠ '-' := Json.ne_of_isDigit hdigit rfl
    rw [hdecimal, readInteger, if_neg hne, ← hdecimal, readDecimal_decimal,
      Option.map_some, Int.natAbs_of_nonneg (not_lt.mp hnegative)]

theorem nat?_ofNat (n : ℕ) : (Json.number (.ofNat n)).nat? = some n :=
  rfl

theorem mapM_map {α : Type} {write : α → Json} {read : Json → Option α}
    (h : ∀ a, read (write a) = some a) (items : List α) :
    (items.map write).mapM read = some items := by
  induction items with
  | nil => rfl
  | cons item items ih =>
      rw [List.map_cons, List.mapM_cons, h, ih]
      rfl

section Fields

variable {members : Members} (hkeys : (members.map Prod.fst).Nodup)
include hkeys

theorem field?_objectJson {key text : Str} {v : Json}
    (h : (key, v, text) ∈ members) :
    (objectJson members).field? key = some v := by
  refine Json.field?_object ?_ (List.mem_map.mpr ⟨_, h, rfl⟩)
  rwa [List.map_map]

theorem textField_objectJson {key text s : Str}
    (h : (key, .string s, text) ∈ members) :
    textField key (objectJson members) = some s := by
  rw [textField, field?_objectJson hkeys h]
  rfl

end Fields

theorem field?_singleton (key text : Str) (v : Json) :
    (objectJson [(key, v, text)]).field? key = some v :=
  field?_objectJson (by exact List.nodup_singleton key) (.head _)

theorem field?_objectJson_eq_none {members : Members} {key : Str}
    (h : key ∉ members.map Prod.fst) :
    (objectJson members).field? key = none := by
  refine Json.field?_eq_none ?_
  rwa [List.map_map]

theorem textField_objectJson_eq_none {members : Members} {key : Str}
    (h : key ∉ members.map Prod.fst) :
    textField key (objectJson members) = none := by
  rw [textField, field?_objectJson_eq_none h]
  rfl

theorem textField_singleton_of_ne {key name : Str} (hne : key ≠ name)
    (v : Json) (text : Str) :
    textField key (objectJson [(name, v, text)]) = none :=
  textField_objectJson_eq_none (by simpa using hne)

theorem readValue_member (value : AttrValue) :
    readValue (objectJson [value.member]) = some value := by
  have hkeys : ([value.member].map Prod.fst).Nodup := List.nodup_singleton _
  cases value with
  | str v =>
      rw [readValue, textField_objectJson hkeys (.head _)]
      rfl
  | int v =>
      have hstring : textField "stringValue".toList
          (objectJson [(AttrValue.int v).member]) = none :=
        textField_singleton_of_ne (by decide) _ _
      rw [readValue, hstring, textField_objectJson hkeys (.head _),
        Option.bind_some, readInteger_displayInt]
      rfl
  | bool v =>
      have hstring : textField "stringValue".toList
          (objectJson [(AttrValue.bool v).member]) = none :=
        textField_singleton_of_ne (by decide) _ _
      have hint : textField "intValue".toList
          (objectJson [(AttrValue.bool v).member]) = none :=
        textField_singleton_of_ne (by decide) _ _
      rw [readValue, hstring, hint, field?_objectJson hkeys (.head _)]
      rfl

theorem readAttr_members (attr : Attr) :
    readAttr (objectJson attr.members) = some attr := by
  have hkeys : (attr.members.map Prod.fst).Nodup := by
    change ["key".toList, "value".toList].Nodup
    decide
  rw [readAttr, textField_objectJson hkeys (.head _),
    field?_objectJson hkeys (.tail _ (.head _)), Option.bind_some,
    readValue_member]
  rfl

/-- The names of a span's members. -/
def spanKeys : List Str :=
  ["traceId".toList, "spanId".toList] ++ (["parentSpanId".toList] ++
    ["name".toList, "kind".toList, "startTimeUnixNano".toList,
      "endTimeUnixNano".toList, "attributes".toList, "status".toList])

theorem keys_span : (span.members.map Prod.fst).Nodup := by
  have hkeys : spanKeys.Nodup := by decide
  refine List.Nodup.sublist ?_ hkeys
  rw [SpanRecord.members, List.map_append, List.map_append, spanKeys]
  refine (List.Sublist.refl _).append (List.Sublist.append ?_
    (List.Sublist.refl _))
  cases span.parentSpanId with
  | none => exact List.nil_sublist _
  | some parent => exact List.Sublist.refl _

theorem readParent_members :
    readParent (objectJson span.members) = some span.parentSpanId := by
  cases hparent : span.parentSpanId with
  | none =>
      have hnone : (objectJson span.members).field? "parentSpanId".toList =
          none := by
        refine field?_objectJson_eq_none ?_
        rw [SpanRecord.members, hparent]
        change _ ∉ ["traceId".toList, "spanId".toList, "name".toList,
          "kind".toList, "startTimeUnixNano".toList, "endTimeUnixNano".toList,
          "attributes".toList, "status".toList]
        decide
      rw [readParent, hnone]
  | some parent =>
      have hmem : parentMember parent ∈ span.members := by
        refine List.mem_append_right _ (List.mem_append_left _ ?_)
        rw [hparent]
        exact .head _
      rw [readParent, field?_objectJson (keys_span span) hmem]
      dsimp only [Json.string?, Option.bind_some]
      rw [SpanId.toHex, readId_hex]
      rfl

theorem ofCode_code (kind : SpanKind) :
    SpanKind.ofCode kind.code = some kind := by
  cases kind <;> rfl

theorem readStatus_statusCode (error : Bool) :
    readStatus (statusCode error) = some error := by
  cases error <;> rfl

theorem readSpan_members : readSpan (objectJson span.members) = some span := by
  have hkeys := keys_span span
  have htrace : textField "traceId".toList (objectJson span.members) =
      some span.traceId.toHex :=
    textField_objectJson hkeys (List.mem_append_left _ (.head _))
  have hspan : textField "spanId".toList (objectJson span.members) =
      some span.spanId.toHex :=
    textField_objectJson hkeys (List.mem_append_left _ (.tail _ (.head _)))
  have hlater {member : Str × Json × Str} (h : member ∈ _) :
      member ∈ span.members :=
    List.mem_append_right _ (List.mem_append_right _ h)
  have hname : textField "name".toList (objectJson span.members) =
      some span.name :=
    textField_objectJson hkeys (hlater (.head _))
  have hkind : (objectJson span.members).field? "kind".toList =
      some (.number (.ofNat span.kind.code)) :=
    field?_objectJson hkeys (hlater (.tail _ (.head _)))
  have hstart : textField "startTimeUnixNano".toList
      (objectJson span.members) = some (decimal span.startUnixNano) :=
    textField_objectJson hkeys (hlater (.tail _ (.tail _ (.head _))))
  have hend : textField "endTimeUnixNano".toList (objectJson span.members) =
      some (decimal span.endUnixNano) :=
    textField_objectJson hkeys (hlater (.tail _ (.tail _ (.tail _ (.head _)))))
  have hattributes : (objectJson span.members).field? "attributes".toList =
      some (.array (span.attributes.map fun attr =>
        objectJson attr.members)) :=
    field?_objectJson hkeys
      (hlater (.tail _ (.tail _ (.tail _ (.tail _ (.head _))))))
  have hstatus : (objectJson span.members).field? "status".toList =
      some (objectJson (statusMembers span.error)) :=
    field?_objectJson hkeys
      (hlater (.tail _ (.tail _ (.tail _ (.tail _ (.tail _ (.head _)))))))
  have hcode : (objectJson (statusMembers span.error)).field? "code".toList =
      some (.number (.ofNat (statusCode span.error))) :=
    field?_singleton _ _ _
  have hitems : (span.attributes.map fun attr =>
      objectJson attr.members).mapM readAttr = some span.attributes :=
    mapM_map readAttr_members span.attributes
  simp only [readSpan, htrace, hspan, readParent_members, hname, hkind, hstart,
    hend, hattributes, hstatus, hcode, hitems, TraceId.toHex, SpanId.toHex,
    readId_hex, readDecimal_decimal, nat?_ofNat, ofCode_code,
    readStatus_statusCode, Json.items?, Option.bind_some, Option.bind_eq_bind,
    -String.reduceToList]
  rfl

theorem readResource_members (pair : Str × Str) :
    readResource (objectJson (resourceMembers pair)) = some pair := by
  rw [readResource, resourceMembers, readAttr_members]
  rfl

/-- A batch is read back from its text as it was given. -/
theorem readRequest_encode (version : Str) (resource : List (Str × Str))
    (spans : List SpanRecord) :
    ∃ request, Json.parse (encode version resource spans) = some request ∧
      readRequest request = some (resource, spans) := by
  refine ⟨_, parse_encode version resource spans, ?_⟩
  have hentry : ((objectJson (requestMembers version resource spans)).field?
      "resourceSpans".toList).bind onlyItem =
        some (objectJson (entryMembers version resource spans)) := by
    rw [requestMembers, field?_singleton]
    rfl
  have hentryKeys : ((entryMembers version resource spans).map
      Prod.fst).Nodup := by
    change ["resource".toList, "scopeSpans".toList].Nodup
    decide
  have hresource : (objectJson (entryMembers version resource spans)).field?
      "resource".toList = some (objectJson (attributesMembers resource)) :=
    field?_objectJson hentryKeys (.head _)
  have hattributes : (objectJson (attributesMembers resource)).field?
      "attributes".toList = some (.array (resource.map fun pair =>
        objectJson (resourceMembers pair))) :=
    field?_singleton _ _ _
  have hscope : ((objectJson (entryMembers version resource spans)).field?
      "scopeSpans".toList).bind onlyItem =
        some (objectJson (scopeSpansMembers version spans)) := by
    rw [field?_objectJson hentryKeys (.tail _ (.head _))]
    rfl
  have hscopeKeys : ((scopeSpansMembers version spans).map
      Prod.fst).Nodup := by
    change ["scope".toList, "spans".toList].Nodup
    decide
  have hspans : (objectJson (scopeSpansMembers version spans)).field?
      "spans".toList = some (.array (spans.map fun span =>
        objectJson span.members)) :=
    field?_objectJson hscopeKeys (.tail _ (.head _))
  simp only [readRequest, hentry, hresource, hattributes, hscope, hspans,
    Json.items?, Option.bind_some, Option.bind_eq_bind,
    mapM_map readResource_members, mapM_map readSpan_members,
    -String.reduceToList]
  rfl

end Harmost.Telemetry
