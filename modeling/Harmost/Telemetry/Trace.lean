import Harmost.Support.Slice
import Harmost.Support.Utf8
import Mathlib.Data.Bool.AllAny
import Mathlib.Data.Vector.Basic

/-!
# Trace context

The `traceparent` that reaches the origin, and what is read from one.  Fields
stand at fixed positions, in lower-case hexadecimal.  A header that is written
is read back; what is read is the form of the specification, except that the
end of the flags is not looked at in versions above `00`.
-/

namespace Harmost.Telemetry

open Harmost.Support

structure TraceId where
  bytes : List.Vector UInt8 16
  deriving DecidableEq

structure SpanId where
  bytes : List.Vector UInt8 8
  deriving DecidableEq

/-! ## Hexadecimal -/

/-- The table `DIGITS`. -/
def hexDigits : Str :=
  ['0', '1', '2', '3', '4', '5', '6', '7', '8', '9', 'a', 'b', 'c', 'd', 'e',
    'f']

/-- The two digits of a byte. -/
def hexPair (b : UInt8) : Str :=
  [hexDigits.getD (b >>> 4).toNat '0', hexDigits.getD (b &&& 0x0f).toNat '0']

def hex (bytes : List UInt8) : Str :=
  bytes.flatMap hexPair

def TraceId.toHex (id : TraceId) : Str :=
  hex id.bytes.toList

def SpanId.toHex (id : SpanId) : Str :=
  hex id.bytes.toList

/-- Lower case only. -/
def hexDigit (c : UInt8) : Option UInt8 :=
  if 0x30 ≤ c ∧ c ≤ 0x39 then some (c - 0x30)
  else if 0x61 ≤ c ∧ c ≤ 0x66 then some (c - 0x61 + 10)
  else none

def hexByte (pair : List UInt8) : Option UInt8 :=
  (pair[0]?.bind hexDigit).bind fun hi =>
    (pair[1]?.bind hexDigit).map fun lo => hi <<< 4 ||| lo

/-- The loop that reads an id, two digits at a time. -/
def readBytes (bytes : List UInt8) :
    ℕ → (n : ℕ) → Option (List.Vector UInt8 n)
  | _, 0 => some List.Vector.nil
  | start, n + 1 =>
      ((slice bytes start (start + 2)).bind hexByte).bind fun b =>
        (readBytes bytes (start + 2) n).map (List.Vector.cons b)

/-! ## The context of a request -/

structure RequestTrace where
  traceId : TraceId
  /-- The span of the caller, when its context was believed. -/
  parentSpanId : Option SpanId := none
  /-- The server span. -/
  spanId : SpanId
  /-- The span of the fetch from the origin, once there is one. -/
  originSpanId : Option SpanId := none
  sampled : Bool
  continued : Bool := false
  tracestate : Option Str := none

/-- `outbound_traceparent`. -/
def RequestTrace.outboundTraceparent (trace : RequestTrace) : Str :=
  let span := trace.originSpanId.getD trace.spanId
  "00-".toList ++ (trace.traceId.toHex ++ '-' :: (span.toHex ++ '-' ::
    (if trace.sampled then "01".toList else "00".toList)))

structure Parsed where
  traceId : TraceId
  spanId : SpanId
  sampled : Bool
  deriving DecidableEq

def parseTraceparent (raw : Str) : Option Parsed :=
  let bytes := utf8 (trim raw)
  if bytes.length < 55 then none
  else if bytes[2]? ≠ some 0x2d ∨ bytes[35]? ≠ some 0x2d ∨
      bytes[52]? ≠ some 0x2d then
    none
  else
    ((slice bytes 0 2).bind hexByte).bind fun version =>
      if version = 0xff then none
      else if version = 0 ∧ bytes.length ≠ 55 then none
      else
        (readBytes bytes 3 16).bind fun trace =>
          if trace = List.Vector.replicate 16 0 then none
          else
            (readBytes bytes 36 8).bind fun span =>
              if span = List.Vector.replicate 8 0 then none
              else
                ((slice bytes 53 55).bind hexByte).map fun flags : UInt8 =>
                  { traceId := ⟨trace⟩, spanId := ⟨span⟩
                    sampled := flags &&& 0x01 == 0x01 }

/-! ## Starting a trace -/

inductive SampleMode where
  | parentOrRatio
  | ratio
  | always
  | never
  deriving DecidableEq

structure Sample where
  mode : SampleMode := .parentOrRatio
  oneIn : ℕ := 1

/-- The low 64 bits. -/
def TraceId.lowBits (id : TraceId) : UInt64 :=
  (id.bytes.toList.drop 8).foldl (fun v byte => v <<< 8 ||| byte.toUInt64) 0

/-- One trace in so many, decided from its id. -/
def ratio (oneIn : ℕ) (traceId : TraceId) : Bool :=
  if oneIn < 2 ^ 64 then
    oneIn = 0 || oneIn = 1 || traceId.lowBits.toNat % oneIn = 0
  else false

/-- Head sampling. -/
def Sample.decide (sample : Sample) (traceId : TraceId)
    (parentSampled : Option Bool) : Bool :=
  match sample.mode with
  | .always => true
  | .never => false
  | .ratio => ratio sample.oneIn traceId
  | .parentOrRatio => parentSampled.getD (ratio sample.oneIn traceId)

def isPrintableAscii (s : Str) : Bool :=
  (utf8 s).all fun b => 0x20 ≤ b && b < 0x7f

/-- `RequestTrace::begin`, with the ids that the random source gives. -/
def RequestTrace.begin (randomTrace : TraceId) (randomSpan : SpanId)
    (inbound tracestate : Option Str) (sample : Sample) : RequestTrace :=
  let parsed := inbound.bind parseTraceparent
  let traceId := (parsed.map Parsed.traceId).getD randomTrace
  { traceId := traceId
    parentSpanId := parsed.map Parsed.spanId
    spanId := randomSpan
    sampled := sample.decide traceId (parsed.map Parsed.sampled)
    continued := parsed.isSome
    tracestate := tracestate.filter fun s =>
      parsed.isSome && (!s.isEmpty && byteLen s ≤ 512 && isPrintableAscii s) }

/-! ## Reading hexadecimal -/

/-- The byte of a digit. -/
def digitByte (n : ℕ) : UInt8 :=
  UInt8.ofNat (hexDigits.getD n '0').toNat

/-- What a check of every byte has found. -/
theorem of_all_bytes {p : UInt8 → Prop} [DecidablePred p]
    (h : ((List.range 256).all fun n => p (UInt8.ofNat n)) = true)
    (b : UInt8) : p b := by
  have hb := List.all_eq_true.mp h b.toNat (List.mem_range.mpr b.toNat_lt)
  rw [UInt8.ofNat_toNat] at hb
  exact of_decide_eq_true hb

theorem utf8_hexPair (b : UInt8) :
    utf8 (hexPair b) =
      [digitByte (b >>> 4).toNat, digitByte (b &&& 0x0f).toNat] :=
  of_all_bytes (p := fun b => utf8 (hexPair b) =
    [digitByte (b >>> 4).toNat, digitByte (b &&& 0x0f).toNat])
    (by decide +kernel) b

/-- Digits are read by their place in the table. -/
theorem hexDigit_eq_some {c d : UInt8} (h : hexDigit c = some d) :
    d.toNat < 16 ∧ c = digitByte d.toNat := by
  have hdigit := of_all_bytes
    (p := fun c => ((hexDigit c).all fun d =>
      d.toNat < 16 ∧ c = digitByte d.toNat) = true) (by decide +kernel) c
  rw [h, Option.all_some] at hdigit
  exact of_decide_eq_true hdigit

theorem hexByte_utf8_hexPair (b : UInt8) :
    hexByte (utf8 (hexPair b)) = some b :=
  of_all_bytes (p := fun b => hexByte (utf8 (hexPair b)) = some b)
    (by decide +kernel) b

/-- A byte has one spelling. -/
theorem hexByte_eq_some {pair : List UInt8} (hlength : pair.length = 2)
    {b : UInt8} : hexByte pair = some b ↔ pair = utf8 (hexPair b) := by
  have hnibbles : ∀ m < 16, ∀ n < 16,
      utf8 (hexPair (UInt8.ofNat m <<< 4 ||| UInt8.ofNat n)) =
        [digitByte m, digitByte n] := by
    decide +kernel
  constructor
  · intro h
    obtain ⟨x, y, rfl⟩ := List.length_eq_two.mp hlength
    obtain ⟨hi, hhi, h⟩ := Option.bind_eq_some_iff.mp h
    obtain ⟨lo, hlo, rfl⟩ := Option.map_eq_some_iff.mp h
    obtain ⟨hhi16, hx⟩ := hexDigit_eq_some hhi
    obtain ⟨hlo16, hy⟩ := hexDigit_eq_some hlo
    have hpair := hnibbles hi.toNat hhi16 lo.toNat hlo16
    rw [UInt8.ofNat_toNat, UInt8.ofNat_toNat] at hpair
    rw [hpair, hx, hy]
  · rintro rfl
    exact hexByte_utf8_hexPair b

theorem length_utf8_hexPair (b : UInt8) : (utf8 (hexPair b)).length = 2 := by
  rw [utf8_hexPair]
  rfl

theorem slice_hexByte {bytes : List UInt8} {start : ℕ} {b : UInt8} :
    (slice bytes start (start + 2)).bind hexByte = some b ↔
      StandsAt bytes start (utf8 (hexPair b)) := by
  rw [Option.bind_eq_some_iff]
  constructor
  · rintro ⟨pair, hslice, hbyte⟩
    obtain ⟨hlength, hpair⟩ := (slice_eq_some (by decide)).mp hslice
    rwa [(hexByte_eq_some hlength).mp hbyte] at hpair
  · intro h
    exact ⟨_, (slice_eq_some (by decide)).mpr ⟨length_utf8_hexPair b, h⟩,
      hexByte_utf8_hexPair b⟩

theorem hex_cons (b : UInt8) (bytes : List UInt8) :
    hex (b :: bytes) = hexPair b ++ hex bytes :=
  List.flatMap_cons

theorem utf8_hex_cons (b : UInt8) (bytes : List UInt8) :
    utf8 (hex (b :: bytes)) = utf8 (hexPair b) ++ utf8 (hex bytes) := by
  rw [hex_cons, utf8_append]

theorem length_utf8_hex (bytes : List UInt8) :
    (utf8 (hex bytes)).length = 2 * bytes.length := by
  induction bytes with
  | nil => rfl
  | cons b bytes ih =>
      rw [utf8_hex_cons, List.length_append, length_utf8_hexPair, ih,
        List.length_cons]
      omega

/-- An id is read where its digits stand. -/
theorem readBytes_eq_some {bytes : List UInt8} {start n : ℕ}
    {id : List.Vector UInt8 n} :
    readBytes bytes start n = some id ↔
      StandsAt bytes start (utf8 (hex id.toList)) := by
  induction n generalizing start with
  | zero =>
      obtain rfl := id.eq_nil
      exact iff_of_true rfl (List.nil_prefix)
  | succ n ih =>
      obtain ⟨b, rest, rfl⟩ : ∃ b rest, id = List.Vector.cons b rest :=
        ⟨id.head, id.tail, (List.Vector.cons_head_tail id).symm⟩
      rw [List.Vector.toList_cons, utf8_hex_cons, standsAt_append,
        length_utf8_hexPair, ← slice_hexByte, ← ih, readBytes,
        Option.bind_eq_some_iff]
      constructor
      · rintro ⟨b', hb, hrest⟩
        obtain ⟨rest', hrest, heq⟩ := Option.map_eq_some_iff.mp hrest
        have hhead := congrArg List.Vector.head heq
        have htail := congrArg List.Vector.tail heq
        rw [List.Vector.head_cons, List.Vector.head_cons] at hhead
        rw [List.Vector.tail_cons, List.Vector.tail_cons] at htail
        exact ⟨hhead ▸ hb, htail ▸ hrest⟩
      · rintro ⟨hb, hrest⟩
        exact ⟨b, hb, Option.map_eq_some_iff.mpr ⟨rest, hrest, rfl⟩⟩

/-! ## What is read from a header -/

/-- The fields every version begins with. -/
def fieldsText (version : UInt8) (traceId : TraceId) (spanId : SpanId)
    (flags : UInt8) : Str :=
  hexPair version ++ '-' :: (traceId.toHex ++ '-' ::
    (spanId.toHex ++ '-' :: hexPair flags))

section Fields

variable {version flags : UInt8} {traceId : TraceId} {spanId : SpanId}

theorem utf8_fieldsText :
    utf8 (fieldsText version traceId spanId flags) =
      utf8 (hexPair version) ++ ([0x2d] ++ (utf8 traceId.toHex ++
        ([0x2d] ++ (utf8 spanId.toHex ++ ([0x2d] ++
          utf8 (hexPair flags)))))) := by
  have hdash : ∀ text, utf8 ('-' :: text) = [0x2d] ++ utf8 text := fun _ => rfl
  rw [fieldsText, utf8_append, hdash, utf8_append, hdash, utf8_append, hdash]

theorem length_utf8_toHex :
    (utf8 traceId.toHex).length = 32 ∧ (utf8 spanId.toHex).length = 16 := by
  rw [TraceId.toHex, SpanId.toHex, length_utf8_hex, length_utf8_hex,
    List.Vector.toList_length, List.Vector.toList_length]
  exact ⟨rfl, rfl⟩

theorem length_utf8_fieldsText :
    (utf8 (fieldsText version traceId spanId flags)).length = 55 := by
  obtain ⟨htrace, hspan⟩ := @length_utf8_toHex traceId spanId
  simp only [utf8_fieldsText, List.length_append, length_utf8_hexPair, htrace,
    hspan, List.length_singleton]

/-- Where the fields stand. -/
theorem standsAt_fieldsText {bytes : List UInt8} :
    StandsAt bytes 0 (utf8 (fieldsText version traceId spanId flags)) ↔
      (bytes[2]? = some 0x2d ∧ bytes[35]? = some 0x2d ∧
        bytes[52]? = some 0x2d) ∧
      (slice bytes 0 2).bind hexByte = some version ∧
        readBytes bytes 3 16 = some traceId.bytes ∧
        readBytes bytes 36 8 = some spanId.bytes ∧
        (slice bytes 53 55).bind hexByte = some flags := by
  obtain ⟨htrace, hspan⟩ := @length_utf8_toHex traceId spanId
  have hversion := @slice_hexByte bytes 0 version
  have hflags := @slice_hexByte bytes 53 flags
  simp only [utf8_fieldsText, standsAt_append, length_utf8_hexPair, htrace,
    hspan, List.length_singleton, standsAt_singleton, Nat.zero_add,
    Nat.reduceAdd] at hversion hflags ⊢
  rw [readBytes_eq_some, readBytes_eq_some, hversion, hflags, TraceId.toHex,
    SpanId.toHex]
  constructor
  · rintro ⟨hv, hdash, ht, hdash', hs, hdash'', hf⟩
    exact ⟨⟨hdash, hdash', hdash''⟩, hv, ht, hs, hf⟩
  · rintro ⟨⟨hdash, hdash', hdash''⟩, hv, ht, hs, hf⟩
    exact ⟨hv, hdash, ht, hdash', hs, hdash'', hf⟩

end Fields

theorem utf8_eq_nil_iff {text : Str} : utf8 text = [] ↔ text = [] :=
  ⟨fun h => utf8_injective h, fun h => congrArg utf8 h⟩

/-- A header is read exactly if its fields are well formed. -/
theorem parseTraceparent_eq_some {raw : Str} {parsed : Parsed} :
    parseTraceparent raw = some parsed ↔
      ∃ version flags rest,
        trim raw =
          fieldsText version parsed.traceId parsed.spanId flags ++ rest ∧
        version ≠ 0xff ∧ (version = 0 → rest = []) ∧
        parsed.traceId.bytes ≠ List.Vector.replicate 16 0 ∧
        parsed.spanId.bytes ≠ List.Vector.replicate 8 0 ∧
        parsed.sampled = (flags &&& 0x01 == 0x01) := by
  constructor
  · intro h
    obtain ⟨hshort, h⟩ := Option.ite_none_left_eq_some.mp h
    obtain ⟨hdashes, h⟩ := Option.ite_none_left_eq_some.mp h
    obtain ⟨version, hversion, h⟩ := Option.bind_eq_some_iff.mp h
    obtain ⟨hreserved, h⟩ := Option.ite_none_left_eq_some.mp h
    obtain ⟨hlong, h⟩ := Option.ite_none_left_eq_some.mp h
    obtain ⟨trace, htrace, h⟩ := Option.bind_eq_some_iff.mp h
    obtain ⟨hzero, h⟩ := Option.ite_none_left_eq_some.mp h
    obtain ⟨span, hspan, h⟩ := Option.bind_eq_some_iff.mp h
    obtain ⟨hzero', h⟩ := Option.ite_none_left_eq_some.mp h
    obtain ⟨flags, hflags, rfl⟩ := Option.map_eq_some_iff.mp h
    simp only [not_or, not_not] at hdashes
    have hstands := (@standsAt_fieldsText version flags ⟨trace⟩ ⟨span⟩ _).mpr
      ⟨hdashes, hversion, htrace, hspan, hflags⟩
    obtain ⟨rest, hrest⟩ := utf8_prefix_iff.mp hstands
    refine ⟨version, flags, rest, hrest.symm, hreserved, ?_, hzero, hzero', rfl⟩
    intro hfirst
    have hlength : (utf8 (trim raw)).length = 55 := by
      by_contra hne
      exact hlong ⟨hfirst, hne⟩
    rwa [← hrest, utf8_append, List.length_append, length_utf8_fieldsText,
      Nat.add_eq_left, List.length_eq_zero_iff, utf8_eq_nil_iff] at hlength
  · rintro ⟨version, flags, rest, hraw, hreserved, hfirst, hzero, hzero',
      hsampled⟩
    have hbytes : utf8 (trim raw) =
        utf8 (fieldsText version parsed.traceId parsed.spanId flags) ++
          utf8 rest := by rw [hraw, utf8_append]
    have hstands : StandsAt (utf8 (trim raw)) 0
        (utf8 (fieldsText version parsed.traceId parsed.spanId flags)) :=
      ⟨utf8 rest, hbytes.symm⟩
    obtain ⟨hdashes, hversion, htrace, hspan, hflags⟩ :=
      standsAt_fieldsText.mp hstands
    have hlength : (utf8 (trim raw)).length = 55 + (utf8 rest).length := by
      rw [hbytes, List.length_append, length_utf8_fieldsText]
    have hlong : ¬(version = 0 ∧ (utf8 (trim raw)).length ≠ 55) := by
      rintro ⟨hversion, hne⟩
      rw [hlength, hfirst hversion] at hne
      exact hne rfl
    rw [parseTraceparent, if_neg (by omega), if_neg (by simp [hdashes]),
      hversion, Option.bind_some, if_neg hreserved, if_neg hlong, htrace,
      Option.bind_some, if_neg hzero, hspan, Option.bind_some, if_neg hzero',
      hflags, Option.map_some, ← hsampled]

/-! ## Across a hop -/

theorem mem_hexDigits_of_mem_hexPair {b : UInt8} :
    ∀ c ∈ hexPair b, c ∈ hexDigits :=
  List.all_iff_forall_prop.mp (of_all_bytes
    (p := fun b => ((hexPair b).all fun c => c ∈ hexDigits) = true)
    (by decide +kernel) b)

theorem mem_hexDigits_of_mem_hex {bytes : List UInt8} :
    ∀ c ∈ hex bytes, c ∈ hexDigits := by
  intro c hc
  obtain ⟨b, -, hb⟩ := List.mem_flatMap.mp hc
  exact mem_hexDigits_of_mem_hexPair c hb

/-- There is no white space in the fields. -/
theorem trim_fieldsText (version flags : UInt8) (traceId : TraceId)
    (spanId : SpanId) :
    trim (fieldsText version traceId spanId flags) =
      fieldsText version traceId spanId flags := by
  have hdigits : ∀ c ∈ '-' :: hexDigits, isWhitespace c = false :=
    List.all_iff_forall_prop.mp (by decide)
  refine trim_eq_self fun c hc => hdigits c ?_
  simp only [fieldsText, List.mem_append, List.mem_cons] at hc ⊢
  rcases hc with hc | hc | hc | hc | hc | hc | hc
  · exact .inr (mem_hexDigits_of_mem_hexPair c hc)
  · exact .inl hc
  · exact .inr (mem_hexDigits_of_mem_hex c hc)
  · exact .inl hc
  · exact .inr (mem_hexDigits_of_mem_hex c hc)
  · exact .inl hc
  · exact .inr (mem_hexDigits_of_mem_hexPair c hc)

theorem outboundTraceparent_eq (trace : RequestTrace) :
    trace.outboundTraceparent =
      fieldsText 0 trace.traceId (trace.originSpanId.getD trace.spanId)
        (if trace.sampled then 1 else 0) := by
  have hversion : hexPair 0 = "00".toList := by decide
  have hflags : hexPair (if trace.sampled then 1 else 0) =
      if trace.sampled then "01".toList else "00".toList := by
    cases trace.sampled <;> decide
  rw [RequestTrace.outboundTraceparent, fieldsText, hversion, hflags]
  rfl

theorem parseTraceparent_fieldsText {traceId : TraceId} {spanId : SpanId}
    (htrace : traceId.bytes ≠ List.Vector.replicate 16 0)
    (hspan : spanId.bytes ≠ List.Vector.replicate 8 0) (flags : UInt8) :
    parseTraceparent (fieldsText 0 traceId spanId flags) =
      some ⟨traceId, spanId, flags &&& 0x01 == 0x01⟩ := by
  rw [parseTraceparent_eq_some, trim_fieldsText]
  exact ⟨0, flags, [], (List.append_nil _).symm, by decide, fun _ => rfl,
    htrace, hspan, rfl⟩

theorem sampled_flags (sampled : Bool) :
    ((if sampled then (1 : UInt8) else 0) &&& 0x01 == 0x01) = sampled := by
  cases sampled <;> decide

section Hop

variable {trace : RequestTrace}
  (htrace : trace.traceId.bytes ≠ List.Vector.replicate 16 0)
  (hspan : trace.spanId.bytes ≠ List.Vector.replicate 8 0)
  (horigin : ∀ id ∈ trace.originSpanId,
    id.bytes ≠ List.Vector.replicate 8 0)

include hspan horigin in
theorem sentSpan_ne_zero :
    (trace.originSpanId.getD trace.spanId).bytes ≠
      List.Vector.replicate 8 0 := by
  cases hid : trace.originSpanId with
  | none => exact hspan
  | some id => exact horigin id hid

include htrace hspan horigin

/-- What the origin reads is the context that was sent. -/
theorem parseTraceparent_outboundTraceparent :
    parseTraceparent trace.outboundTraceparent =
      some { traceId := trace.traceId
             spanId := trace.originSpanId.getD trace.spanId
             sampled := trace.sampled } := by
  have hsent := sentSpan_ne_zero hspan horigin
  rw [outboundTraceparent_eq, parseTraceparent_fieldsText htrace hsent,
    sampled_flags]

/-- A next hop that follows its caller continues the trace under the span of
the fetch, and samples it exactly if the caller does. -/
theorem begin_outboundTraceparent (randomTrace : TraceId)
    (randomSpan : SpanId) (tracestate : Option Str) (oneIn : ℕ) :
    let next := RequestTrace.begin randomTrace randomSpan
      (some trace.outboundTraceparent) tracestate ⟨.parentOrRatio, oneIn⟩
    next.continued = true ∧ next.traceId = trace.traceId ∧
      next.parentSpanId = some (trace.originSpanId.getD trace.spanId) ∧
      next.sampled = trace.sampled := by
  have hsent := sentSpan_ne_zero hspan horigin
  simp only [RequestTrace.begin, Option.bind_some, outboundTraceparent_eq,
    parseTraceparent_fieldsText htrace hsent, sampled_flags, Option.map_some,
    Option.getD_some, Option.isSome_some, Sample.decide, and_self]

end Hop

/-- A sampled request on its way to the origin. -/
def sampledTrace : RequestTrace where
  traceId := ⟨List.Vector.replicate 16 0xab⟩
  spanId := ⟨List.Vector.replicate 8 0x0f⟩
  originSpanId := some ⟨List.Vector.replicate 8 0x10⟩
  sampled := true

theorem parseTraceparent_sampledTrace :
    parseTraceparent sampledTrace.outboundTraceparent =
      some { traceId := ⟨List.Vector.replicate 16 0xab⟩
             spanId := ⟨List.Vector.replicate 8 0x10⟩
             sampled := true } := by
  refine parseTraceparent_outboundTraceparent (by decide) (by decide) ?_
  rintro id ⟨⟩
  decide

/-! ## The form of the specification -/

/-- This many digits. -/
def IsHex (n : ℕ) (text : Str) : Prop :=
  text.length = n ∧ ∀ c ∈ text, c ∈ hexDigits

/-- A text begins with the fields of some version. -/
def Begins (text version rest : Str) : Prop :=
  ∃ traceId spanId flags,
    text = version ++ '-' :: (traceId ++ '-' ::
      (spanId ++ '-' :: (flags ++ rest))) ∧
    (IsHex 2 version ∧ version ≠ "ff".toList) ∧
    (IsHex 32 traceId ∧ traceId ≠ List.replicate 32 '0') ∧
    (IsHex 16 spanId ∧ spanId ≠ List.replicate 16 '0') ∧ IsHex 2 flags

/-- The fields, and then nothing; or, in a version above `00`, a dash and
anything. -/
def IsTraceparent (text : Str) : Prop :=
  ∃ version rest, Begins text version rest ∧
    (rest = [] ∨ version ≠ "00".toList ∧ rest.head? = some '-')

theorem length_hex (bytes : List UInt8) :
    (hex bytes).length = 2 * bytes.length := by
  induction bytes with
  | nil => rfl
  | cons b bytes ih =>
      rw [hex_cons, List.length_append, ih, List.length_cons]
      exact Nat.add_comm _ _

theorem exists_hexPair {a b : Char} (ha : a ∈ hexDigits) (hb : b ∈ hexDigits) :
    ∃ byte, hexPair byte = [a, b] := by
  have hpairs : ∀ m < 16, ∀ n < 16, hexPair (UInt8.ofNat (16 * m + n)) =
      [hexDigits.getD m '0', hexDigits.getD n '0'] := by
    decide +kernel
  obtain ⟨m, hm, rfl⟩ := List.mem_iff_getElem.mp ha
  obtain ⟨n, hn, rfl⟩ := List.mem_iff_getElem.mp hb
  have hpair := hpairs m hm n hn
  rw [List.getD_eq_getElem?_getD, List.getD_eq_getElem?_getD,
    List.getElem?_eq_getElem hm, List.getElem?_eq_getElem hn] at hpair
  exact ⟨_, hpair⟩

/-- Digits are the text of bytes. -/
theorem isHex_iff {n : ℕ} {text : Str} :
    IsHex (2 * n) text ↔
      ∃ bytes : List.Vector UInt8 n, text = hex bytes.toList := by
  constructor
  · induction n generalizing text with
    | zero =>
        rintro ⟨hlength, -⟩
        exact ⟨List.Vector.nil, List.length_eq_zero_iff.mp hlength⟩
    | succ n ih =>
        rintro ⟨hlength, hdigits⟩
        obtain ⟨a, b, rest, rfl⟩ : ∃ a b rest, text = a :: b :: rest := by
          match text, hlength with
          | a :: b :: rest, _ => exact ⟨a, b, rest, rfl⟩
        obtain ⟨byte, hbyte⟩ := exists_hexPair (hdigits a (by simp))
          (hdigits b (by simp))
        have hrest : IsHex (2 * n) rest :=
          ⟨by simpa [Nat.mul_add] using hlength,
            fun c hc => hdigits c (by simp [hc])⟩
        obtain ⟨bytes, rfl⟩ := ih hrest
        refine ⟨List.Vector.cons byte bytes, ?_⟩
        rw [List.Vector.toList_cons, hex_cons, hbyte]
        rfl
  · rintro ⟨bytes, rfl⟩
    rw [IsHex, length_hex, bytes.toList_length]
    exact ⟨rfl, mem_hexDigits_of_mem_hex⟩

theorem hex_injective {n : ℕ} :
    Function.Injective fun bytes : List.Vector UInt8 n =>
      hex bytes.toList := by
  intro bytes bytes' h
  have hread : readBytes (utf8 (hex bytes.toList)) 0 n = some bytes :=
    readBytes_eq_some.mpr List.prefix_rfl
  have hread' : readBytes (utf8 (hex bytes'.toList)) 0 n = some bytes' :=
    readBytes_eq_some.mpr List.prefix_rfl
  rw [show hex bytes.toList = hex bytes'.toList from h] at hread
  exact Option.some.inj (hread.symm.trans hread')

theorem isHex_pair {text : Str} : IsHex 2 text ↔ ∃ b, text = hexPair b := by
  rw [isHex_iff (n := 1)]
  constructor
  · rintro ⟨bytes, rfl⟩
    refine ⟨bytes.head, ?_⟩
    rw [← List.Vector.cons_head_tail bytes, bytes.tail.eq_nil]
    exact List.append_nil _
  · rintro ⟨b, rfl⟩
    exact ⟨List.Vector.cons b List.Vector.nil, (List.append_nil _).symm⟩

theorem hex_ne_zeros {n : ℕ} {bytes : List.Vector UInt8 n} :
    hex bytes.toList ≠ List.replicate (2 * n) '0' ↔
      bytes ≠ List.Vector.replicate n 0 := by
  have hzeros : hex (List.Vector.replicate n 0).toList =
      List.replicate (2 * n) '0' := by
    change hex (List.replicate n 0) = _
    clear bytes
    induction n with
    | zero => rfl
    | succ n ih =>
        have hzero : hexPair 0 = List.replicate 2 '0' := by decide
        rw [List.replicate_succ, hex_cons, ih, hzero, ← List.replicate_add,
          Nat.add_comm, Nat.mul_succ]
  rw [← hzeros]
  exact hex_injective.ne_iff

/-- The fields as the parser reads them. -/
theorem begins_iff {text version rest : Str} :
    Begins text version rest ↔
      ∃ b traceId spanId flags,
        (version = hexPair b ∧ b ≠ 0xff) ∧
        traceId.bytes ≠ List.Vector.replicate 16 0 ∧
        spanId.bytes ≠ List.Vector.replicate 8 0 ∧
        text = fieldsText b traceId spanId flags ++ rest := by
  have hreserved : ∀ b, hexPair b = "ff".toList ↔ b = 0xff :=
    of_all_bytes (p := fun b => hexPair b = "ff".toList ↔ b = 0xff)
      (by decide +kernel)
  constructor
  · rintro ⟨traceId, spanId, flags, rfl, ⟨hversion, hff⟩,
      ⟨htrace, htrace'⟩, ⟨hspan, hspan'⟩, hflags⟩
    obtain ⟨b, rfl⟩ := isHex_pair.mp hversion
    obtain ⟨trace, rfl⟩ := (isHex_iff (n := 16)).mp htrace
    obtain ⟨span, rfl⟩ := (isHex_iff (n := 8)).mp hspan
    obtain ⟨flag, rfl⟩ := isHex_pair.mp hflags
    refine ⟨b, ⟨trace⟩, ⟨span⟩, flag, ⟨rfl, ?_⟩, hex_ne_zeros.mp htrace',
      hex_ne_zeros.mp hspan', ?_⟩
    · rwa [Ne, hreserved] at hff
    · simp [fieldsText, TraceId.toHex, SpanId.toHex]
  · rintro ⟨b, traceId, spanId, flags, ⟨rfl, hff⟩, htrace, hspan, rfl⟩
    refine ⟨traceId.toHex, spanId.toHex, hexPair flags, ?_,
      ⟨isHex_pair.mpr ⟨b, rfl⟩, ?_⟩,
      ⟨(isHex_iff (n := 16)).mpr ⟨_, rfl⟩, hex_ne_zeros.mpr htrace⟩,
      ⟨(isHex_iff (n := 8)).mpr ⟨_, rfl⟩, hex_ne_zeros.mpr hspan⟩,
      isHex_pair.mpr ⟨flags, rfl⟩⟩
    · simp [fieldsText]
    · rwa [Ne, hreserved]

/-- What is accepted: the fields, and anything after them in a version above
`00`. -/
theorem isSome_parseTraceparent_iff (raw : Str) :
    (parseTraceparent raw).isSome = true ↔
      ∃ version rest, Begins (trim raw) version rest ∧
        (rest = [] ∨ version ≠ "00".toList) := by
  have hfirst : ∀ b, hexPair b = "00".toList ↔ b = 0 :=
    of_all_bytes (p := fun b => hexPair b = "00".toList ↔ b = 0)
      (by decide +kernel)
  rw [Option.isSome_iff_exists]
  constructor
  · rintro ⟨parsed, hparsed⟩
    obtain ⟨b, flags, rest, htext, hff, hlong, htrace, hspan, -⟩ :=
      parseTraceparent_eq_some.mp hparsed
    refine ⟨hexPair b, rest, begins_iff.mpr ⟨b, parsed.traceId, parsed.spanId,
      flags, ⟨rfl, hff⟩, htrace, hspan, htext⟩, ?_⟩
    by_cases hb : b = 0
    · exact .inl (hlong hb)
    · exact .inr (mt (hfirst b).mp hb)
  · rintro ⟨version, rest, hbegins, hrest⟩
    obtain ⟨b, traceId, spanId, flags, ⟨rfl, hff⟩, htrace, hspan, htext⟩ :=
      begins_iff.mp hbegins
    refine ⟨⟨traceId, spanId, _⟩, parseTraceparent_eq_some.mpr
      ⟨b, flags, rest, htext, hff, fun hb => ?_, htrace, hspan, rfl⟩⟩
    exact hrest.resolve_right fun hne => hne ((hfirst b).mpr hb)

/-- The fields are in one place. -/
theorem Begins.eq {text version rest : Str} (h : Begins text version rest) :
    version = text.take 2 ∧ rest = text.drop 55 := by
  obtain ⟨b, traceId, spanId, flags, ⟨rfl, -⟩, -, -, rfl⟩ := begins_iff.mp h
  have hlength : (fieldsText b traceId spanId flags).length = 55 := by
    simp [fieldsText, TraceId.toHex, SpanId.toHex, length_hex, hexPair]
  exact ⟨rfl, (List.drop_left' hlength).symm⟩

/-- Exactly the form of the specification is accepted, unless something else
than a dash follows the fields of a version above `00`. -/
theorem parseTraceparent_accepts_iff (raw : Str) :
    ((parseTraceparent raw).isSome = true ↔ IsTraceparent (trim raw)) ↔
      ∀ version rest, Begins (trim raw) version rest →
        version ≠ "00".toList → rest = [] ∨ rest.head? = some '-' := by
  rw [isSome_parseTraceparent_iff]
  constructor
  · intro h version rest hbegins hversion
    obtain ⟨version', rest', hbegins', hrest⟩ :=
      h.mp ⟨version, rest, hbegins, .inr hversion⟩
    rw [hbegins.eq.2, ← hbegins'.eq.2]
    exact hrest.imp_right And.right
  · intro h
    constructor
    · rintro ⟨version, rest, hbegins, hrest⟩
      refine ⟨version, rest, hbegins, hrest.elim .inl fun hversion => ?_⟩
      exact (h version rest hbegins hversion).imp_right
        fun hdash => ⟨hversion, hdash⟩
    · rintro ⟨version, rest, hbegins, hrest⟩
      exact ⟨version, rest, hbegins, hrest.imp_right And.left⟩

/-- Letters after the flags are accepted. -/
theorem parseTraceparent_accepts_letters :
    let raw :=
      "01-4bf92f3577b34da6a3ce929d0e0e4736-00f067aa0ba902b7-01x".toList
    trim raw = raw ∧ (parseTraceparent raw).isSome = true ∧
      ¬IsTraceparent raw := by
  refine ⟨by decide +kernel, by decide +kernel, ?_⟩
  rintro ⟨version, rest, hbegins, hrest⟩
  obtain ⟨rfl, rfl⟩ := hbegins.eq
  revert hrest
  decide +kernel

end Harmost.Telemetry
