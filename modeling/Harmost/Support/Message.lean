import Harmost.Support.Reader
import Harmost.Support.Utf8

/-!
# Messages with a length

A start line, header lines and a body whose length a header gives, as HTTP/1.1
puts them on a connection.  The reader is a strict one: a line ends with a
carriage return and a line feed, neither of which stands anywhere else in it,
and exactly one header says how long the body is.  What is written is read
back, and reading stops where the message ends.
-/

namespace Harmost.Support

structure Message where
  start : Str
  headers : List (Str × Str)
  body : List UInt8
  deriving DecidableEq

namespace Message

def crlf : Str :=
  ['\r', '\n']

def headerLine (header : Str × Str) : Str :=
  header.1 ++ ':' :: ' ' :: (header.2 ++ crlf)

/-- All that comes before the body. -/
def head (start : Str) (headers : List (Str × Str)) : Str :=
  start ++ crlf ++ headers.flatMap headerLine ++ crlf

def write (message : Message) : List UInt8 :=
  utf8 (head message.start message.headers) ++ message.body

/-! ## Reading -/

/-- The bytes of a line, and what follows it. -/
def cutLine : List UInt8 → Option (List UInt8 × List UInt8)
  | [] => none
  | b :: rest =>
      if b = 13 then
        if rest.head? = some 10 then some ([], rest.tail) else none
      else if b = 10 then none
      else (cutLine rest).map fun (line, rest) => (b :: line, rest)

def readLine (bytes : List UInt8) : Option (Str × List UInt8) := do
  let (line, rest) ← cutLine bytes
  let line ← fromUtf8 line
  return (line, rest)

def isBlank (c : Char) : Bool :=
  c == ' ' || c == '\t'

def readHeader (line : Str) : Option (Str × Str) := do
  let (name, value) ← splitOnce ':' line
  if name.isEmpty then none else some (name, trimMatches isBlank value)

def readHeaders : ℕ → List UInt8 → Option (List (Str × Str) × List UInt8)
  | 0, _ => none
  | fuel + 1, bytes => do
      let (line, rest) ← readLine bytes
      if line.isEmpty then return ([], rest)
      let header ← readHeader line
      let (headers, rest) ← readHeaders fuel rest
      return (header :: headers, rest)

/-- Is the name of a header this one, in small letters? -/
def named (name : String) (header : Str × Str) : Bool :=
  toAsciiLowercase header.1 == name.toList

/-- The length that the headers give to the body: there is one
`Content-Length`, and no `Transfer-Encoding` beside it. -/
def bodyLength (headers : List (Str × Str)) : Option ℕ :=
  if headers.any (named "transfer-encoding") then none
  else
    match headers.filter (named "content-length") with
    | [(_, value)] =>
        if value.isEmpty || !value.all Char.isDigit then none
        else some (digitsValue value)
    | _ => none

/-- The message at the beginning of some bytes, and the bytes after it. -/
def read (bytes : List UInt8) : Option (Message × List UInt8) := do
  let (start, rest) ← readLine bytes
  let (headers, rest) ← readHeaders (rest.length + 1) rest
  let length ← bodyLength headers
  if rest.length < length then none
  else some (⟨start, headers, rest.take length⟩, rest.drop length)

/-! ## Reading what is written -/

/-- Neither end of a line is in a text. -/
def OneLine (text : Str) : Prop :=
  '\r' ∉ text ∧ '\n' ∉ text

theorem oneLine_append {text text' : Str} :
    OneLine (text ++ text') ↔ OneLine text ∧ OneLine text' := by
  simp only [OneLine, List.mem_append, not_or]
  exact and_and_and_comm

structure HeaderOk (header : Str × Str) : Prop where
  name : OneLine header.1
  value : OneLine header.2
  ne_nil : header.1 ≠ []
  noColon : ':' ∉ header.1
  noBlank : ∀ c ∈ header.2, isBlank c = false

structure Ok (message : Message) : Prop where
  start : OneLine message.start
  headers : ∀ header ∈ message.headers, HeaderOk header
  length : bodyLength message.headers = some message.body.length

theorem cutLine_append {line : List UInt8} (hcr : 13 ∉ line) (hlf : 10 ∉ line)
    (rest : List UInt8) :
    cutLine (line ++ 13 :: 10 :: rest) = some (line, rest) := by
  induction line with
  | nil => rfl
  | cons b line ih =>
      obtain ⟨hb, hcr⟩ := List.ne_and_not_mem_of_not_mem_cons hcr
      obtain ⟨hb', hlf⟩ := List.ne_and_not_mem_of_not_mem_cons hlf
      rw [List.cons_append, cutLine, if_neg (Ne.symm hb), if_neg (Ne.symm hb'),
        ih hcr hlf]
      rfl

/-- An ASCII byte of an encoding is a character of the text. -/
theorem mem_of_mem_utf8 {text : Str} {b : UInt8} (hb : b.toNat < 0x80)
    (h : b ∈ utf8 text) : Char.ofNat b.toNat ∈ text := by
  obtain ⟨front, back, heq⟩ := List.append_of_mem h
  have hdecode := Utf8.decodeFrom_utf8 text
  rw [heq, Utf8.decodeFrom_append_ascii none front hb] at hdecode
  have hmem : some (Char.ofNat b.toNat) ∈ text.map some := by
    rw [← hdecode]
    exact List.mem_append_right _ List.mem_cons_self
  obtain ⟨c, hc, hsome⟩ := List.mem_map.mp hmem
  exact Option.some.inj hsome ▸ hc

theorem utf8_crlf : utf8 crlf = [13, 10] := by
  decide

theorem readLine_append {line : Str} (h : OneLine line) (rest : List UInt8) :
    readLine (utf8 (line ++ crlf) ++ rest) = some (line, rest) := by
  have hcut : cutLine (utf8 line ++ 13 :: 10 :: rest) =
      some (utf8 line, rest) :=
    cutLine_append (fun hmem => h.1 (mem_of_mem_utf8 (by decide) hmem))
      (fun hmem => h.2 (mem_of_mem_utf8 (by decide) hmem)) rest
  rw [utf8_append, utf8_crlf, List.append_assoc]
  simp only [readLine, List.cons_append, List.nil_append, hcut, fromUtf8_utf8,
    Option.bind_eq_bind, Option.bind_some]
  rfl

theorem readHeader_append {header : Str × Str} (h : HeaderOk header) :
    readHeader (header.1 ++ ':' :: ' ' :: header.2) = some header := by
  have htrim : trimMatches isBlank (' ' :: header.2) = header.2 := by
    have hspace : ∀ c ∈ [' '], isBlank c = true := by simp [isBlank]
    have hpad := trimMatches_pad hspace h.noBlank (List.forall_mem_nil _)
    rwa [List.append_nil] at hpad
  simp only [readHeader, splitOnce_append_cons h.noColon, Option.bind_eq_bind,
    Option.bind_some, List.isEmpty_eq_false_iff.mpr h.ne_nil, htrim]
  rfl

theorem HeaderOk.oneLine {header : Str × Str} (h : HeaderOk header) :
    OneLine (header.1 ++ ':' :: ' ' :: header.2) := by
  have hsep : OneLine [':', ' '] := by simp [OneLine]
  exact oneLine_append.mpr ⟨h.name, (oneLine_append.mpr ⟨hsep, h.value⟩ :)⟩

theorem readHeaders_append {headers : List (Str × Str)}
    (h : ∀ header ∈ headers, HeaderOk header) {fuel : ℕ}
    (hfuel : headers.length < fuel) (rest : List UInt8) :
    readHeaders fuel (utf8 (headers.flatMap headerLine ++ crlf) ++ rest) =
      some (headers, rest) := by
  induction headers generalizing fuel with
  | nil =>
      obtain ⟨fuel, rfl⟩ := Nat.exists_eq_add_of_lt hfuel
      have hline := readLine_append (by simp [OneLine] : OneLine []) rest
      simp only [readHeaders, List.flatMap_nil, hline, Option.bind_eq_bind,
        Option.bind_some]
      rfl
  | cons header headers ih =>
      obtain ⟨hheader, hheaders⟩ := List.forall_mem_cons.mp h
      obtain ⟨fuel, rfl⟩ := Nat.exists_eq_add_of_lt hfuel
      have hsplit : utf8 ((header :: headers).flatMap headerLine ++ crlf) ++
            rest =
          utf8 ((header.1 ++ ':' :: ' ' :: header.2) ++ crlf) ++
            (utf8 (headers.flatMap headerLine ++ crlf) ++ rest) := by
        rw [← List.append_assoc, ← utf8_append]
        simp [headerLine]
      have hne : (header.1 ++ ':' :: ' ' :: header.2).isEmpty = false :=
        List.isEmpty_eq_false_iff.mpr (List.append_ne_nil_of_right_ne_nil _
          (List.cons_ne_nil _ _))
      have hrest := ih hheaders
        (by rw [List.length_cons]; omega :
          headers.length < (header :: headers).length + fuel)
      rw [hsplit, readHeaders]
      simp only [readLine_append hheader.oneLine, readHeader_append hheader,
        hrest, hne, Option.bind_eq_bind, Option.bind_some]
      rfl

theorem length_le_flatMap_headerLine (headers : List (Str × Str)) :
    headers.length ≤ (utf8 (headers.flatMap headerLine)).length := by
  induction headers with
  | nil => exact Nat.zero_le _
  | cons header headers ih =>
      have hline : utf8 (headerLine header) =
          utf8 (header.1 ++ ':' :: ' ' :: header.2) ++ utf8 crlf := by
        rw [← utf8_append]
        simp [headerLine]
      rw [List.flatMap_cons, utf8_append, hline, utf8_crlf]
      simp only [List.length_append, List.length_cons, List.length_nil]
      omega

/-- A message is read back from what is written of it, and nothing of what
follows is taken for a part of it. -/
theorem read_write {message : Message} (h : message.Ok) (rest : List UInt8) :
    read (message.write ++ rest) = some (message, rest) := by
  have hsplit : message.write ++ rest =
      utf8 (message.start ++ crlf) ++
        (utf8 (message.headers.flatMap headerLine ++ crlf) ++
          (message.body ++ rest)) := by
    simp [write, head, utf8_append]
  have hfuel : message.headers.length <
      (utf8 (message.headers.flatMap headerLine ++ crlf) ++
        (message.body ++ rest)).length + 1 := by
    have hle := length_le_flatMap_headerLine message.headers
    rw [List.length_append, utf8_append, List.length_append]
    omega
  rw [hsplit, read]
  simp only [readLine_append h.start, readHeaders_append h.headers hfuel,
    h.length, Option.bind_eq_bind, Option.bind_some]
  rw [if_neg (by simp), List.take_left, List.drop_left]

end Message

end Harmost.Support
