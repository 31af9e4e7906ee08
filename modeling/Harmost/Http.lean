import Harmost.Support.EscapeAscii

/-!
# HTTP messages

The parts of the `http` crate that the proxy reads: methods, header names,
header values and header maps.  A header name is a lower-case token and a header
value holds no control byte other than the horizontal tab; both carry the proof,
so a map built from them can only hold what the crate would accept.
-/

namespace Harmost.Http

open Harmost.Support

/-- `http::Method`. -/
inductive Method where
  | options
  | get
  | post
  | put
  | delete
  | head
  | trace
  | connect
  | patch
  | extension (name : Str)
  deriving DecidableEq, Repr

/-- `Method::as_str`. -/
def Method.asStr : Method → Str
  | .options => "OPTIONS".toList
  | .get => "GET".toList
  | .post => "POST".toList
  | .put => "PUT".toList
  | .delete => "DELETE".toList
  | .head => "HEAD".toList
  | .trace => "TRACE".toList
  | .connect => "CONNECT".toList
  | .patch => "PATCH".toList
  | .extension name => name

/-- The characters of an RFC 9110 token. -/
def isTokenChar (c : Char) : Bool :=
  c.isAlphanum || c ∈ "!#$%&'*+-.^_`|~".toList

/-- `str::parse::<Method>`: any token is a method, known or not. -/
def Method.parse (s : Str) : Option Method :=
  if s = "OPTIONS".toList then some .options
  else if s = "GET".toList then some .get
  else if s = "POST".toList then some .post
  else if s = "PUT".toList then some .put
  else if s = "DELETE".toList then some .delete
  else if s = "HEAD".toList then some .head
  else if s = "TRACE".toList then some .trace
  else if s = "CONNECT".toList then some .connect
  else if s = "PATCH".toList then some .patch
  else if !s.isEmpty && s.all isTokenChar then some (.extension s)
  else none

/-! ## Header names -/

/-- What `HeaderName::from_bytes` accepts. -/
def isHeaderName (name : Str) : Bool :=
  !name.isEmpty && decide (byteLen name ≤ 65535) && name.all isTokenChar

/-- A parsed header name: a token, folded to lower case. -/
structure HeaderName where
  text : Str
  isName : isHeaderName text = true
  isLower : toAsciiLowercase text = text
  deriving DecidableEq

/-! ## Header values -/

/-- The bytes a header value may hold: visible ASCII, space, horizontal tab and
obs-text. -/
def isValueByte (b : UInt8) : Bool :=
  b == 0x09 || (decide (0x20 ≤ b) && b != 0x7f)

/-- `http::HeaderValue`. -/
structure HeaderValue where
  bytes : List UInt8
  isValue : bytes.all isValueByte = true
  deriving DecidableEq

theorem HeaderValue.ext_bytes {value value' : HeaderValue}
    (h : value.bytes = value'.bytes) : value = value' := by
  cases value
  cases value'
  simp_all

/-! ## Header maps -/

/-- `http::HeaderMap`: header lines in the order they were received. -/
abbrev HeaderMap := List (HeaderName × HeaderValue)

/-- `HeaderMap::get_all`.  Names compare without regard to ASCII case, and a
text that is no header name has no values. -/
def HeaderMap.getAll (headers : HeaderMap) (name : Str) : List HeaderValue :=
  (headers.filter fun line => line.1.text == toAsciiLowercase name).map Prod.snd

@[simp] theorem HeaderMap.getAll_toAsciiLowercase (headers : HeaderMap)
    (name : Str) :
    HeaderMap.getAll headers (toAsciiLowercase name) =
      HeaderMap.getAll headers name := by
  simp [HeaderMap.getAll]

@[simp] theorem HeaderMap.getAll_nil (name : Str) :
    HeaderMap.getAll [] name = [] :=
  rfl

theorem HeaderMap.getAll_cons (line : HeaderName × HeaderValue)
    (headers : HeaderMap) (name : Str) :
    HeaderMap.getAll (line :: headers) name =
      if line.1.text = toAsciiLowercase name then
        line.2 :: HeaderMap.getAll headers name
      else HeaderMap.getAll headers name := by
  unfold HeaderMap.getAll
  rw [List.filter_cons]
  split_ifs <;> simp_all

/-- Lines of a single name. -/
theorem HeaderMap.getAll_map (line : HeaderName) (values : List HeaderValue)
    (name : Str) :
    HeaderMap.getAll (values.map fun value => (line, value)) name =
      if line.text = toAsciiLowercase name then values else [] := by
  induction values with
  | nil => simp
  | cons value values ih =>
      rw [List.map_cons, HeaderMap.getAll_cons, ih]
      split_ifs <;> rfl

/-- `HeaderMap::contains_key`. -/
def HeaderMap.containsKey (headers : HeaderMap) (name : Str) : Bool :=
  !(HeaderMap.getAll headers name).isEmpty

end Harmost.Http
