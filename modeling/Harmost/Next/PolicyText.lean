import Harmost.Next.Explain
import Harmost.Support.Checks
import Harmost.Support.Double
import Harmost.Support.Json
import Harmost.Support.Quoting

/-!
# Reading `harmost.next.yaml`

The policy file has a small format of its own: two spaces for each level, one
`key: value` on a line, comments, quoted strings and inline lists.  It is read
line by line into a document, and the first line that does not fit is reported
with its number.
-/

namespace Harmost.Next

open Harmost.Support

/-- A value as it is written. -/
inductive Written where
  | null
  | text (value : Str)
  | bool (value : Bool)
  | number (value : Double)
  | list (items : List Str)
  deriving DecidableEq

/-- The fields of a route in the order they are written in. -/
structure WrittenRoute where
  fields : List (Str × Written) := []
  cache : Option (List (Str × Written)) := none
  deriving DecidableEq

structure Document where
  version : Written := .null
  routes : List (Str × WrittenRoute) := []
  deriving DecidableEq

namespace PolicyText

def routeFields : List Str :=
  ["privacy".toList, "weight".toList, "priority".toList, "methods".toList,
    "coalesce".toList, "cache".toList]

def cacheFields : List Str :=
  ["ttl".toList, "stale_if_error".toList, "query".toList, "vary".toList]

/-! ## Parts of a line -/

/-- A comment begins at the start of a line or after white space. -/
def startsComment (before : Option Char) (c : Char) : Bool :=
  c == '#' && before.all isJsSpace

def stripComment (line : Str) : Str :=
  (Quoting.cut startsComment {} none line).1.rdropWhile isJsSpace

def isColon (_ : Option Char) (c : Char) : Bool :=
  c == ':'

def splitPair (text : Str) : Except Str (Str × Str) :=
  match Quoting.cut isColon {} none text with
  | (key, some value) => .ok (jsTrim key, jsTrim value)
  | (_, none) => .error "expected `key: value`".toList

/-- `replaceAll("''", "'")`. -/
def halveQuotes : Str → Str
  | '\'' :: '\'' :: rest => '\'' :: halveQuotes rest
  | c :: rest => c :: halveQuotes rest
  | [] => []

/-- `slice(1, -1)`. -/
def inner (text : Str) : Str :=
  text.tail.dropLast

/-- `JSON.parse`.  Strings are made of whole characters here, so an escape that
is half of a surrogate pair is refused, although JavaScript lets it pass. -/
def doubleQuoted (text : Str) : Except Str Written :=
  match Json.parse text with
  | some (.string value) => .ok (.text value)
  | some _ => .error "expected a string".toList
  | none => .error "invalid double-quoted string".toList

def singleQuoted (text : Str) : Except Str Written :=
  if text.getLast? ≠ some '\'' ∨ text.length < 2 then
    .error "invalid quoted string".toList
  else .ok (.text (halveQuotes (inner text)))

/-- A value without quotes. -/
def plain (text : Str) : Written :=
  if text = "true".toList then .bool true
  else if text = "false".toList then .bool false
  else if text.all Char.isDigit then .number (.ofNat (digitsValue text))
  else .text text

def scalar (text : Str) : Except Str Written :=
  if text = [] then .ok .null
  else if text.head? = some '"' then doubleQuoted text
  else if text.head? = some '\'' then singleQuoted text
  else .ok (plain text)

def listItem (text : Str) : Except Str Str :=
  if jsTrim text = [] then .error "list contains an empty item".toList
  else
    (scalar (jsTrim text)).bind fun value =>
      match value with
      | .text value => .ok value
      | _ => .error "list items must be strings".toList

def closed (q : Quoting) (items : List Str) : Except Str (List Str) :=
  if q.quote.isSome then .error "unterminated quoted string".toList
  else .ok items

/-- The loop over the characters of a list; `item` is what has been read of
the current one.  An escape at the end swallows the last item. -/
def listItems (q : Quoting) (item : Str) : Str → Except Str (List Str)
  | [] =>
      if q.escaped then closed q []
      else (listItem item).bind fun value => closed q [value]
  | c :: rest =>
      if q.bare c && c == ',' then
        (listItem item).bind fun value =>
          (listItems q [] rest).map (value :: ·)
      else listItems (q.next c) (item ++ [c]) rest

def list (text : Str) : Except Str (List Str) :=
  if text.head? ≠ some '[' ∨ text.getLast? ≠ some ']' then
    .error "expected an inline list such as `[q, page]`".toList
  else if jsTrim (inner text) = [] then .ok []
  else listItems {} [] (jsTrim (inner text))

/-! ## Lines -/

structure Entry where
  indent : ℕ
  key : Str
  valueText : Str

def keyOf (text : Str) : Except Str Str :=
  (scalar text).bind fun key =>
    match key with
    | .text key =>
        if key = [] then .error "keys must be non-empty strings".toList
        else .ok key
    | _ => .error "keys must be non-empty strings".toList

/-- What is left of a line without its comment. -/
def entryOf (clean : Str) : Except Str Entry :=
  let indent := (clean.takeWhile isJsSpace).length
  if indent % 2 ≠ 0 then
    .error "indentation must use multiples of two spaces".toList
  else
    (splitPair (jsTrim clean)).bind fun pair =>
      (keyOf pair.1).map fun key => ⟨indent, key, pair.2⟩

/-- A line, or nothing if there is only a comment on it. -/
def lineEntry (original : Str) : Except Str (Option Entry) :=
  if original.contains '\t' then
    .error "tabs are not allowed; use two-space indentation".toList
  else if jsTrim (stripComment original) = [] then .ok none
  else (entryOf (stripComment original)).map some

/-! ## The document -/

/-- A route of this name is not a property of the object of routes but its
prototype. -/
def proto : Str :=
  "__proto__".toList

structure Reading where
  document : Document := {}
  /-- The fields of the prototype. -/
  hidden : WrittenRoute := {}
  inRoutes : Bool := false
  route : Option Str := none
  inCache : Bool := false
  seenVersion : Bool := false
  seenRoutes : Bool := false

/-- The fields of a route. -/
def Reading.fieldsOf (reading : Reading) (route : Str) : WrittenRoute :=
  if route = proto then reading.hidden
  else (reading.document.routes.lookup route).getD {}

def Reading.setFields (reading : Reading) (route : Str)
    (fields : WrittenRoute) : Reading :=
  if route = proto then { reading with hidden := fields }
  else
    { reading with
      document.routes := reading.document.routes.map fun entry =>
        if entry.1 = route then (route, fields) else entry }

def quoteName (name : Str) : Str :=
  "`".toList ++ name ++ "`".toList

def readTop (reading : Reading) (key valueText : Str) : Except Str Reading :=
  if key = "version".toList then
    if reading.seenVersion then .error "duplicate `version`".toList
    else
      (scalar valueText).map fun version =>
        { reading with
          document.version := version
          route := none
          inCache := false
          seenVersion := true }
  else if key = "routes".toList then
    if valueText ≠ [] then
      .error "`routes` must contain an indented mapping".toList
    else if reading.seenRoutes then .error "duplicate `routes`".toList
    else
      .ok { reading with
        inRoutes := true
        route := none
        inCache := false
        seenRoutes := true }
  else .error ("unknown top-level field ".toList ++ quoteName key)

def readRoute (reading : Reading) (name valueText : Str) :
    Except Str Reading :=
  if valueText ≠ [] then
    .error ("route ".toList ++ quoteName name ++
      " must contain an indented mapping".toList)
  else if (reading.document.routes.lookup name).isSome then
    .error ("duplicate route ".toList ++ quoteName name)
  else if name = proto then
    .ok { reading with hidden := {}, route := some name, inCache := false }
  else
    .ok { reading with
      document.routes := reading.document.routes ++ [(name, {})]
      route := some name
      inCache := false }

/-- A value that is a list in some fields. -/
def valueOf (isList : Bool) (valueText : Str) : Except Str Written :=
  if isList then (list valueText).map .list else scalar valueText

def WrittenRoute.has (fields : WrittenRoute) (key : Str) : Bool :=
  if key = "cache".toList then fields.cache.isSome
  else (fields.fields.lookup key).isSome

def readField (reading : Reading) (route key valueText : Str) :
    Except Str Reading :=
  if ¬routeFields.contains key then
    .error ("unknown route field ".toList ++ quoteName key)
  else if WrittenRoute.has (reading.fieldsOf route) key then
    .error ("duplicate field ".toList ++ quoteName key)
  else if key = "cache".toList then
    if valueText ≠ [] then
      .error "`cache` must contain an indented mapping".toList
    else
      .ok { reading.setFields route
          { reading.fieldsOf route with cache := some [] } with
        inCache := true }
  else
    (valueOf (key == "methods".toList) valueText).map fun value =>
      { reading.setFields route
          { reading.fieldsOf route with
            fields := (reading.fieldsOf route).fields ++ [(key, value)] } with
        inCache := false }

def readCacheField (reading : Reading) (route key valueText : Str) :
    Except Str Reading :=
  let cache := (reading.fieldsOf route).cache.getD []
  if ¬cacheFields.contains key then
    .error ("unknown cache field ".toList ++ quoteName key)
  else if (cache.lookup key).isSome then
    .error ("duplicate cache field ".toList ++ quoteName key)
  else
    (valueOf (key == "query".toList || key == "vary".toList) valueText).map
      fun value => reading.setFields route
        { reading.fieldsOf route with cache := some (cache ++ [(key, value)]) }

def readNested (reading : Reading) (route : Str) (entry : Entry) :
    Except Str Reading :=
  if entry.indent = 4 then readField reading route entry.key entry.valueText
  else if entry.indent = 6 ∧ reading.inCache then
    readCacheField reading route entry.key entry.valueText
  else .error "unexpected indentation or nesting".toList

def readEntry (reading : Reading) (entry : Entry) : Except Str Reading :=
  if entry.indent = 0 then readTop reading entry.key entry.valueText
  else if !reading.inRoutes then
    .error "only `routes` may contain nested fields".toList
  else if entry.indent = 2 then readRoute reading entry.key entry.valueText
  else
    match reading.route with
    | none => .error "route field appears before a route name".toList
    | some route => readNested reading route entry

def readLine (reading : Reading) (original : Str) : Except Str Reading :=
  (lineEntry original).bind fun found =>
    match found with
    | none => .ok reading
    | some entry => readEntry reading entry

/-- The start of an error, `file:line: `. -/
def located (file : Str) (line : ℕ) (message : Str) : Str :=
  file ++ ":".toList ++ decimal line ++ ": ".toList ++ message

/-- The loop over the lines, from the line `line` on. -/
def readLines (file : Str) (line : ℕ) (reading : Reading) :
    List Str → Except Str Reading
  | [] => .ok reading
  | original :: rest =>
      ((readLine reading original).mapError (located file line)).bind
        fun reading => readLines file (line + 1) reading rest

/-- `replaceAll('\r\n', '\n')`. -/
def unixLines : Str → Str
  | '\r' :: '\n' :: rest => '\n' :: unixLines rest
  | c :: rest => c :: unixLines rest
  | [] => []

def linesOf (raw : Str) : List Str :=
  (unixLines raw).splitOn '\n'

/-- `parsePolicy` up to its last line, the validation. -/
def readDocument (file raw : Str) : Except Str Document :=
  (readLines file 1 {} (linesOf raw)).map Reading.document

end PolicyText

end Harmost.Next
