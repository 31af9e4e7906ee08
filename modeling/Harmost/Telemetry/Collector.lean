import Harmost.Net.Forwarded
import Harmost.Support.Checks
import Harmost.Support.Message

/-!
# Posting to a collector

The endpoint is a URL that the operator writes.  Its authority and path go into
the head of every request as they stand, so what is accepted as an endpoint has
to leave the request one request.  Of the answer only the status matters, and
it is read from as many pieces as the connection delivers.
-/

namespace Harmost.Telemetry

open Harmost.Support Harmost.Net

/-- Where spans are posted. -/
structure Endpoint where
  host : Str
  port : ℕ
  path : Str
  authority : Str
  deriving DecidableEq

/-! ## The endpoint -/

def parsePort (raw : Str) : Except Str ℕ :=
  match parseUnsigned 16 raw with
  | none => .error ("`".toList ++ raw ++ "` is not a TCP port".toList)
  | some port =>
      if port = 0 then .error "port 0 is not a destination".toList
      else .ok port

/-- The host and the port of an authority.  An IPv6 literal is in brackets. -/
def parseAuthority (authority : Str) : Except Str (Str × ℕ) :=
  match authority with
  | '[' :: close =>
      match splitOnce ']' close with
      | none =>
          .error ("unterminated IPv6 literal in `".toList ++ authority ++
            "`".toList)
      | some (inside, after) =>
          match after with
          | [] => .ok (inside, 4318)
          | ':' :: port => (parsePort port).map fun port => (inside, port)
          | _ =>
              .error ("unexpected `".toList ++ after ++
                "` after the IPv6 literal".toList)
  | _ =>
      match rsplitOnce ':' authority with
      | some (host, port) => (parsePort port).map fun port => (host, port)
      | none => .ok (authority, 4318)

def refused (c : Char) : Bool :=
  decide (0x80 ≤ c.toNat) || decide (c.toNat ≤ 0x20) || c.toNat == 0x7f ||
    c == '#' || c == '\\'

/-- What follows the scheme. -/
def parseRest (rest : Str) : Except Str Endpoint :=
  let authority := rest.takeWhile (· != '/')
  let path := rest.dropWhile (· != '/')
  if authority.isEmpty then .error "the OTLP endpoint has no host".toList
  else if authority.contains '@' then
    .error "the OTLP endpoint must not carry userinfo".toList
  else if authority.contains '?' then
    .error "the OTLP endpoint authority contains a query".toList
  else do
    let (host, port) ← parseAuthority authority
    if host.isEmpty then .error "the OTLP endpoint has no host".toList
    else
      .ok { host, port, authority
            path := if path.isEmpty then "/v1/traces".toList else path }

/-- `parse_endpoint`. -/
def parseEndpoint (raw : Str) : Except Str Endpoint :=
  if raw ≠ trim raw then
    .error "the OTLP endpoint has leading or trailing whitespace".toList
  else if raw.any refused then
    .error ("the OTLP endpoint contains whitespace, control characters, " ++
      "a fragment, or a backslash").toList
  else if "https://".toList <+: raw then
    .error ("OTLP endpoints must be `http://`. This exporter is " ++
      "deliberately plaintext-only: run an OpenTelemetry Collector alongside " ++
      "Harmost and let it speak TLS onward, rather than have Harmost claim a " ++
      "transport it does not implement").toList
  else if "http://".toList <+: raw then
    if (raw.drop 7).isEmpty then .error "the OTLP endpoint has no host".toList
    else parseRest (raw.drop 7)
  else .error ("`".toList ++ raw ++ "` is not an http:// URL".toList)

example : parseEndpoint "http://[::1]:9000".toList =
    .ok ⟨"::1".toList, 9000, "/v1/traces".toList, "[::1]:9000".toList⟩ := by
  decide

/-! ## The request -/

/-- The head that `post` formats, for a crate of some version. -/
def postHead (version : Str) (endpoint : Endpoint) (body : Str) : Str :=
  "POST ".toList ++ endpoint.path ++ " HTTP/1.1\r\nHost: ".toList ++
    endpoint.authority ++
    "\r\nContent-Type: application/json\r\nContent-Length: ".toList ++
    decimal (byteLen body) ++ "\r\nUser-Agent: harmost/".toList ++ version ++
    "\r\nConnection: close\r\n\r\n".toList

/-- What `post` writes to the connection. -/
def posted (version : Str) (endpoint : Endpoint) (body : Str) : List UInt8 :=
  utf8 (postHead version endpoint body) ++ utf8 body

/-! ## The answer -/

def hasCrlf : List UInt8 → Bool
  | [] => false
  | b :: rest => (b == 13 && rest.head? == some 10) || hasCrlf rest

/-- Read until a line has ended, there are 512 bytes, or the peer has closed.
Each read returns a few bytes or fails. -/
def readAnswer (seen : List UInt8) :
    List (Except Str (List UInt8)) → Except Str (List UInt8)
  | [] => .ok seen
  | .error e :: _ => .error ("read: ".toList ++ e)
  | .ok [] :: _ => .ok seen
  | .ok (b :: bytes) :: reads =>
      let seen := seen ++ b :: bytes
      if hasCrlf seen || decide (512 ≤ seen.length) then .ok seen
      else readAnswer seen reads

/-- `str::split_whitespace`. -/
def splitWhitespace (s : Str) : List Str :=
  (s.splitOnP isWhitespace).filter fun word => !word.isEmpty

/-- The verdict on what was read. -/
def verdict (seen : List UInt8) : Except Str Unit :=
  let line := fromUtf8Lossy seen
  if (((splitWhitespace line)[1]?).getD []).head? = some '2' then .ok ()
  else
    .error ("collector answered `".toList ++ line.rdropWhile isWhitespace ++
      "`".toList)

/-- How the steps of a post turned out. -/
structure Exchange where
  connect : Except Str Unit
  writeHead : Except Str Unit
  writeBody : Except Str Unit
  reads : List (Except Str (List UInt8))

def attempt (exchange : Exchange) : Except Str Unit := do
  exchange.connect.mapError ("connect: ".toList ++ ·)
  exchange.writeHead.mapError ("write headers: ".toList ++ ·)
  exchange.writeBody.mapError ("write body: ".toList ++ ·)
  let seen ← readAnswer [] exchange.reads
  verdict seen

/-- The result of `post`; there is no exchange when it timed out. -/
def post (timeout : Str) : Option Exchange → Except Str Unit
  | some exchange => attempt exchange
  | none => .error ("timed out after ".toList ++ timeout)

/-! ## What is accepted as an endpoint -/

/-- What stands for a port behind a host: nothing, or a colon and a number. -/
def NamesPort (text : Str) (port : ℕ) : Prop :=
  text = [] ∧ port = 4318 ∨
    ∃ digits, text = ':' :: digits ∧ parseUnsigned 16 digits = some port

/-- An authority names a host and a port.  The host may stand in brackets;
otherwise a port is what follows the last colon, if there is one. -/
def Names (authority host : Str) (port : ℕ) : Prop :=
  host ≠ [] ∧ port ≠ 0 ∧
    if authority.head? = some '[' then
      ']' ∉ host ∧ ∃ text, authority = '[' :: host ++ ']' :: text ∧
        NamesPort text port
    else ∃ text, authority = host ++ text ∧ NamesPort text port ∧
      ':' ∉ text.tail ∧ (':' ∈ authority → text ≠ [])

/-- A path as it stands in a URL, where it can be left out. -/
def Spells (path : Str) (endpoint : Endpoint) : Prop :=
  path = endpoint.path ∧ path.head? = some '/' ∨
    path = [] ∧ endpoint.path = "/v1/traces".toList

variable {raw authority host port' : Str} {port : ℕ} {endpoint : Endpoint}

theorem parsePort_eq_ok (h : parsePort raw = .ok port) :
    parseUnsigned 16 raw = some port ∧ port ≠ 0 := by
  rw [parsePort] at h
  split at h
  · cases h
  · next port hport =>
      split_ifs at h with hzero
      cases h
      exact ⟨hport, hzero⟩

theorem rsplitOnce_eq_some {sep : Char} {s front back : Str}
    (h : rsplitOnce sep s = some (front, back)) :
    s = front ++ sep :: back ∧ sep ∉ back := by
  obtain ⟨⟨back', front'⟩, hsplit, hpair⟩ := Option.map_eq_some_iff.mp h
  obtain ⟨rfl, rfl⟩ := Prod.mk.inj hpair
  obtain ⟨heq, hback⟩ := splitOnce_eq_some hsplit
  refine ⟨?_, fun hmem => hback (List.mem_reverse.mp hmem)⟩
  simpa using congrArg List.reverse heq

theorem notMem_of_rsplitOnce_eq_none {sep : Char} {s : Str}
    (h : rsplitOnce sep s = none) : sep ∉ s := by
  have hsplit := Option.map_eq_none_iff.mp h
  rw [splitOnce_eq] at hsplit
  split_ifs at hsplit with hmem
  exact fun hin => hmem (List.mem_reverse.mpr hin)

theorem names_of_parseAuthority
    (h : parseAuthority authority = .ok (host, port)) (hhost : host ≠ []) :
    Names authority host port := by
  unfold parseAuthority at h
  split at h
  · next close =>
      split at h
      · cases h
      · next inside after hsplit =>
          obtain ⟨rfl, hinside⟩ := splitOnce_eq_some hsplit
          split at h
          · cases h
            exact ⟨hhost, by decide, hinside, [], rfl, .inl ⟨rfl, rfl⟩⟩
          · next digits =>
              obtain ⟨port', hport, heq⟩ := map_eq_ok.mp h
              cases heq
              obtain ⟨hnumber, hzero⟩ := parsePort_eq_ok hport
              exact ⟨hhost, hzero, hinside, _, rfl, .inr ⟨digits, rfl, hnumber⟩⟩
          · cases h
  · next hbracket =>
      have hhead : authority.head? ≠ some '[' := by
        intro heq
        obtain ⟨close, rfl⟩ := List.head?_eq_some_iff.mp heq
        exact hbracket close rfl
      split at h
      · next host' digits hsplit =>
          obtain ⟨port', hport, heq⟩ := map_eq_ok.mp h
          cases heq
          obtain ⟨hnumber, hzero⟩ := parsePort_eq_ok hport
          obtain ⟨rfl, hdigits⟩ := rsplitOnce_eq_some hsplit
          refine ⟨hhost, hzero, ?_⟩
          rw [if_neg hhead]
          exact ⟨_, rfl, .inr ⟨digits, rfl, hnumber⟩, hdigits,
            fun _ => List.cons_ne_nil _ _⟩
      · next hsplit =>
          cases h
          refine ⟨hhost, by decide, ?_⟩
          rw [if_neg hhead]
          exact ⟨[], (List.append_nil _).symm, .inl ⟨rfl, rfl⟩,
            List.not_mem_nil,
            fun hmem => absurd hmem (notMem_of_rsplitOnce_eq_none hsplit)⟩

theorem spells_of_parseRest {rest : Str} (h : parseRest rest = .ok endpoint) :
    Names endpoint.authority endpoint.host endpoint.port ∧
      ∃ path, rest = endpoint.authority ++ path ∧ Spells path endpoint := by
  simp only [parseRest] at h
  iterate 3 (split at h; · cases h)
  obtain ⟨⟨host, port⟩, hauthority, h⟩ := bind_eq_ok.mp h
  dsimp only at h
  split at h
  · cases h
  next hhost =>
  cases h
  refine ⟨names_of_parseAuthority hauthority (by simpa using hhost), _,
    (List.takeWhile_append_dropWhile).symm, ?_⟩
  cases hpath : rest.dropWhile (· != '/') with
  | nil => exact .inr ⟨rfl, rfl⟩
  | cons c path =>
      have hhead := List.head?_dropWhile_not (· != '/') rest
      rw [hpath] at hhead
      exact .inl ⟨rfl, congrArg some (by simpa using hhead)⟩

/-- No character of an accepted URL could end a line or a word. -/
theorem parseEndpoint_eq_ok (h : parseEndpoint raw = .ok endpoint) :
    (∀ c ∈ raw, refused c = false) ∧
      Names endpoint.authority endpoint.host endpoint.port ∧
      ∃ path, raw = "http://".toList ++ endpoint.authority ++ path ∧
        Spells path endpoint := by
  rw [parseEndpoint] at h
  split_ifs at h with htrim hrefused hhttps hhttp hempty
  obtain ⟨rest, rfl⟩ := hhttp
  obtain ⟨hnames, path, hrest, hspells⟩ := spells_of_parseRest h
  refine ⟨by simpa using hrefused, hnames, path, ?_, hspells⟩
  have hscheme : "http://".toList.length = 7 := by decide
  rw [List.append_assoc, ← hrest, ← hscheme, List.drop_left]

/-! ## One request -/

theorem ne_of_refused {c c' : Char} (h : refused c = false)
    (h' : refused c' = true) : c ≠ c' := by
  rintro rfl
  rw [h] at h'
  cases h'

/-- Nothing in a text ends a line or separates words. -/
def Plain (text : Str) : Prop :=
  ∀ c ∈ text, refused c = false

theorem Plain.notMem {text : Str} (h : Plain text) {c : Char}
    (hc : refused c = true) : c ∉ text :=
  fun hmem => ne_of_refused (h c hmem) hc rfl

theorem Plain.oneLine {text : Str} (h : Plain text) : Message.OneLine text :=
  ⟨h.notMem (by decide), h.notMem (by decide)⟩

theorem Plain.noBlank {text : Str} (h : Plain text) :
    ∀ c ∈ text, Message.isBlank c = false := by
  intro c hc
  have hspace : c ≠ ' ' := ne_of_refused (h c hc) (by decide)
  have htab : c ≠ '\t' := ne_of_refused (h c hc) (by decide)
  simp [Message.isBlank, hspace, htab]

theorem plain_append {text text' : Str} :
    Plain (text ++ text') ↔ Plain text ∧ Plain text' :=
  List.forall_mem_append

theorem plain_of_all {text : Str} (h : text.all (!refused ·) = true) :
    Plain text := by
  simpa [Plain] using h

theorem plain_decimal (n : ℕ) : Plain (decimal n) := by
  intro c hc
  obtain ⟨hlow, hhigh⟩ := Char.isDigit_iff_toNat.mp (isDigit_of_mem_decimal hc)
  simp only [refused, Bool.or_eq_false_iff, decide_eq_false_iff_not,
    beq_eq_false_iff_ne]
  have hzero : '0'.toNat = 48 := rfl
  have hnine : '9'.toNat = 57 := rfl
  refine ⟨⟨⟨⟨by omega, by omega⟩, by omega⟩, ?_⟩, ?_⟩
  · rintro rfl
    exact absurd hlow (by decide)
  · rintro rfl
    exact absurd hhigh (by decide)

/-- A header whose name is written in the program. -/
theorem headerOk_of_plain {name value : Str}
    (hname : name.all (fun c => !refused c && c != ':') = true)
    (hne : name ≠ []) (hvalue : Plain value) :
    Message.HeaderOk (name, value) := by
  have hplain : Plain name := by
    intro c hc
    have := List.all_eq_true.mp hname c hc
    simp_all
  refine ⟨hplain.oneLine, hvalue.oneLine, hne, ?_, hvalue.noBlank⟩
  intro hmem
  simpa using List.all_eq_true.mp hname ':' hmem

/-- The request that is posted. -/
def postMessage (version : Str) (endpoint : Endpoint) (body : Str) :
    Message where
  start := "POST ".toList ++ endpoint.path ++ " HTTP/1.1".toList
  headers :=
    [("Host".toList, endpoint.authority),
      ("Content-Type".toList, "application/json".toList),
      ("Content-Length".toList, decimal (byteLen body)),
      ("User-Agent".toList, "harmost/".toList ++ version),
      ("Connection".toList, "close".toList)]
  body := utf8 body

theorem posted_eq (version : Str) (endpoint : Endpoint) (body : Str) :
    posted version endpoint body =
      (postMessage version endpoint body).write := by
  unfold posted postHead postMessage Message.write Message.head
  simp [Message.headerLine, Message.crlf]

theorem bodyLength_postMessage (version : Str) (endpoint : Endpoint)
    (body : Str) :
    Message.bodyLength (postMessage version endpoint body).headers =
      some (utf8 body).length := by
  have hchunked : (postMessage version endpoint body).headers.any
      (Message.named "transfer-encoding") = false :=
    rfl
  have hone : (postMessage version endpoint body).headers.filter
      (Message.named "content-length") =
        [("Content-Length".toList, decimal (byteLen body))] :=
    rfl
  have hdigits : (decimal (byteLen body)).all Char.isDigit = true :=
    List.all_eq_true.mpr fun _ hc => isDigit_of_mem_decimal hc
  rw [Message.bodyLength, hchunked, hone, length_utf8]
  simp [hdigits, decimal_ne_nil]

theorem ok_postMessage {version : Str} (hversion : Plain version)
    (hpath : Plain endpoint.path) (hauthority : Plain endpoint.authority)
    (body : Str) : (postMessage version endpoint body).Ok where
  start := by
    have hmethod : Message.OneLine "POST ".toList := ⟨by decide, by decide⟩
    have hprotocol : Message.OneLine " HTTP/1.1".toList :=
      ⟨by decide, by decide⟩
    exact Message.oneLine_append.mpr
      ⟨Message.oneLine_append.mpr ⟨hmethod, hpath.oneLine⟩, hprotocol⟩
  headers := by
    have hagent : Plain ("harmost/".toList ++ version) :=
      plain_append.mpr ⟨plain_of_all (by decide), hversion⟩
    exact List.forall_iff_forall_mem.mp
      ⟨headerOk_of_plain (by decide) (by decide) hauthority,
        headerOk_of_plain (by decide) (by decide) (plain_of_all (by decide)),
        headerOk_of_plain (by decide) (by decide) (plain_decimal _),
        headerOk_of_plain (by decide) (by decide) hagent,
        headerOk_of_plain (by decide) (by decide) (plain_of_all (by decide))⟩
  length := bodyLength_postMessage version endpoint body

/-- Whatever URL was accepted as the endpoint, and whatever is posted, the
bytes on the connection are one request and nothing after it: a `POST` of that
body, to the target and the `Host` that spell the URL.  The connection goes to
the host and the port that the authority names. -/
theorem posted_one_request {version : Str} (hversion : Plain version)
    (h : parseEndpoint raw = .ok endpoint) (body : Str) :
    Names endpoint.authority endpoint.host endpoint.port ∧
    ∃ message path, Message.read (posted version endpoint body) =
        some (message, []) ∧
      message.start.splitOn ' ' =
        ["POST".toList, endpoint.path, "HTTP/1.1".toList] ∧
      message.headers.filter (Message.named "host") =
        [("Host".toList, endpoint.authority)] ∧
      message.body = utf8 body ∧
      raw = "http://".toList ++ endpoint.authority ++ path ∧
      Spells path endpoint := by
  obtain ⟨hplain, hnames, path, hraw, hspells⟩ := parseEndpoint_eq_ok h
  have hrest : Plain ("http://".toList ++ endpoint.authority ++ path) :=
    hraw ▸ hplain
  obtain ⟨hfront, hpath⟩ := plain_append.mp hrest
  have hauthority := (plain_append.mp hfront).2
  have hpath' : Plain endpoint.path := by
    rcases hspells with ⟨heq, -⟩ | ⟨-, hdefault⟩
    · exact heq ▸ hpath
    · rw [hdefault]
      exact plain_of_all (by decide)
  have hread := Message.read_write
    (ok_postMessage hversion hpath' hauthority body) []
  rw [List.append_nil, ← posted_eq] at hread
  refine ⟨hnames, _, path, hread, ?_, rfl, rfl, hraw, hspells⟩
  have hparts : ∀ part ∈ ["POST".toList, endpoint.path, "HTTP/1.1".toList],
      ' ' ∉ part :=
    List.forall_mem_cons.mpr ⟨by decide, List.forall_mem_cons.mpr
      ⟨hpath'.notMem (by decide), List.forall_mem_singleton.mpr (by decide)⟩⟩
  exact List.splitOn_intercalate ' ' hparts (List.cons_ne_nil _ _)

theorem posted_one_request_ipv6 :
    Names "[::1]:9000".toList "::1".toList 9000 ∧
      ∃ message, Message.read (posted "1.0".toList ⟨"::1".toList, 9000,
          "/t?x".toList, "[::1]:9000".toList⟩ "{}".toList) =
            some (message, []) ∧
        message.start.splitOn ' ' =
          ["POST".toList, "/t?x".toList, "HTTP/1.1".toList] ∧
        message.headers.filter (Message.named "host") =
          [("Host".toList, "[::1]:9000".toList)] ∧
        message.body = utf8 "{}".toList := by
  obtain ⟨hnames, message, path, hread, hstart, hhost, hbody, -⟩ :=
    posted_one_request (plain_of_all (by decide) : Plain "1.0".toList)
      (by decide : parseEndpoint "http://[::1]:9000/t?x".toList =
        .ok ⟨"::1".toList, 9000, "/t?x".toList, "[::1]:9000".toList⟩)
      "{}".toList
  exact ⟨hnames, message, hread, hstart, hhost, hbody⟩

/-! ## The status -/

theorem mem_of_hasCrlf {bytes : List UInt8} (h : hasCrlf bytes = true) :
    13 ∈ bytes := by
  induction bytes with
  | nil => cases h
  | cons b bytes ih =>
      rw [hasCrlf, Bool.or_eq_true] at h
      rcases h with hhere | hlater
      · simp only [Bool.and_eq_true, beq_iff_eq] at hhere
        exact hhere.1 ▸ List.mem_cons_self
      · exact List.mem_cons_of_mem b (ih hlater)

/-- What is read is a beginning of the answer, and reading stops early only
after a line or 512 bytes. -/
theorem readAnswer_ok {chunks : List (List UInt8)} (hne : [] ∉ chunks)
    (seen : List UInt8) :
    ∃ seen', readAnswer seen (chunks.map .ok) = .ok seen' ∧
      seen' <+: seen ++ chunks.flatten ∧
      (seen' = seen ++ chunks.flatten ∨ hasCrlf seen' = true ∨
        512 ≤ seen'.length) := by
  induction chunks generalizing seen with
  | nil =>
      rw [List.flatten_nil, List.append_nil]
      exact ⟨seen, rfl, List.prefix_rfl, .inl rfl⟩
  | cons chunk chunks ih =>
      obtain ⟨hchunk, hchunks⟩ := List.ne_and_not_mem_of_not_mem_cons hne
      obtain ⟨b, bytes, rfl⟩ := List.exists_cons_of_ne_nil (Ne.symm hchunk)
      rw [List.flatten_cons, ← List.append_assoc, List.map_cons, readAnswer]
      split
      · next hstop =>
          rw [Bool.or_eq_true, decide_eq_true_eq] at hstop
          exact ⟨_, rfl, List.prefix_append _ _, .inr hstop⟩
      · exact ih hchunks (seen ++ b :: bytes)

theorem fromUtf8Lossy_utf8_append (text : Str) {b : UInt8}
    (hb : b.toNat < 0x80) (rest : List UInt8) :
    fromUtf8Lossy (utf8 text ++ b :: rest) =
      text ++ Char.ofNat b.toNat :: fromUtf8Lossy rest := by
  have hdecode : fromUtf8Lossy (utf8 text) = text := by
    rw [fromUtf8Lossy, Utf8.decodeFrom_utf8, List.map_map]
    exact List.map_id text
  rw [fromUtf8Lossy_append_ascii _ hb, hdecode]

theorem splitWhitespace_append {word rest : Str} {c : Char} (hne : word ≠ [])
    (hword : ∀ c ∈ word, isWhitespace c = false)
    (hc : isWhitespace c = true) :
    splitWhitespace (word ++ c :: rest) = word :: splitWhitespace rest := by
  rw [splitWhitespace, List.splitOnP_append_cons_of_forall_mem hword c hc rest,
    List.filter_cons_of_pos (by simpa using hne)]
  rfl

/-- Once the collector has taken the request, the post has succeeded if and
only if the status code begins with a `2`, in whatever pieces the answer
arrives, and whatever follows the code. -/
theorem post_eq_ok_iff (timeout : Str) {protocol code : Str}
    (hprotocol : protocol ≠ []) (hcode : code ≠ [])
    (hwords : ∀ c ∈ protocol ++ code, isWhitespace c = false)
    (hlength : byteLen protocol + byteLen code < 511) {sep : UInt8}
    (hsep : sep = 32 ∨ sep = 13) (rest : List UInt8)
    {chunks : List (List UInt8)} (hne : [] ∉ chunks)
    (hchunks : chunks.flatten =
      utf8 (protocol ++ ' ' :: code) ++ sep :: rest) :
    post timeout (some ⟨.ok (), .ok (), .ok (), chunks.map .ok⟩) = .ok () ↔
      code.head? = some '2' := by
  obtain ⟨hprotocol', hcode'⟩ := List.forall_mem_append.mp hwords
  obtain ⟨seen, hread, hprefix, hstop⟩ := readAnswer_ok hne []
  rw [List.nil_append, hchunks] at hprefix hstop
  have hfront : 13 ∉ utf8 (protocol ++ ' ' :: code) := by
    intro hmem
    rcases List.mem_append.mp (Message.mem_of_mem_utf8 (by decide) hmem) with
      hmem | hmem
    · exact absurd (hprotocol' _ hmem) (by decide)
    · rcases List.mem_cons.mp hmem with heq | hmem
      · exact absurd heq (by decide)
      · exact absurd (hcode' _ hmem) (by decide)
  have hshort : (utf8 (protocol ++ ' ' :: code)).length < 512 := by
    have hspace : byteLen (' ' :: code) = 1 + byteLen code := byteLen_cons _ _
    rw [utf8_append, List.length_append, length_utf8, length_utf8, hspace]
    omega
  -- Whatever stopped the reading, it was not before the separator.
  have hlong : (utf8 (protocol ++ ' ' :: code)).length < seen.length := by
    rcases hstop with hall | hcrlf | hmany
    · rw [hall]
      simp
    · by_contra hle
      have hin := List.prefix_of_prefix_length_le hprefix
        (List.prefix_append _ _) (not_lt.mp hle)
      exact hfront (hin.subset (mem_of_hasCrlf hcrlf))
    · omega
  obtain ⟨rest', rfl⟩ : ∃ rest',
      seen = utf8 (protocol ++ ' ' :: code) ++ sep :: rest' := by
    have hfirst : utf8 (protocol ++ ' ' :: code) ++ [sep] <+:
        utf8 (protocol ++ ' ' :: code) ++ sep :: rest := by
      simp
    obtain ⟨rest', hrest'⟩ := List.prefix_of_prefix_length_le hfirst hprefix
      (by rw [List.length_append]; exact hlong)
    exact ⟨rest', by simpa using hrest'.symm⟩
  have hascii : sep.toNat < 0x80 := by
    rcases hsep with rfl | rfl <;> decide
  have hblank : isWhitespace (Char.ofNat sep.toNat) = true := by
    rcases hsep with rfl | rfl <;> decide
  have hsplit : (splitWhitespace (fromUtf8Lossy
      (utf8 (protocol ++ ' ' :: code) ++ sep :: rest')))[1]? = some code := by
    rw [fromUtf8Lossy_utf8_append _ hascii, List.append_assoc,
      List.cons_append, splitWhitespace_append hprotocol hprotocol' (by decide),
      splitWhitespace_append hcode hcode' hblank]
    rfl
  have hpost : post timeout (some ⟨.ok (), .ok (), .ok (),
      chunks.map .ok⟩) =
        verdict (utf8 (protocol ++ ' ' :: code) ++ sep :: rest') :=
    congrArg (· >>= verdict) hread
  rw [hpost, verdict, hsplit, Option.getD_some]
  split_ifs with htwo
  · exact iff_of_true rfl htwo
  · exact iff_of_false (by simp) htwo

/-- The status code itself arrives in two pieces. -/
theorem post_eq_ok_iff_split :
    post [] (some ⟨.ok (), .ok (), .ok (),
        [utf8 "HTTP/1.1 2".toList, utf8 "02 Accepted".toList].map .ok⟩) =
      .ok () ↔ "202".toList.head? = some '2' :=
  post_eq_ok_iff [] (by decide : "HTTP/1.1".toList ≠ [])
    (by decide : "202".toList ≠ [])
    (by
      have hall : ("HTTP/1.1".toList ++ "202".toList).all
          (!isWhitespace ·) = true := by decide
      intro c hc
      simpa using List.all_eq_true.mp hall c hc)
    (by decide) (.inl rfl)
    (utf8 "Accepted".toList) (by decide) (by decide)

end Harmost.Telemetry
