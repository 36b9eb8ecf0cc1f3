import Blocklist.Fetch
import Blocklist.Text.Hexadecimal
import Blocklist.Text.Utf8

/-!
# Fetching over HTTP

The request that asks a server for a text, and the reply that its response stands for. A header value
holds no control characters but tabs. A server that has nothing new answers 304, one that delivers a
text answers with a status from 200 to 299, of which 204 stands for the empty text.

## Implementation notes

The address of a server is given apart from the rest of a URL. The rest is brought to its canonical
form: dots that lead nowhere are walked, and characters that may not stand in a request are escaped.
-/

namespace Blocklist.Http

/-- Whether a text may be the value of a header. -/
def isHeaderText (s : String) : Bool :=
  s.toList.all fun c => c == '\t' || (32 ≤ c.toNat && c.toNat ≠ 127)

/-- Whether a text may be the name of a header. -/
def isHeaderName (s : String) : Bool :=
  !s.isEmpty && s.toList.all fun c => c.isAlphanum || "!#$%&'*+-.^_`|~".toList.contains c

/-- Whether a header value is plain enough to be taken for a validator. -/
def isPlainText (s : String) : Bool :=
  s.toList.all fun c => c == '\t' || (32 ≤ c.toNat && c.toNat < 127)

/-- A blank around the value of a header. -/
def isHeaderBlank (c : Char) : Bool :=
  c == ' ' || c == '\t'

/-- A header value without the blanks around it. -/
def trimValue (s : String) : String :=
  String.ofList (((s.toList.dropWhile isHeaderBlank).reverse.dropWhile isHeaderBlank).reverse)

/-- What a server sends back. -/
structure Response where
  status : Nat
  /-- Names and values, in order. -/
  headers : List (String × String)
  body : List UInt8

namespace Response

/-- The value of the first header with a name; case does not matter. -/
def header? (r : Response) (name : String) : Option String :=
  (r.headers.find? fun h => h.1.toList.map Char.toLower == name.toList).map fun h => trimValue h.2

/-- Whether a client can make the response out: the status has three digits and is no interim one, and
every header may be one. -/
def isReadable (r : Response) : Bool :=
  (r.status == 101 || 200 ≤ r.status) && r.status < 1000 &&
    r.headers.all fun h => isHeaderName h.1 && isHeaderText h.2

/-- The text of the body. A byte order mark in front is left out, and status 204 has no body. -/
def text (r : Response) : String :=
  match Text.Utf8.decodeLossy (if r.status = 204 then [] else r.body) with
  | '\uFEFF' :: s => String.ofList s
  | s => String.ofList s

/-- Whether a response sends the client on to another address. -/
def isRedirect (r : Response) : Bool :=
  [301, 302, 303, 307, 308].contains r.status && (r.header? "location").isSome

/-- The reply that a response stands for. A server that always sends the client on never delivers. -/
def reply (r : Response) : Reply :=
  if !r.isReadable || r.isRedirect then .error .http
  else if r.status = 304 then .ok .notModified
  else if 200 ≤ r.status ∧ r.status < 300 then
    .ok (.fetched r.text ((r.header? "etag").filter isPlainText))
  else .error (.status r.status)

end Response

/-- The octets of a character as escapes. -/
def escaped (c : Char) : List Char :=
  (String.ofList [c]).toUTF8.toList.flatMap fun b => '%' :: Text.hexPair b.toNat

/-- Escape the characters that may not stand in a part of a request. -/
def escapeAll (special : List Char) (s : List Char) : List Char :=
  s.flatMap fun c => if c.toNat ≤ 32 || 127 ≤ c.toNat || special.contains c then escaped c else [c]

/-- One dot, as it may be written. -/
def isDot (part : List Char) : Bool :=
  [".", "%2e"].contains (String.ofList (part.map Char.toLower))

/-- Two dots, as they may be written. -/
def isTwoDots (part : List Char) : Bool :=
  ["..", ".%2e", "%2e.", "%2e%2e"].contains (String.ofList (part.map Char.toLower))

/-- Walk the parts of a path; `done` holds those kept, last one first. -/
def walk (done : List (List Char)) : List (List Char) → List (List Char)
  | [] => done.reverse
  | part :: rest =>
    if isTwoDots part then
      walk (if rest.isEmpty then [] :: done.drop 1 else done.drop 1) rest
    else if isDot part then walk (if rest.isEmpty then [] :: done else done) rest
    else walk (part :: done) rest

/-- The target of a request for what stands in a URL behind the address of the server, unless it
changes that address. -/
def target? (rest : String) : Option String :=
  let s := rest.toList.filter fun c => c ≠ '\t' && c ≠ '\n' && c ≠ '\r'
  let s := (s.reverse.dropWhile fun c => c.toNat ≤ 32).reverse
  let s := s.takeWhile (· ≠ '#')
  let (path, query) := s.span (· ≠ '?')
  let query := match query with
    | [] => []
    | q :: text => q :: escapeAll ['"', '#', '<', '>', '\''] text
  let path := path.map fun c => if c = '\\' then '/' else c
  match path with
  | [] => some (String.ofList ('/' :: query))
  | '/' :: path =>
    let parts := (walk [] (path.splitOn '/')).map
      (escapeAll ['"', '#', '<', '>', '`', '?', '\x7b', '\x7d'])
    some (String.ofList ('/' :: (List.intercalate ['/'] parts ++ query)))
  | _ => none

/-- What is sent to a server. -/
structure Message where
  target : String
  /-- The validator of the text that is already known. -/
  ifNoneMatch : Option String
  userAgent : String
  deriving DecidableEq, Repr

namespace Message

/-- The message that asks for a text, if there is one. -/
def of? (userAgent rest : String) (etag : Option String) : Option Message :=
  if etag.all isHeaderText then
    (target? rest).map fun target => ⟨target, etag.map trimValue, trimValue userAgent⟩
  else none

/-- The first line of a message. -/
def line (m : Message) : String :=
  s!"GET {m.target} HTTP/1.1"

end Message

end Blocklist.Http
