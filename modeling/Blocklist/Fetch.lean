/-!
# Fetching sources

What is asked of the server of a filter list, and what it may answer. A request that carries the
validator of an earlier answer may be answered by the word that nothing has changed.
-/

namespace Blocklist

/-- A request for the text of a list. -/
structure Request where
  url : String
  /-- The validator of the text that is already known. -/
  etag : Option String
  deriving DecidableEq, Repr, Inhabited

/-- What a server delivers. -/
inductive Download where
  | notModified
  | fetched (body : String) (etag : Option String)
  deriving DecidableEq, Repr, Inhabited

/-- Why nothing is delivered. -/
inductive FetchError where
  /-- No answer came. -/
  | http
  /-- The answer was a status that delivers nothing. -/
  | status (code : Nat)
  deriving DecidableEq, Repr, Inhabited

namespace FetchError

/-- The error in words. -/
def message : FetchError → String
  | .http => "HTTP request failed: no answer"
  | .status code => s!"Unexpected HTTP status {code}"

end FetchError

/-- The outcome of a request. -/
abbrev Reply := Except FetchError Download

namespace Reply

/-- Whether a reply is a failure. -/
def isFailure : Reply → Bool
  | .ok _ => false
  | .error _ => true

/-- Whether a reply brings a text. -/
def isText : Reply → Bool
  | .ok (.fetched _ _) => true
  | _ => false

/-- The validator that a reply brings. -/
def etag? : Reply → Option String
  | .ok (.fetched _ etag) => etag
  | _ => none

end Reply

end Blocklist
