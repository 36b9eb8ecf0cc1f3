import Blocklist.Json.Codec

/-!
# Resource types

The kinds of request a rule can name. A type has two names: the one the engine reads, and the one a
filter list writes in its options. The order of `ResourceType.all` is the order of the types' bits in
a mask.
-/

namespace Blocklist

/-- A kind of request. -/
inductive ResourceType where
  | script
  | image
  | stylesheet
  | object
  | xmlhttprequest
  | subFrame
  | ping
  | websocket
  | webtransport
  | mainFrame
  | font
  | media
  | other
  deriving DecidableEq, Repr, Inhabited

namespace ResourceType

/-- Every type, in the order of the bits. -/
def all : List ResourceType :=
  [script, image, stylesheet, object, xmlhttprequest, subFrame, ping, websocket, webtransport,
    mainFrame, font, media, other]

/-- The types of a rule that names none. -/
def defaults : List ResourceType :=
  [script, image, xmlhttprequest, subFrame, stylesheet, font, media]

/-- The name of a type in the engine. -/
def name : ResourceType → String
  | script => "script"
  | image => "image"
  | stylesheet => "stylesheet"
  | object => "object"
  | xmlhttprequest => "xmlhttprequest"
  | subFrame => "sub_frame"
  | ping => "ping"
  | websocket => "websocket"
  | webtransport => "webtransport"
  | mainFrame => "main_frame"
  | font => "font"
  | media => "media"
  | other => "other"

/-- The name of a type in filter options. -/
def optionName : ResourceType → String
  | subFrame => "subdocument"
  | webtransport => "webrtc"
  | mainFrame => "document"
  | type => type.name

/-- The type with a name in the engine. -/
def named? (name : String) : Option ResourceType :=
  all.find? fun type => type.name == name

/-- The type with a name in filter options. -/
def ofOptionName? (name : String) : Option ResourceType :=
  all.find? fun type => type.optionName == name

/-- The bit of a type in a mask. -/
def bit (type : ResourceType) : Nat :=
  1 <<< all.idxOf type

/-- The mask of a list of distinct types. -/
def mask (types : List ResourceType) : Nat :=
  types.foldr (fun type n => type.bit + n) 0

instance : JsonCodec ResourceType where
  encode type := .string type.name
  decode? := Json.choice? named?

end ResourceType

end Blocklist
