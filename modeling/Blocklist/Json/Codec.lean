import Blocklist.Json.Basic

/-!
# Values as JSON

How the values of this library stand in JSON, as a class with an encoder and a decoder. Numbers must
be integers of their range. An absent value is `null`. A record is an object of its fields, or an
array of them in their order; an object may hold other members too, but no field twice. One of
several names is a string, or an object of that one name with `null` under it.

## Implementation notes

`slots` brings both forms of a record to one list, with `none` for a field that is not given. A
decoder then takes each slot by the rule of its field: `required`, or `withDefault`.
-/

namespace Blocklist

/-- Values that stand in JSON. -/
class JsonCodec (α : Type) where
  /-- The JSON form of a value. -/
  encode : α → Json
  /-- The value of a JSON form, if it is one. -/
  decode? : Json → Option α

namespace Json

/-- Decode a value of a type. -/
def as? (α : Type) [JsonCodec α] (v : Json) : Option α :=
  JsonCodec.decode? v

/-- Encode a value. -/
def of {α : Type} [JsonCodec α] (a : α) : Json :=
  JsonCodec.encode a

/-- An integer within bounds. -/
def intWithin? (low high : Int) : Json → Option Int
  | .number (.integer n) => if low ≤ n ∧ n ≤ high then some n else none
  | _ => none

instance : JsonCodec String where
  encode := .string
  decode?
    | .string s => some s
    | _ => none

instance : JsonCodec Bool where
  encode := .bool
  decode?
    | .bool b => some b
    | _ => none

instance : JsonCodec UInt64 where
  encode n := .ofNat n.toNat
  decode? v := (v.intWithin? 0 (UInt64.size - 1 : Nat)).map fun n => UInt64.ofNat n.toNat

instance : JsonCodec UInt32 where
  encode n := .ofNat n.toNat
  decode? v := (v.intWithin? 0 (UInt32.size - 1 : Nat)).map fun n => UInt32.ofNat n.toNat

instance : JsonCodec Int32 where
  encode n := .number (.integer n.toInt)
  decode? v := (v.intWithin? Int32.minValue.toInt Int32.maxValue.toInt).map Int32.ofInt

instance {α : Type} [JsonCodec α] : JsonCodec (List α) where
  encode as := .array (as.map JsonCodec.encode)
  decode?
    | .array items => items.mapM JsonCodec.decode?
    | _ => none

instance {α : Type} [JsonCodec α] : JsonCodec (Option α) where
  encode
    | some a => JsonCodec.encode a
    | none => .null
  decode?
    | .null => some none
    | v => (JsonCodec.decode? v).map some

instance {α : Type} [JsonCodec α] : JsonCodec (Dict α) where
  encode d := .object (d.entries.map fun e => (e.1, JsonCodec.encode e.2))
  decode?
    | .object members =>
      (members.mapM fun m => (JsonCodec.decode? m.2).map fun a => (m.1, a)).map Dict.ofList
    | _ => none

/-- The fields of a record in their order, `none` where one is not given. -/
def slots (fields : List String) : Json → Option (List (Option Json))
  | .array items =>
    if items.length ≤ fields.length then some (fields.mapIdx fun i _ => items[i]?) else none
  | .object members =>
    if fields.all fun field => members.countP (·.1 == field) ≤ 1 then
      some (fields.map fun field => members.lookup field)
    else none
  | _ => none

/-- A field that has to be given. -/
def required {α : Type} [JsonCodec α] (slot : Option Json) : Option α :=
  slot.bind JsonCodec.decode?

/-- A field that may be left out, and what it is then. -/
def withDefault {α : Type} [JsonCodec α] (a : α) (slot : Option Json) : Option α :=
  match slot with
  | none => some a
  | some v => JsonCodec.decode? v

/-- A member that is written only when there is a value. -/
def optionalMember {α : Type} [JsonCodec α] (name : String) (a : Option α) : List (String × Json) :=
  match a with
  | some a => [(name, JsonCodec.encode a)]
  | none => []

/-- One of several names. -/
def choice? {α : Type} (named? : String → Option α) : Json → Option α
  | .string name => named? name
  | .object [(name, .null)] => named? name
  | _ => none

end Json

end Blocklist
