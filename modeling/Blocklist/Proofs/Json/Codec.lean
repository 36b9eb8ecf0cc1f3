import Blocklist.Json.Codec
import Blocklist.Proofs.Dict

/-!
# Values read back as they were written

Decoding the JSON form of a value gives the value, also after the form went through a store, which
merges members of one name and puts the members of an object in the order of their names. Both are
cases of a pass that a decoder does not notice.

## Implementation notes

`Transparent` says what a pass may do: it keeps plain values, works item by item, and leaves every
member of an object with distinct names under its name. A record is then decoded by its slots,
whatever the order of its members. `LawfulCodec` carries the law from the parts of a type to the
type.
-/

namespace Blocklist

namespace Json

/-- A pass over JSON values that no decoder notices. -/
structure Transparent (f : Json → Json) : Prop where
  null : f .null = .null
  bool : ∀ b, f (.bool b) = .bool b
  number : ∀ n, f (.number n) = .number n
  string : ∀ s, f (.string s) = .string s
  array : ∀ items, f (.array items) = .array (items.map f)
  slots : ∀ (fields : List String) {members : List (String × Json)},
    (members.map (·.1)).Nodup →
      (f (.object members)).slots fields = some (fields.map fun k => (members.lookup k).map f)
  dict : ∀ d : Dict Json, f (.object d.entries) = .object (d.map f).entries

/-- Looking up and then changing a value is looking up the changed value. -/
theorem lookup_map {α β : Type} (f : α → β) (entries : List (String × α)) (key : String) :
    (entries.map fun e => (e.1, f e.2)).lookup key = (entries.lookup key).map f := by
  induction entries with
  | nil => rfl
  | cons entry rest ih =>
      obtain ⟨name, a⟩ := entry
      simp only [List.map_cons, List.lookup_cons, ih]
      cases key == name <;> rfl

/-- An object with distinct names has each of its members in the slot of that name. -/
theorem slots_object (fields : List String) {members : List (String × Json)}
    (h : (members.map (·.1)).Nodup) :
    (Json.object members).slots fields = some (fields.map fun key => members.lookup key) := by
  have hcount : ∀ field ∈ fields, members.countP (·.1 == field) ≤ 1 := by
    intro field _
    have hle := List.nodup_iff_count_le_one.mp h field
    rwa [List.count, List.countP_map] at hle
  simp only [slots]
  rw [if_pos (List.all_eq_true.mpr fun field hfield => decide_eq_true (hcount field hfield))]

theorem mergedItems_eq (done items : List Json) :
    mergedItems done items = done.reverse ++ items.map merged := by
  induction items generalizing done with
  | nil => simp [mergedItems]
  | cons v rest ih => simp [mergedItems, ih]

theorem mergedMembers_eq (done members : List (String × Json)) :
    mergedMembers done members = done.reverse ++ members.map fun m => (m.1, m.2.merged) := by
  induction members generalizing done with
  | nil => simp [mergedMembers]
  | cons m rest ih => simp [mergedMembers, ih]

theorem merged_array (items : List Json) :
    (Json.array items).merged = .array (items.map merged) := by
  rw [merged, mergedItems_eq, List.reverse_nil, List.nil_append]

theorem merged_object (members : List (String × Json)) :
    (Json.object members).merged =
      .object (Dict.ofList (members.map fun m => (m.1, m.2.merged))).entries := by
  rw [merged, mergedMembers_eq, List.reverse_nil, List.nil_append]

theorem transparent_merged : Transparent merged where
  null := by rw [merged] <;> simp
  bool _ := by rw [merged] <;> simp
  number _ := by rw [merged] <;> simp
  string _ := by rw [merged] <;> simp
  array := merged_array
  slots fields members h := by
    have hkeys : ((members.map fun m => (m.1, m.2.merged)).map (·.1)).Nodup := by
      simpa [Function.comp_def] using h
    rw [merged_object, slots_object fields (Dict.nodup_keys _)]
    apply congrArg some
    apply List.map_congr_left
    intro key _
    exact (Dict.get?_ofList hkeys key).trans (lookup_map merged members key)
  dict d := by
    rw [merged_object]
    exact congrArg (fun d => Json.object d.entries) (Dict.ofList_entries (d.map merged))

end Json

/-- Types whose values are read back from their JSON form, whatever transparent pass it went
through. -/
class LawfulCodec (α : Type) [JsonCodec α] : Prop where
  as_of : ∀ {f : Json → Json}, Json.Transparent f → ∀ a : α, (f (Json.of a)).as? α = some a

/-- Types no value of which is read from `null`. -/
class NeverNull (α : Type) [JsonCodec α] : Prop where
  as_null : Json.null.as? α = none

namespace Json

variable {α : Type} [JsonCodec α] {f : Json → Json}

/-! ### Fields -/

theorem required_of [LawfulCodec α] (h : Transparent f) (a : α) :
    required (some (f (Json.of a))) = some a :=
  LawfulCodec.as_of h a

theorem withDefault_of [LawfulCodec α] (h : Transparent f) (a b : α) :
    withDefault b (some (f (Json.of a))) = some a :=
  LawfulCodec.as_of h a

theorem withDefault_none (a : α) : withDefault a none = some a :=
  rfl

/-! ### Plain values -/

instance : LawfulCodec String where
  as_of h s := by
    rw [Json.of, as?]
    unfold instJsonCodecString
    dsimp only
    rw [h.string]

instance : NeverNull String where
  as_null := rfl

instance : LawfulCodec Bool where
  as_of h b := by
    rw [Json.of, as?]
    unfold instJsonCodecBool
    dsimp only
    rw [h.bool]

instance : NeverNull Bool where
  as_null := rfl

theorem intWithin?_ofNat (h : Transparent f) {n bound : Nat} (hn : n ≤ bound) :
    (f (ofNat n)).intWithin? 0 bound = some (n : Int) := by
  rw [ofNat, h.number, intWithin?, if_pos ⟨by omega, by omega⟩]

instance : LawfulCodec UInt64 where
  as_of h n := by
    rw [Json.of, as?]
    unfold instJsonCodecUInt64
    dsimp only
    have hn : n.toNat ≤ UInt64.size - 1 := Nat.le_pred_of_lt n.toNat_lt
    rw [intWithin?_ofNat h hn]
    simp

instance : LawfulCodec UInt32 where
  as_of h n := by
    rw [Json.of, as?]
    unfold instJsonCodecUInt32
    dsimp only
    have hn : n.toNat ≤ UInt32.size - 1 := Nat.le_pred_of_lt n.toNat_lt
    rw [intWithin?_ofNat h hn]
    simp

instance : LawfulCodec Int32 where
  as_of h n := by
    rw [Json.of, as?]
    unfold instJsonCodecInt32
    dsimp only
    rw [h.number, intWithin?, if_pos ⟨n.minValue_le_toInt, n.toInt_le⟩]
    simp

/-! ### Lists, absent values, dictionaries -/

/-- Items that are read back one by one are read back together. -/
theorem mapM_map_eq_some {β γ : Type} {write : β → γ} {read : γ → Option β}
    (h : ∀ b, read (write b) = some b) (items : List β) :
    (items.map write).mapM read = some items := by
  induction items with
  | nil => rfl
  | cons b rest ih => simp [List.mapM_cons, h, ih]

instance [LawfulCodec α] : LawfulCodec (List α) where
  as_of {f} h items := by
    rw [Json.of, as?]
    unfold instJsonCodecList
    dsimp only
    rw [h.array]
    dsimp only
    rw [List.map_map]
    exact mapM_map_eq_some (LawfulCodec.as_of h) items

instance : NeverNull (List α) where
  as_null := rfl

/-- A value that is not `null` is read as a present one. -/
theorem as?_option {v : Json} (h : v ≠ .null) : v.as? (Option α) = (v.as? α).map some := by
  rw [as?, as?]
  unfold instJsonCodecOption
  cases v <;> first | rfl | exact absurd rfl h

instance [LawfulCodec α] [NeverNull α] : LawfulCodec (Option α) where
  as_of {f} h a := by
    cases a with
    | none => exact congrArg (as? (Option α)) h.null
    | some a =>
        have ha : (f (Json.of a)).as? α = some a := LawfulCodec.as_of h a
        have hnull : f (Json.of a) ≠ .null := by
          intro hnull
          rw [hnull, NeverNull.as_null] at ha
          exact Option.some_ne_none a ha.symm
        exact (as?_option hnull).trans (by rw [ha, Option.map_some])

theorem optionalMember_none (name : String) : optionalMember name (none : Option α) = [] :=
  rfl

theorem optionalMember_some (name : String) (a : α) :
    optionalMember name (some a) = [(name, Json.of a)] :=
  rfl

/-- A member that is written only for a present value is read as that value. -/
theorem withDefault_member [LawfulCodec α] [NeverNull α] (h : Transparent f) (a : α) :
    withDefault none (some (f (Json.of a))) = some (some a) :=
  withDefault_of h (some a) none

instance [LawfulCodec α] : LawfulCodec (Dict α) where
  as_of {f} h d := by
    have hread : (d.entries.map fun e => (e.1, f (Json.of e.2))).mapM
        (fun m => (as? α m.2).map fun a => (m.1, a)) = some d.entries :=
      mapM_map_eq_some (fun e => by rw [LawfulCodec.as_of h, Option.map_some]) d.entries
    have hform : f (Json.of d) = .object (d.entries.map fun e => (e.1, f (Json.of e.2))) :=
      (h.dict (d.map Json.of)).trans
        (by rw [Dict.entries_map, Dict.entries_map, List.map_map]; rfl)
    rw [hform]
    exact (congrArg (Option.map Dict.ofList) hread).trans (congrArg some d.ofList_entries)

end Json

end Blocklist
