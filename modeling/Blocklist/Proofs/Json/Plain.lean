import Blocklist.CompiledList
import Blocklist.Proofs.Json.Reading
import Blocklist.Proofs.Json.Records

/-!
# Everything is written as a plain value

The JSON form of every value of this library is plain, and not deep. So the text of the form is read
back as the form, also where a text is kept as a value, with the members of objects merged.

## Implementation notes

`PlainCodec` gives a bound on the depth of the JSON forms of a type. The bound of a record is one
more than the greatest one of its fields.
-/

namespace Blocklist

namespace Json

/-! ### Plain values are kept -/

theorem Plain.mono {n m : Nat} {v : Json} (h : Plain n v) (hle : n ≤ m) : Plain m v := by
  induction h generalizing m with
  | null => exact .null
  | bool b => exact .bool b
  | integer hlow hhigh => exact .integer hlow hhigh
  | string s => exact .string s
  | @array n items h ih =>
      obtain ⟨m, rfl⟩ : ∃ k, m = k + 1 := ⟨m - 1, by omega⟩
      exact .array fun v hv => ih v hv (by omega)
  | @object n members h ih =>
      obtain ⟨m, rfl⟩ : ∃ k, m = k + 1 := ⟨m - 1, by omega⟩
      exact .object fun e he => ih e he (by omega)

theorem allFitDepth_eq (n : Nat) (items : List Json) :
    allFitDepth n items = items.all (·.fitsDepth n) := by
  induction items with
  | nil => rfl
  | cons v rest ih => rw [allFitDepth, ih, List.all_cons]

theorem membersFitDepth_eq (n : Nat) (members : List (String × Json)) :
    membersFitDepth n members = members.all (·.2.fitsDepth n) := by
  induction members with
  | nil => rfl
  | cons m rest ih => rw [membersFitDepth, ih, List.all_cons]

theorem areUsable_eq (items : List Json) : areUsable items = items.all isUsable := by
  induction items with
  | nil => rfl
  | cons v rest ih => rw [areUsable, ih, List.all_cons]

theorem membersAreUsable_eq (members : List (String × Json)) :
    membersAreUsable members = members.all (·.2.isUsable) := by
  induction members with
  | nil => rfl
  | cons m rest ih => rw [membersAreUsable, ih, List.all_cons]

/-- A plain value keeps its depth, and every part of it stands for something. -/
theorem Plain.fits {n : Nat} {v : Json} (h : Plain n v) :
    v.fitsDepth n = true ∧ v.isUsable = true := by
  induction h with
  | null => exact ⟨rfl, rfl⟩
  | bool b => exact ⟨rfl, rfl⟩
  | integer hlow hhigh => exact ⟨rfl, rfl⟩
  | string s => exact ⟨rfl, rfl⟩
  | array h ih =>
      rw [fitsDepth, isUsable, allFitDepth_eq, areUsable_eq]
      constructor
      · simpa using fun v hv => (ih v hv).1
      · exact List.all_eq_true.mpr fun v hv => (ih v hv).2
  | object h ih =>
      rw [fitsDepth, isUsable, membersFitDepth_eq, membersAreUsable_eq]
      constructor
      · simpa using fun k v hv => (ih (k, v) hv).1
      · exact List.all_eq_true.mpr fun m hm => (ih m hm).2

/-- Merging a plain value leaves a plain value in which nothing is left to merge. -/
theorem Plain.merged {n : Nat} {v : Json} (h : Plain n v) :
    Plain n v.merged ∧ v.merged.merged = v.merged := by
  induction h with
  | null => exact ⟨transparent_merged.null ▸ .null, by simp only [transparent_merged.null]⟩
  | bool b => exact ⟨transparent_merged.bool b ▸ .bool b, by simp only [transparent_merged.bool]⟩
  | @integer _ i hlow hhigh =>
      have heq := transparent_merged.number (.integer i)
      exact ⟨heq ▸ .integer hlow hhigh, by simp only [heq]⟩
  | string s =>
      exact ⟨transparent_merged.string s ▸ .string s, by simp only [transparent_merged.string]⟩
  | @array _ items h ih =>
      rw [merged_array]
      constructor
      · apply Plain.array
        intro w hw
        obtain ⟨v, hv, rfl⟩ := List.mem_map.mp hw
        exact (ih v hv).1
      · rw [merged_array, List.map_map]
        congr 1
        exact List.map_congr_left fun v hv => (ih v hv).2
  | @object _ members h ih =>
      have hentry : ∀ e ∈ (Dict.ofList (members.map fun m => (m.1, m.2.merged))).entries,
          ∃ m ∈ members, e = (m.1, m.2.merged) := by
        intro e he
        obtain ⟨m, hm, rfl⟩ := List.mem_map.mp (Dict.mem_of_mem_ofList he)
        exact ⟨m, hm, rfl⟩
      rw [merged_object]
      constructor
      · apply Plain.object
        intro e he
        obtain ⟨m, hm, rfl⟩ := hentry e he
        exact (ih m hm).1
      · have hself : (Dict.ofList (members.map fun m => (m.1, m.2.merged))).entries.map
            (fun e => (e.1, e.2.merged)) =
              (Dict.ofList (members.map fun m => (m.1, m.2.merged))).entries := by
          refine (List.map_congr_left fun e he => ?_).trans (List.map_id _)
          obtain ⟨m, hm, rfl⟩ := hentry e he
          rw [(ih m hm).2]
          rfl
        rw [merged_object, hself, Dict.ofList_entries]

/-- The text of a plain value that is not too deep is kept as the merged value. -/
theorem Plain.valueOf?_eq {n : Nat} {v : Json} (h : Plain n v) (hn : n ≤ maxDepth) :
    valueOf? v.compact = some v.merged ∧ valueOf? v.indented = some v.merged := by
  obtain ⟨hcompact, hindented⟩ := h.ofText?_eq
  obtain ⟨hfits, husable⟩ := (h.mono hn).fits
  constructor
  · simp [valueOf?, hcompact, hfits, husable]
  · simp [valueOf?, hindented, hfits, husable]

end Json

/-- Types whose values have plain JSON forms. -/
class PlainCodec (α : Type) [JsonCodec α] where
  /-- A bound on the depth of the JSON forms. -/
  depth : Nat
  plain : ∀ a : α, Json.Plain depth (Json.of a)

namespace Json

variable {α : Type} [JsonCodec α] [PlainCodec α]

theorem plain_of {n : Nat} (h : PlainCodec.depth α ≤ n) (a : α) : Plain n (Json.of a) :=
  (PlainCodec.plain a).mono h

theorem plain_optionalMember {n : Nat} (h : PlainCodec.depth α ≤ n) (name : String)
    (a : Option α) : ∀ m ∈ optionalMember name a, Plain n m.2 := by
  cases a with
  | none => exact fun m hm => absurd hm List.not_mem_nil
  | some a =>
      intro m hm
      rw [List.mem_singleton.mp hm]
      exact plain_of h a

instance : PlainCodec String where
  depth := 0
  plain s := .string s

instance : PlainCodec Bool where
  depth := 0
  plain b := .bool b

/-- Integers that fit 64 bits, with a sign or without one, are plain. -/
theorem plain_integer {n : Nat} {i : Int} (hlow : -9223372036854775808 ≤ i)
    (hhigh : i < 18446744073709551616) : Plain n (.number (.integer i)) := by
  refine .integer ?_ hhigh
  rwa [show Int64.minValue.toInt = -9223372036854775808 by decide]

instance : PlainCodec UInt64 where
  depth := 0
  plain n := plain_integer (by omega) (by have := n.toNat_lt; omega)

instance : PlainCodec UInt32 where
  depth := 0
  plain n := plain_integer (by omega) (by have := n.toNat_lt; omega)

instance : PlainCodec Int32 where
  depth := 0
  plain n := plain_integer (by have := n.le_toInt; omega) (by have := n.toInt_lt; omega)

instance : PlainCodec (List α) where
  depth := PlainCodec.depth α + 1
  plain items := by
    apply Plain.array
    intro v hv
    obtain ⟨a, _, rfl⟩ := List.mem_map.mp hv
    exact PlainCodec.plain a

instance : PlainCodec (Option α) where
  depth := PlainCodec.depth α
  plain a := by
    cases a with
    | none => exact .null
    | some a => exact PlainCodec.plain a

instance : PlainCodec (Dict α) where
  depth := PlainCodec.depth α + 1
  plain d := by
    apply Plain.object
    intro m hm
    obtain ⟨e, _, rfl⟩ := List.mem_map.mp hm
    exact PlainCodec.plain e.2

end Json

open Json

instance : PlainCodec ActionKind where
  depth := 0
  plain kind := .string kind.name

instance : PlainCodec Party where
  depth := 0
  plain party := .string party.name

instance : PlainCodec ResourceType where
  depth := 0
  plain type := .string type.name

instance : PlainCodec Timestamp where
  depth := 0
  plain t := .string t.toText

/-! ### Records -/

instance : PlainCodec RuleAction where
  depth := 1
  plain action := .object (by simp [plain_of, PlainCodec.depth])

instance : PlainCodec RuleCondition where
  depth := 2
  plain c := by
    apply Plain.object
    simp only [List.forall_mem_append]
    refine ⟨⟨⟨?_, ?_⟩, ?_⟩, ?_⟩
    · simp [plain_of, PlainCodec.depth]
    · exact plain_optionalMember (by decide) _ c.initiatorDomains
    · exact plain_optionalMember (by decide) _ c.excludedInitiatorDomains
    · exact plain_optionalMember (by decide) _ c.domainType

instance : PlainCodec Rule where
  depth := 3
  plain r := .object (by simp [plain_of, PlainCodec.depth])

instance : PlainCodec RuleUpdate where
  depth := 5
  plain u := .object (by simp [plain_of, PlainCodec.depth])

instance : PlainCodec CosmeticRule where
  depth := 2
  plain r := .object (by simp [plain_of, PlainCodec.depth])

instance : PlainCodec Scriptlet where
  depth := 2
  plain s := .object (by simp [plain_of, PlainCodec.depth])

instance : PlainCodec LineStats where
  depth := 1
  plain s := .object (by simp [plain_of, PlainCodec.depth])

instance : PlainCodec CompiledList where
  depth := 5
  plain l := .object (by simp [plain_of, PlainCodec.depth])

instance : PlainCodec Segment where
  depth := 5
  plain s := .object (by simp [plain_of, PlainCodec.depth])

instance : PlainCodec ListArtifacts where
  depth := 7
  plain a := .object (by simp [plain_of, PlainCodec.depth])

instance : PlainCodec ListMetadata where
  depth := 1
  plain m := .object (by simp [plain_of, PlainCodec.depth])

instance : PlainCodec ListSource where
  depth := 1
  plain s := .object (by simp [plain_of, PlainCodec.depth])

instance : PlainCodec ListDescriptor where
  depth := 3
  plain d := .object (by simp [plain_of, PlainCodec.depth])

instance : PlainCodec Category where
  depth := 1
  plain c := by
    apply Plain.object
    simp only [List.forall_mem_append]
    refine ⟨⟨?_, ?_⟩, ?_⟩
    · simp [plain_of, PlainCodec.depth]
    · exact plain_optionalMember (by decide) _ c.description
    · exact plain_optionalMember (by decide) _ c.icon

instance : PlainCodec Manifest where
  depth := 5
  plain m := .object (by simp [plain_of, PlainCodec.depth])

end Blocklist
