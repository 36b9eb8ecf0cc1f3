import Blocklist.Engine
import Blocklist.Proofs.Json.Plain
import Blocklist.Proofs.SavedState

/-!
# What is written is read back

Rules, compiled lists, cached segments, the states of lists and the manifest are read back as they
were written, from their texts and from the JSON values that a store keeps. Nothing is lost: neither
the order of what stands in a list, nor a list that is there but empty, nor any character.

## Implementation notes

`RoundTrips` follows a value on every way that the program sends it: through its text, through a JSON
value with merged members, and through the text of such a value.
-/

namespace Blocklist

/-- Every value of a type is read back as it was written: from its text, in either layout, from its
JSON form with merged members, and from a text that was first read as a JSON value or that such a
value was written to. -/
structure RoundTrips (α : Type) [JsonCodec α] : Prop where
  text : ∀ a : α, (Json.ofText? (Json.of a).compact).bind (Json.as? α) = some a
  indented : ∀ a : α, (Json.ofText? (Json.of a).indented).bind (Json.as? α) = some a
  value : ∀ a : α, (Json.of a).merged.as? α = some a
  readAsValue : ∀ a : α, (Json.valueOf? (Json.of a).compact).bind (Json.as? α) = some a
  writtenAsValue : ∀ a : α, (Json.valueOf? (Json.of a).merged.compact).bind (Json.as? α) = some a

namespace Json

/-- A decoder does not notice that nothing happens. -/
theorem transparent_id : Transparent id where
  null := rfl
  bool _ := rfl
  number _ := rfl
  string _ := rfl
  array items := by rw [id, List.map_id]
  slots fields members h := by
    rw [id, slots_object fields h]
    simp
  dict d := by
    rw [id, Dict.entries_map]
    simp

end Json

/-- Plain forms that are not too deep and that decoders understand are read back. -/
theorem RoundTrips.of_lawful (α : Type) [JsonCodec α] [LawfulCodec α] [PlainCodec α]
    (h : PlainCodec.depth α ≤ Json.maxDepth) : RoundTrips α := by
  have hform : ∀ a : α, (Json.of a).as? α = some a := LawfulCodec.as_of Json.transparent_id
  have hmerged : ∀ a : α, (Json.of a).merged.as? α = some a :=
    LawfulCodec.as_of Json.transparent_merged
  have hplain : ∀ a : α, Json.Plain (PlainCodec.depth α) (Json.of a) := PlainCodec.plain
  constructor
  · intro a
    rw [(hplain a).ofText?_eq.1]
    exact hform a
  · intro a
    rw [(hplain a).ofText?_eq.2]
    exact hform a
  · exact hmerged
  · intro a
    rw [((hplain a).valueOf?_eq h).1]
    exact hmerged a
  · intro a
    obtain ⟨hplain', hsame⟩ := (hplain a).merged
    rw [(hplain'.valueOf?_eq h).1, hsame]
    exact hmerged a

/-- The rules of an array that was written to a file are read back. -/
theorem Disk.readRules_of_read {disk : Disk} {path : String} {rules : List Rule}
    (h : disk.read path = .ok (.text (Json.of rules).indented)) : disk.readRules path = .ok rules := by
  have hdecode := (RoundTrips.of_lawful (List Rule) (by decide)).indented rules
  rw [readRules, h]
  simp only [Content.json?, hdecode]

/-- All that is sent to an engine, printed or saved is read back as it was written, and so is the
state that a store keeps. -/
theorem formats_round_trip :
    (RoundTrips Rule ∧ RoundTrips RuleUpdate ∧ RoundTrips CosmeticRule ∧ RoundTrips Scriptlet) ∧
      (RoundTrips LineStats ∧ RoundTrips CompiledList) ∧
      (RoundTrips Segment ∧ RoundTrips ListArtifacts ∧ RoundTrips RuleCache) ∧
      (RoundTrips ListMetadata ∧ RoundTrips ListDescriptor ∧ RoundTrips Manifest) ∧
      ∀ (state : SavedState) (store : MemoryStore),
        SavedState.read (SavedState.write state store).2 =
          (.ok state, (SavedState.write state store).2) := by
  refine ⟨⟨?_, ?_, ?_, ?_⟩, ⟨?_, ?_⟩, ⟨?_, ?_, ?_⟩, ⟨?_, ?_, ?_⟩, SavedState.read_write⟩
  all_goals exact RoundTrips.of_lawful _ (by decide)

end Blocklist
