import Blocklist.CompiledList
import Blocklist.SavedState
import Blocklist.Proofs.Json.Codec
import Blocklist.Proofs.Timestamp

/-!
# Records read back as they were written

What a store keeps is made of records whose fields are read back one by one. Each field stands in
the slot of its name, whatever the order in which a store keeps the members of an object.

## Implementation notes

Every proof brings a record to its slots and reads each slot by the law of its field. Only the
members of a condition that are left out need cases.
-/

namespace Blocklist

open Json

/-! ### Names -/

instance : LawfulCodec ActionKind where
  as_of h kind := by
    rw [Json.of, as?]
    unfold ActionKind.instJsonCodec
    dsimp only
    rw [h.string]
    cases kind <;> rfl

instance : LawfulCodec Party where
  as_of h party := by
    rw [Json.of, as?]
    unfold Party.instJsonCodec
    dsimp only
    rw [h.string]
    cases party <;> rfl

instance : NeverNull Party where
  as_null := rfl

instance : LawfulCodec ResourceType where
  as_of h type := by
    rw [Json.of, as?]
    unfold ResourceType.instJsonCodec
    dsimp only
    rw [h.string]
    cases type <;> rfl

/-! ### Rules -/

instance : LawfulCodec RuleAction where
  as_of h action := by
    rw [Json.of, as?]
    unfold instJsonCodecRuleAction
    dsimp only
    rw [h.slots _ (by simp)]
    simp [required_of h]

instance : LawfulCodec RuleCondition where
  as_of h c := by
    obtain ⟨url, types, initiators, excluded, party⟩ := c
    rw [Json.of, as?]
    unfold instJsonCodecRuleCondition
    dsimp only
    -- Which names there are depends on which members are left out.
    cases initiators <;> cases excluded <;> cases party <;>
      (simp only [optionalMember_none, optionalMember_some, List.append_nil, List.cons_append,
          List.nil_append]
       rw [h.slots _ (by simp)]
       simp [List.lookup_cons, required_of h, withDefault_none, withDefault_member h])

instance : LawfulCodec Rule where
  as_of h r := by
    rw [Json.of, as?]
    unfold instJsonCodecRule
    dsimp only
    rw [h.slots _ (by simp)]
    simp [List.lookup_cons, required_of h]

instance : LawfulCodec RuleUpdate where
  as_of h u := by
    rw [Json.of, as?]
    unfold instJsonCodecRuleUpdate
    dsimp only
    rw [h.slots _ (by simp)]
    simp [List.lookup_cons, required_of h]

instance : LawfulCodec CosmeticRule where
  as_of h r := by
    rw [Json.of, as?]
    unfold instJsonCodecCosmeticRule
    dsimp only
    rw [h.slots _ (by simp)]
    simp [List.lookup_cons, required_of h]

instance : LawfulCodec Scriptlet where
  as_of h s := by
    rw [Json.of, as?]
    unfold instJsonCodecScriptlet
    dsimp only
    rw [h.slots _ (by simp)]
    simp [List.lookup_cons, required_of h]

instance : LawfulCodec LineStats where
  as_of h s := by
    rw [Json.of, as?]
    unfold instJsonCodecLineStats
    dsimp only
    rw [h.slots _ (by simp)]
    simp [List.lookup_cons, required_of h]

instance : LawfulCodec CompiledList where
  as_of h l := by
    rw [Json.of, as?]
    unfold instJsonCodecCompiledList
    dsimp only
    rw [h.slots _ (by simp)]
    simp [List.lookup_cons, required_of h]

/-! ### What is kept of a list -/

instance : LawfulCodec Segment where
  as_of h s := by
    rw [Json.of, as?]
    unfold instJsonCodecSegment
    dsimp only
    rw [h.slots _ (by simp)]
    simp [List.lookup_cons, required_of h, withDefault_of h]

instance : LawfulCodec ListArtifacts where
  as_of h a := by
    rw [Json.of, as?]
    unfold instJsonCodecListArtifacts
    dsimp only
    rw [h.slots _ (by simp)]
    simp [required_of h]

instance : LawfulCodec ListMetadata where
  as_of h m := by
    rw [Json.of, as?]
    unfold instJsonCodecListMetadata
    dsimp only
    rw [h.slots _ (by simp)]
    simp [List.lookup_cons, withDefault_of h]

/-! ### The manifest -/

instance : LawfulCodec ListSource where
  as_of h s := by
    rw [Json.of, as?]
    unfold instJsonCodecListSource
    dsimp only
    rw [h.slots _ (by simp)]
    simp [List.lookup_cons, required_of h]

instance : LawfulCodec ListDescriptor where
  as_of h d := by
    rw [Json.of, as?]
    unfold instJsonCodecListDescriptor
    dsimp only
    rw [h.slots _ (by simp)]
    simp [List.lookup_cons, required_of h, withDefault_of h]

instance : LawfulCodec Category where
  as_of h c := by
    obtain ⟨name, description, icon⟩ := c
    rw [Json.of, as?]
    unfold instJsonCodecCategory
    dsimp only
    cases description <;> cases icon <;>
      (simp only [optionalMember_none, optionalMember_some, List.append_nil, List.cons_append,
          List.nil_append]
       rw [h.slots _ (by simp)]
       simp [List.lookup_cons, withDefault_of h, withDefault_none, withDefault_member h])

instance : LawfulCodec Manifest where
  as_of h m := by
    rw [Json.of, as?]
    unfold instJsonCodecManifest
    dsimp only
    rw [h.slots _ (by simp)]
    simp [List.lookup_cons, required_of h, withDefault_of h]

end Blocklist
