import Blocklist.Distinct
import Blocklist.Manifest

/-!
# What is found to stand once

The search for a repeated member finds none exactly in a list of distinct members. A manifest that
is read was searched in this way, so its lists have distinct ids.
-/

namespace Blocklist

/-- Nothing is repeated if the members are distinct and none of them was seen. -/
theorem firstRepeated?_eq_none_iff {α : Type} [BEq α] [LawfulBEq α] [Hashable α] [LawfulHashable α]
    (seen : Std.HashSet α) (members : List α) :
    firstRepeated? seen members = none ↔ members.Nodup ∧ ∀ a ∈ members, a ∉ seen := by
  induction members generalizing seen with
  | nil => simp [firstRepeated?]
  | cons a rest ih =>
      rw [firstRepeated?, List.nodup_cons]
      by_cases h : seen.contains a = true
      · rw [if_pos h]
        simp only [reduceCtorEq, false_iff, not_and]
        intro _ hrest
        exact hrest a List.mem_cons_self (Std.HashSet.mem_iff_contains.mpr h)
      · rw [if_neg h, ih]
        have ha : a ∉ seen := fun hmem => h (Std.HashSet.mem_iff_contains.mp hmem)
        simp only [Std.HashSet.mem_insert, beq_iff_eq, not_or, List.mem_cons, forall_eq_or_imp]
        constructor
        · rintro ⟨hnodup, hseen⟩
          exact ⟨⟨fun hmem => (hseen a hmem).1 rfl, hnodup⟩, ha, fun b hb => (hseen b hb).2⟩
        · rintro ⟨⟨hnew, hnodup⟩, _, hseen⟩
          refine ⟨hnodup, fun b hb => ⟨?_, hseen b hb⟩⟩
          rintro rfl
          exact hnew hb

/-- The lists of a manifest that was read have distinct ids. -/
theorem Manifest.nodup_ids_of_ofText {text : String} {manifest : Manifest}
    (h : ofText text = .ok manifest) : (manifest.lists.map (·.id)).Nodup := by
  rw [ofText] at h
  split at h
  · cases h
  · split at h
    · cases h
    · rename_i hnone
      cases h
      exact ((firstRepeated?_eq_none_iff _ _).mp hnone).1

end Blocklist
