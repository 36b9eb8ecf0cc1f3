import Blocklist.Proofs.Numbering

/-!
# Compiled texts up to the numbers of their records

What a text compiles to depends on the sequence of ids in the numbers of its records only. Without
them it is one segment for each list, address, validator and text.
-/

namespace Blocklist

namespace Record

/-- A record without its number. -/
def unnumbered : Record → Record
  | network rule => network { rule with id := 0 }
  | cosmetic rule => cosmetic { rule with id := "" }
  | scriptlet call => scriptlet { call with id := "" }

/-- Without its number, a record does not tell which id it was given. -/
theorem unnumbered_ofDraft (listId : String) (id : RuleId) (draft : Filter.Draft) :
    (ofDraft listId id draft).unnumbered = (ofDraft listId 0 draft).unnumbered := by
  cases draft <;> rfl

/-- What a part of the records is without numbers, when leaving out the numbers does to the part
what it does to the records. -/
theorem filterMap_map_unnumbered {α : Type} {part? : Record → Option α} {f : α → α}
    (h : ∀ record, part? (unnumbered record) = (part? record).map f) (records : List Record) :
    (records.map unnumbered).filterMap part? = (records.filterMap part?).map f := by
  rw [List.filterMap_map, List.map_filterMap]
  exact List.filterMap_congr fun record _ => h record

end Record

/-- Labelled records are their drafts with numbers. -/
theorem IdSequence.unnumbered_label (listId : String) (ids : IdSequence)
    (drafts : List Filter.Draft) :
    (ids.label listId drafts).1.map Record.unnumbered =
      drafts.map fun draft => (Record.ofDraft listId 0 draft).unnumbered := by
  induction drafts generalizing ids with
  | nil => rfl
  | cons draft rest ih =>
      rw [label_cons, List.map_cons, List.map_cons, ih, Record.unnumbered_ofDraft]

namespace Segment

/-- A segment without the numbers of its records. -/
def unnumbered (s : Segment) : Segment :=
  { s with
    rules := s.rules.map fun rule => { rule with id := 0 }
    cosmeticRules := s.cosmeticRules.map fun rule => { rule with id := "" }
    scriptlets := s.scriptlets.map fun call => { call with id := "" } }

@[simp] theorem url_unnumbered (s : Segment) : s.unnumbered.url = s.url :=
  rfl

@[simp] theorem etag_unnumbered (s : Segment) : s.unnumbered.etag = s.etag :=
  rfl

@[simp]
theorem length_rules_unnumbered (s : Segment) : s.unnumbered.rules.length = s.rules.length :=
  List.length_map _

/-- The segment of a text without numbers. -/
def ofText (listId url : String) (etag : Option String) (text : String) : Segment :=
  (ofCompiled url etag (compileList default listId text).list).unnumbered

/-- A text compiles to its segment, with numbers. -/
theorem unnumbered_ofCompiled (url : String) (etag : Option String) (ids : IdSequence)
    (listId text : String) :
    (ofCompiled url etag (compileList ids listId text).list).unnumbered =
      ofText listId url etag text := by
  have hrecords : (ids.label listId (draftsOf text)).1.map Record.unnumbered =
      ((default : IdSequence).label listId (draftsOf text)).1.map Record.unnumbered := by
    rw [IdSequence.unnumbered_label, IdSequence.unnumbered_label]
  have hpart {α : Type} {part? : Record → Option α} {f : α → α}
      (h : ∀ record, part? (Record.unnumbered record) = (part? record).map f) :
      ((ids.label listId (draftsOf text)).1.filterMap part?).map f =
        (((default : IdSequence).label listId (draftsOf text)).1.filterMap part?).map f := by
    rw [← Record.filterMap_map_unnumbered h, hrecords, Record.filterMap_map_unnumbered h]
  rw [ofText, ofCompiled_eq, ofCompiled_eq, unnumbered, unnumbered, Segment.mk.injEq]
  refine ⟨rfl, rfl, hpart fun record => ?_, hpart fun record => ?_, hpart fun record => ?_, rfl⟩
  all_goals cases record <;> rfl

end Segment

namespace ListArtifacts

/-- What was compiled for a list, without the numbers of the records. -/
def unnumbered (a : ListArtifacts) : ListArtifacts :=
  ⟨a.sources.map Segment.unnumbered⟩

/-- Numbers do not count among the number of rules. -/
theorem ruleCount_unnumbered (a : ListArtifacts) : a.unnumbered.ruleCount = a.ruleCount := by
  have hlength : a.unnumbered.rules.length = a.rules.length := by
    simp only [rules, unnumbered, List.length_flatMap, List.map_map, Function.comp_def,
      Segment.length_rules_unnumbered]
  rw [ruleCount, ruleCount, hlength]

end ListArtifacts

end Blocklist
