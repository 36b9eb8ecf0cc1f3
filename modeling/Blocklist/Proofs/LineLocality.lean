import Blocklist.Proofs.Numbering
import Blocklist.Proofs.Tally
import Blocklist.Proofs.Text.Lines

/-!
# What one line does to the others

Lines share nothing but the sequence of ids and the counts, so a text compiles piece by piece: what
stands behind a line feed compiles as a text of its own, with the sequence that the text in front of
it leaves. A line that gives no record therefore touches no record at all, and neither do blanks at
the ends of lines or the choice of line ending.

## Implementation notes

A compilation is made of readings, one for each line, by `Compilation.ofReadings`. The laws are
about readings; what they say of texts follows from what the lines of a text are.
-/

namespace Blocklist

open Blocklist.Filter

/-- A rejection with so many lines more in front of it. -/
def Rejection.below (count : Nat) (r : Rejection) : Rejection :=
  { r with number := r.number + count }

namespace CompiledList

/-- The records of two lists in their order, and the counts of both. -/
def append (first second : CompiledList) : CompiledList where
  rules := first.rules ++ second.rules
  cosmeticRules := first.cosmeticRules ++ second.cosmeticRules
  scriptlets := first.scriptlets ++ second.scriptlets
  stats := first.stats + second.stats

instance : Append CompiledList := ⟨append⟩

theorem append_eq (first second : CompiledList) : first ++ second = first.append second :=
  rfl

end CompiledList

namespace Compilation

/-- What readings of lines come to. -/
def ofReadings (ids : IdSequence) (listId : String) (readings : List Reading) : Compilation where
  list := (CompiledList.ofReadings ids listId readings).1
  rejections := (readings.zipIdx 1).filterMap CompiledList.rejection?
  ids := (CompiledList.ofReadings ids listId readings).2

/-- What a text of so many lines and a text behind it come to. -/
def followedBy (first : Compilation) (count : Nat) (second : Compilation) : Compilation where
  list := first.list ++ second.list
  rejections := first.rejections ++ second.rejections.map (Rejection.below count)
  ids := second.ids

theorem compileList_eq (ids : IdSequence) (listId text : String) :
    compileList ids listId text = ofReadings ids listId ((Text.lines text.toList).map Reading.of) :=
  rfl

/-- The records of readings are those of their drafts. -/
theorem list_ofReadings (ids : IdSequence) (listId : String) (readings : List Reading) :
    (ofReadings ids listId readings).list =
      let records := (ids.label listId (readings.filterMap Reading.draft?)).1
      { rules := records.filterMap Record.network?
        cosmeticRules := records.filterMap Record.cosmetic?
        scriptlets := records.filterMap Record.scriptlet?
        stats := LineStats.sum (readings.map Reading.stats) } :=
  rfl

theorem ids_ofReadings (ids : IdSequence) (listId : String) (readings : List Reading) :
    (ofReadings ids listId readings).ids =
      (ids.label listId (readings.filterMap Reading.draft?)).2 :=
  rfl

/-- The lines that are rejected further down have greater numbers, and nothing else changes. -/
theorem rejections_zipIdx (readings : List Reading) (count : Nat) :
    (readings.zipIdx (count + 1)).filterMap CompiledList.rejection? =
      ((readings.zipIdx 1).filterMap CompiledList.rejection?).map (Rejection.below count) := by
  rw [← List.map_snd_add_zipIdx_eq_zipIdx (n := count) (k := 1), List.filterMap_map,
    List.map_filterMap]
  apply List.filterMap_congr
  rintro ⟨reading, number⟩ _
  cases reading <;> rfl

/-- Readings come to what the first ones come to, followed by the others with the ids left. -/
theorem ofReadings_append (ids : IdSequence) (listId : String) (front back : List Reading) :
    ofReadings ids listId (front ++ back) =
      (ofReadings ids listId front).followedBy front.length
        (ofReadings (ofReadings ids listId front).ids listId back) := by
  let first := ofReadings ids listId front
  let second := ofReadings first.ids listId back
  have hlabel := ids.label_append listId (front.filterMap Reading.draft?)
    (back.filterMap Reading.draft?)
  have hlist : (ofReadings ids listId (front ++ back)).list = first.list.append second.list := by
    simp only [first, second, list_ofReadings, ids_ofReadings, CompiledList.append,
      List.filterMap_append, hlabel, List.map_append, LineStats.sum_append]
  have hrejections : ((front ++ back).zipIdx 1).filterMap CompiledList.rejection? =
      first.rejections ++ second.rejections.map (Rejection.below front.length) := by
    rw [List.zipIdx_append, List.filterMap_append, Nat.add_comm 1, rejections_zipIdx back]
    rfl
  have hids : (ofReadings ids listId (front ++ back)).ids = second.ids := by
    simp only [first, second, ids_ofReadings, List.filterMap_append, hlabel]
  exact (Compilation.mk.injEq ..).mpr ⟨hlist, hrejections, hids⟩

/-- Readings with the same drafts come to the same records. -/
theorem records_congr {readings readings' : List Reading}
    (h : readings.filterMap Reading.draft? = readings'.filterMap Reading.draft?) (ids : IdSequence)
    (listId : String) :
    let c := ofReadings ids listId readings
    let c' := ofReadings ids listId readings'
    c.list.rules = c'.list.rules ∧ c.list.cosmeticRules = c'.list.cosmeticRules ∧
      c.list.scriptlets = c'.list.scriptlets ∧ c.ids = c'.ids := by
  simp only [list_ofReadings, ids_ofReadings, h, and_self]

end Compilation

/-! ### Edits that touch no record -/

namespace Filter

/-- A line that gives no record. -/
inductive Inert (line : List Char) : Prop
  | blank (h : Text.trim line = [])
  | comment (h : LineKind.of? line = some .comment)
  | rejected {error : LineError} {rest : List Char} (h : Reading.of line = .rejected error rest)

theorem Inert.draft?_eq_none {line : List Char} (h : Inert line) :
    (Reading.of line).draft? = none := by
  cases h with
  | blank h => rw [Reading.of, h]; rfl
  | comment h =>
      have hkind : LineKind.ofTrimmed? (Text.trim line) = some .comment := h
      rw [Reading.of, Reading.ofTrimmed, hkind]
      rfl
  | rejected h => rw [h]; rfl

/-- Edits of lines that touch no record: a line that gives none is put in, taken out or replaced by
another one, and blanks at the ends of a line change. -/
inductive Edit : List (List Char) → List (List Char) → Prop
  | done : Edit [] []
  | insert {line : List Char} {lines lines' : List (List Char)} (h : Inert line)
      (rest : Edit lines lines') : Edit lines (line :: lines')
  | delete {line : List Char} {lines lines' : List (List Char)} (h : Inert line)
      (rest : Edit lines lines') : Edit (line :: lines) lines'
  | replace {line line' : List Char} {lines lines' : List (List Char)} (h : Inert line)
      (h' : Inert line') (rest : Edit lines lines') : Edit (line :: lines) (line' :: lines')
  | reindent {line line' : List Char} {lines lines' : List (List Char)}
      (h : Text.trim line = Text.trim line') (rest : Edit lines lines') :
      Edit (line :: lines) (line' :: lines')

/-- Such an edit leaves the drafts of the records alone. -/
theorem Edit.drafts_eq {lines lines' : List (List Char)} (h : Edit lines lines') :
    (lines.map Reading.of).filterMap Reading.draft? =
      (lines'.map Reading.of).filterMap Reading.draft? := by
  induction h with
  | done => rfl
  | insert h _ ih => rw [ih, List.map_cons, List.filterMap_cons_none h.draft?_eq_none]
  | delete h _ ih => rw [List.map_cons, List.filterMap_cons_none h.draft?_eq_none, ih]
  | replace h h' _ ih =>
      rw [List.map_cons, List.map_cons, List.filterMap_cons_none h.draft?_eq_none,
        List.filterMap_cons_none h'.draft?_eq_none, ih]
  | reindent h _ ih =>
      rw [List.map_cons, List.map_cons, List.filterMap_cons, List.filterMap_cons, ih, Reading.of, h,
        Reading.of]

/-- Lines that are the same without blank ends read the same. -/
theorem Reading.map_of_congr {lines lines' : List (List Char)}
    (h : lines.map Text.trim = lines'.map Text.trim) :
    lines.map Reading.of = lines'.map Reading.of := by
  have hof : ∀ ls : List (List Char), ls.map Reading.of = (ls.map Text.trim).map ofTrimmed :=
    fun ls => (List.map_map (f := Text.trim) (g := ofTrimmed)).symm
  rw [hof, hof, h]

end Filter

/-- Lines compile on their own. Behind a line feed a text compiles with the sequence that the text
in front of it leaves, its records come behind the others and its counts are added; edits of lines
that give no record and of blanks at the ends of lines change no record and no id; and either line
ending compiles to the same. -/
theorem compilation_is_local (ids : IdSequence) (listId : String) :
    (∀ a b : String,
      let first := compileList ids listId a
      let second := compileList first.ids listId b
      let both := compileList ids listId (a ++ "\n" ++ b)
      both.list.rules = first.list.rules ++ second.list.rules ∧
        both.list.cosmeticRules = first.list.cosmeticRules ++ second.list.cosmeticRules ∧
        both.list.scriptlets = first.list.scriptlets ++ second.list.scriptlets ∧
        both.list.stats = first.list.stats + second.list.stats ∧
        both.rejections = first.rejections ++
          second.rejections.map (Rejection.below (Text.lines a.toList).length) ∧
        both.ids = second.ids) ∧
    (∀ text text' : String, Edit (Text.lines text.toList) (Text.lines text'.toList) →
      let c := compileList ids listId text
      let c' := compileList ids listId text'
      c.list.rules = c'.list.rules ∧ c.list.cosmeticRules = c'.list.cosmeticRules ∧
        c.list.scriptlets = c'.list.scriptlets ∧ c.ids = c'.ids) ∧
    ∀ text : String,
      compileList ids listId (String.ofList (Text.withCarriageReturns text.toList)) =
        compileList ids listId text := by
  refine ⟨?_, ?_, ?_⟩
  · intro a b
    have hlines : Text.lines (a ++ "\n" ++ b).toList =
        Text.lines a.toList ++ Text.lines b.toList := by
      rw [← Text.lines_append]
      simp
    have hboth : compileList ids listId (a ++ "\n" ++ b) =
        (compileList ids listId a).followedBy (Text.lines a.toList).length
          (compileList (compileList ids listId a).ids listId b) := by
      simp only [Compilation.compileList_eq, hlines, List.map_append, Compilation.ofReadings_append,
        List.length_map]
    intro first second both
    have hfollowed : both = first.followedBy (Text.lines a.toList).length second := hboth
    rw [hfollowed]
    exact ⟨rfl, rfl, rfl, rfl, rfl, rfl⟩
  · intro text text' hedit
    exact Compilation.records_congr hedit.drafts_eq ids listId
  · intro text
    rw [Compilation.compileList_eq, Compilation.compileList_eq, String.toList_ofList,
      Reading.map_of_congr (Text.map_trim_lines_withCarriageReturns text.toList)]

/-- A comment and a filter that is too short come to stand beside two filters, one of which is
indented: the two compile as before. -/
theorem compilation_is_local_sample :
    let text := "||ads.example^\nexample.com##.ad"
    let text' := "! note\n  ||ads.example^\t\n||a^\nexample.com##.ad"
    Edit (Text.lines text.toList) (Text.lines text'.toList) ∧
      (compileList default "easy" text).list.rules.map (·.condition.urlFilter) = ["ads.example"] ∧
      (compileList default "easy" text).list.rules = (compileList default "easy" text').list.rules ∧
      (compileList default "easy" text').rejections =
        [⟨3, .patternTooShort "a", "||a^"⟩] := by
  intro text text'
  have hlines : Text.lines text.toList = ["||ads.example^".toList, "example.com##.ad".toList] := by
    decide +kernel
  have hlines' : Text.lines text'.toList = ["! note".toList, "  ||ads.example^\t".toList,
      "||a^".toList, "example.com##.ad".toList] := by
    decide +kernel
  have hshort : Reading.of "||a^".toList = .rejected (.patternTooShort "a") "||a^".toList := by
    decide +kernel
  have hedit : Edit (Text.lines text.toList) (Text.lines text'.toList) := by
    rw [hlines, hlines']
    exact .insert (.comment (by decide +kernel)) (.reindent (by decide +kernel)
      (.insert (.rejected hshort) (.reindent rfl .done)))
  obtain ⟨-, hedits, -⟩ := compilation_is_local default "easy"
  obtain ⟨hrules, -⟩ := hedits text text' hedit
  exact ⟨hedit, by decide +kernel, hrules, by decide +kernel⟩

end Blocklist
