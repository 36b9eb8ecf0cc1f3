import Blocklist.Proofs.Unnumbered

/-!
# The number of every record

The records of a text are numbered in the order of its lines, from the next id of the sequence on,
and what else is compiled does not depend on the sequence. A parser hands out ascending numbers
through any calls that do not set it anew, all of them above the ids that it was told to pass.

## Implementation notes

What happens to a sequence is a list of events. `IdSequence.Rises` says of a part of it all that the
part after it has to know, so parts are put together without a look at the calls.
-/

namespace Blocklist

namespace IdSequence

theorem next_skip (ids : IdSequence) (n : Nat) :
    (ids.skip n).next = .ofNat (min (ids.next.toNat + n) (2 ^ 32 - 1)) := by
  rw [← UInt32.ofNat_toNat (x := (ids.skip n).next), toNat_skip]
  rfl

/-- Every draft is labelled by its place. -/
theorem label_eq_mapIdx (listId : String) (ids : IdSequence) (drafts : List Filter.Draft) :
    (ids.label listId drafts).1 =
      drafts.mapIdx fun k draft => Record.ofDraft listId (ids.skip k).next draft := by
  induction drafts generalizing ids with
  | nil => rfl
  | cons draft rest ih =>
      rw [label_cons, List.mapIdx_cons, ih]
      rfl

/-- Before a sequence is used up it hands out ascending ids. -/
theorem pairwise_taken {ids : IdSequence} {n : Nat} (h : (ids.skip n).next < RuleId.last) :
    (ids.taken n).Pairwise (· < ·) := by
  induction n generalizing ids with
  | zero => exact .nil
  | succ n ih =>
      rw [taken, List.pairwise_cons]
      refine ⟨fun id hid => ?_, ih h⟩
      have hne : ids.next ≠ RuleId.last := fun heq =>
        UInt32.ne_of_lt h (eq_last_of_le (ids.next_le_skip (n + 1)) heq)
      exact UInt32.lt_of_lt_of_le (RuleId.lt_next hne) (le_and_lt_of_mem_taken hid).1

end IdSequence

/-! ### The records of a text -/

/-- Whether the id of a record is a number, written as the record writes it. -/
def Record.HasNumber (number : Nat) : Record → Prop
  | network rule => rule.id.toNat = number
  | cosmetic rule => rule.id = s!"cosmetic_{number}"
  | scriptlet call => call.id = s!"scriptlet_{number}"

theorem Record.hasNumber_ofDraft (listId : String) (id : RuleId) (draft : Filter.Draft) :
    (ofDraft listId id draft).HasNumber id.toNat := by
  cases draft <;> rfl

/-- A compiled list without the ids of its records. -/
def CompiledList.unnumbered (l : CompiledList) : CompiledList :=
  { l with
    rules := l.rules.map fun rule => { rule with id := 0 }
    cosmeticRules := l.cosmeticRules.map fun rule => { rule with id := "" }
    scriptlets := l.scriptlets.map fun call => { call with id := "" } }

/-- The sequence does not matter for anything but the ids. -/
theorem unnumbered_compileList (ids ids' : IdSequence) (listId text : String) :
    (compileList ids listId text).list.unnumbered =
      (compileList ids' listId text).list.unnumbered := by
  have hsegment := (Segment.unnumbered_ofCompiled "" none ids listId text).trans
    (Segment.unnumbered_ofCompiled "" none ids' listId text).symm
  obtain ⟨-, -, hrules, hcosmetic, hscriptlets, hstats⟩ := Segment.mk.inj hsegment
  rw [CompiledList.unnumbered, CompiledList.unnumbered, CompiledList.mk.injEq]
  exact ⟨hrules, hcosmetic, hscriptlets, hstats⟩

/-! ### Calls of a parser -/

/-- A compiler of single lines. -/
inductive LineCompiler where
  | network
  | exception
  | cosmetic (listId : String)
  | scriptlet (listId : String)

/-- Compile a line, with an id on success. -/
def LineCompiler.compile (compiler : LineCompiler) (ids : IdSequence) (line : String) :
    Except Filter.LineError Record × IdSequence :=
  match compiler with
  | .network => (compileLine Filter.blockRule Filter.RuleBody.withId ids line).map
      (·.map .network) id
  | .exception => (compileLine Filter.exceptionRule Filter.RuleBody.withId ids line).map
      (·.map .network) id
  | .cosmetic listId => (compileLine Filter.cosmeticRule (·.withId listId) ids line).map
      (·.map .cosmetic) id
  | .scriptlet listId => (compileLine Filter.scriptlet (·.withId listId) ids line).map
      (·.map .scriptlet) id

/-- What is asked of a parser. -/
inductive ParserCall where
  | parse (listId text : String)
  | compile (compiler : LineCompiler) (line : String)
  | reset (start : RuleId)
  | advancePast (id : RuleId)

/-- What happens to an id. -/
inductive IdEvent where
  | handed (id : RuleId)
  | passed (id : RuleId)
  deriving DecidableEq

/-- The id of an event. -/
def IdEvent.id : IdEvent → RuleId
  | handed id | passed id => id

namespace ParserCall

/-- The records that a call gives, in the order of their lines. -/
def records (ids : IdSequence) : ParserCall → List Record
  | .parse listId text => (ids.label listId (draftsOf text)).1
  | .compile compiler line => (compiler.compile ids line).1.toOption.toList
  | _ => []

/-- The sequence after a call. -/
def after (ids : IdSequence) : ParserCall → IdSequence
  | .parse listId text => (compileList ids listId text).ids
  | .compile compiler line => (compiler.compile ids line).2
  | .reset start => ⟨start⟩
  | .advancePast id => ids.advancePast id

/-- The id that a call tells the parser to pass. -/
def passed? : ParserCall → Option RuleId
  | .advancePast id => some id
  | _ => none

/-- What a call does to ids: those of its records are handed out, in their order. -/
def events (ids : IdSequence) (call : ParserCall) : List IdEvent :=
  ((call.records ids).filterMap Record.number?).map .handed ++ call.passed?.toList.map .passed

/-- Whether a call sets the sequence anew. -/
def isReset : ParserCall → Bool
  | .reset _ => true
  | _ => false

/-- The sequence after calls. -/
def run (ids : IdSequence) (calls : List ParserCall) : IdSequence :=
  calls.foldl after ids

/-- What calls do to ids. -/
def trace (ids : IdSequence) : List ParserCall → List IdEvent
  | [] => []
  | call :: rest => call.events ids ++ trace (call.after ids) rest

end ParserCall

/-- A compiler takes the next id if there is a record, and none if there is an error. -/
theorem LineCompiler.compile_eq (compiler : LineCompiler) (ids : IdSequence) (line : String) :
    (∃ error, compiler.compile ids line = (.error error, ids)) ∨
      ∃ listId draft,
        compiler.compile ids line = (.ok (Record.ofDraft listId ids.next draft), ids.advance) := by
  cases compiler with
  | network =>
      rw [compile, compileLine]
      cases Filter.blockRule line.toList with
      | error error => exact .inl ⟨error, rfl⟩
      | ok body => exact .inr ⟨"", .block body, rfl⟩
  | exception =>
      rw [compile, compileLine]
      cases Filter.exceptionRule line.toList with
      | error error => exact .inl ⟨error, rfl⟩
      | ok body => exact .inr ⟨"", .allow body, rfl⟩
  | cosmetic listId =>
      rw [compile, compileLine]
      cases Filter.cosmeticRule line.toList with
      | error error => exact .inl ⟨error, rfl⟩
      | ok body => exact .inr ⟨listId, .cosmetic body, rfl⟩
  | scriptlet listId =>
      rw [compile, compileLine]
      cases Filter.scriptlet line.toList with
      | error error => exact .inl ⟨error, rfl⟩
      | ok body => exact .inr ⟨listId, .scriptlet body, rfl⟩

namespace IdSequence

/-- Events that lead from one sequence to another: ids are handed out from the first one on, and as
long as the second one is not used up all ids stay below it and each that is handed out is above the
ids of the events before. -/
structure Rises (ids ids' : IdSequence) (events : List IdEvent) : Prop where
  le : ids.next ≤ ids'.next
  above : ∀ id, .handed id ∈ events → ids.next ≤ id
  below : ids'.next < RuleId.last → ∀ event ∈ events, event.id < ids'.next
  ascending : ids'.next < RuleId.last →
    events.Pairwise fun earlier later => ∀ id, later = .handed id → earlier.id < id

variable {ids ids' ids'' : IdSequence} {events events' : List IdEvent}

theorem rises_nil (ids : IdSequence) : ids.Rises ids [] where
  le := UInt32.le_refl _
  above _ h := absurd h List.not_mem_nil
  below _ _ h := absurd h List.not_mem_nil
  ascending _ := .nil

theorem rises_taken (ids : IdSequence) (n : Nat) :
    ids.Rises (ids.skip n) ((ids.taken n).map .handed) where
  le := ids.next_le_skip n
  above id h := by
    obtain ⟨_, htaken, heq⟩ := List.mem_map.mp h
    exact IdEvent.handed.inj heq ▸ (le_and_lt_of_mem_taken htaken).1
  below hroom event h := by
    obtain ⟨id, htaken, rfl⟩ := List.mem_map.mp h
    exact (le_and_lt_of_mem_taken htaken).2.resolve_left (UInt32.ne_of_lt hroom)
  ascending hroom := by
    rw [List.pairwise_map]
    apply (pairwise_taken hroom).imp
    intro earlier later hlt id heq
    exact IdEvent.handed.inj heq ▸ hlt

theorem rises_advancePast (ids : IdSequence) (id : RuleId) :
    ids.Rises (ids.advancePast id) [.passed id] where
  le := ids.le_advancePast id
  above id h := by cases List.mem_singleton.mp h
  below hroom event h := by
    obtain rfl := List.mem_singleton.mp h
    apply ids.lt_advancePast
    rintro rfl
    rw [advancePast, if_pos ids.next.le_last] at hroom
    exact absurd hroom (UInt32.lt_irrefl _)
  ascending _ := List.pairwise_singleton _ _

theorem Rises.append (h : ids.Rises ids' events) (h' : ids'.Rises ids'' events') :
    ids.Rises ids'' (events ++ events') where
  le := UInt32.le_trans h.le h'.le
  above id hid := by
    obtain hid | hid := List.mem_append.mp hid
    · exact h.above id hid
    · exact UInt32.le_trans h.le (h'.above id hid)
  below hroom event hevent := by
    obtain hevent | hevent := List.mem_append.mp hevent
    · exact UInt32.lt_of_lt_of_le (h.below (UInt32.lt_of_le_of_lt h'.le hroom) event hevent) h'.le
    · exact h'.below hroom event hevent
  ascending hroom := by
    have hroom' : ids'.next < RuleId.last := UInt32.lt_of_le_of_lt h'.le hroom
    refine List.pairwise_append.mpr ⟨h.ascending hroom', h'.ascending hroom, ?_⟩
    rintro earlier hearlier later hlater id rfl
    exact UInt32.lt_of_lt_of_le (h.below hroom' earlier hearlier) (h'.above id hlater)

/-- A call that does not set the sequence anew lets it rise. -/
theorem rises_call {call : ParserCall} (hreset : call.isReset = false) (ids : IdSequence) :
    ids.Rises (call.after ids) (call.events ids) := by
  cases call with
  | parse listId text =>
      have hafter : (compileList ids listId text).ids = ids.skip (draftsOf text).length :=
        ids.label_snd listId (draftsOf text)
      rw [ParserCall.after, ParserCall.events, ParserCall.records, ids.numbers_label, hafter]
      exact (ids.rises_taken (draftsOf text).length).append (rises_nil _)
  | compile compiler line =>
      rw [ParserCall.after, ParserCall.events, ParserCall.records]
      obtain ⟨error, heq⟩ | ⟨listId, draft, heq⟩ := compiler.compile_eq ids line
      · rw [heq]
        exact ids.rises_nil
      · have hnumber : [Record.ofDraft listId ids.next draft].filterMap Record.number? =
            ids.taken 1 := by
          rw [List.filterMap_cons, Record.number?_ofDraft]
          rfl
        rw [heq]
        change ids.Rises ids.advance
          (([Record.ofDraft listId ids.next draft].filterMap Record.number?).map .handed ++ [])
        rw [hnumber]
        exact (ids.rises_taken 1).append (rises_nil _)
  | reset start => cases hreset
  | advancePast id => exact ids.rises_advancePast id

/-- So do any calls without such a one among them. -/
theorem rises_calls {calls : List ParserCall} (hreset : ∀ call ∈ calls, call.isReset = false)
    (ids : IdSequence) :
    ids.Rises (ParserCall.run ids calls) (ParserCall.trace ids calls) := by
  induction calls generalizing ids with
  | nil => exact ids.rises_nil
  | cons call rest ih =>
      have hfirst := rises_call (hreset call List.mem_cons_self) ids
      exact hfirst.append (ih (fun call hcall => hreset call (List.mem_cons_of_mem _ hcall)) _)

end IdSequence

/-- **The assignment of ids is exact.** The records of a text, all kinds together and in the order of
their lines, are numbered from the next id of the sequence on, up to the greatest number and staying
there; the next id afterwards is the number after the last record. Each record writes its number in
the way of its kind, and nothing but these ids depends on the sequence. A line that gives an error
when it is compiled by itself takes no id. Through any calls of a parser that do not set it anew,
whatever was asked before, each id handed out is above all those handed out and passed earlier, as
long as the sequence is not used up. -/
theorem id_assignment_is_exact (ids : IdSequence) :
    (∀ listId text : String,
      let drafts := draftsOf text
      let number (k : Nat) : Nat := min (ids.next.toNat + k) (2 ^ 32 - 1)
      let records := drafts.mapIdx fun k draft => Record.ofDraft listId (.ofNat (number k)) draft
      let c := compileList ids listId text
      (ParserCall.parse listId text).records ids = records ∧
        c.list.rules = records.filterMap Record.network? ∧
        c.list.cosmeticRules = records.filterMap Record.cosmetic? ∧
        c.list.scriptlets = records.filterMap Record.scriptlet? ∧
        (∀ (k : Nat) (record : Record), records[k]? = some record → record.HasNumber (number k)) ∧
        c.ids.next.toNat = number drafts.length ∧
        ∀ ids' : IdSequence,
          (compileList ids' listId text).list.unnumbered = c.list.unnumbered ∧
            (compileList ids' listId text).rejections = c.rejections) ∧
    (∀ (compiler : LineCompiler) (line : String) (error : Filter.LineError),
      (compiler.compile ids line).1 = .error error → (compiler.compile ids line).2 = ids) ∧
    ∀ calls : List ParserCall, (∀ call ∈ calls, call.isReset = false) →
      (ParserCall.run ids calls).next < RuleId.last →
      (ParserCall.trace ids calls).Pairwise fun earlier later =>
        ∀ id, later = .handed id → earlier.id < id := by
  refine ⟨?_, ?_, ?_⟩
  · intro listId text drafts number records c
    have hrecords : (ids.label listId drafts).1 = records := by
      rw [IdSequence.label_eq_mapIdx]
      simp only [IdSequence.next_skip]
      rfl
    refine ⟨hrecords, ?_, ?_, ?_, ?_, ?_, fun ids' => ⟨unnumbered_compileList _ _ _ _, rfl⟩⟩
    · exact congrArg (List.filterMap Record.network?) hrecords
    · exact congrArg (List.filterMap Record.cosmetic?) hrecords
    · exact congrArg (List.filterMap Record.scriptlet?) hrecords
    · intro k record hrecord
      simp only [records, List.getElem?_mapIdx] at hrecord
      obtain ⟨draft, -, rfl⟩ := Option.map_eq_some_iff.mp hrecord
      have hnumber : (UInt32.ofNat (number k)).toNat = number k :=
        UInt32.toNat_ofNat_of_lt' (Nat.lt_of_le_of_lt (Nat.min_le_right _ _) (by decide))
      have hrecord := Record.hasNumber_ofDraft listId (.ofNat (number k)) draft
      rwa [hnumber] at hrecord
    · calc
        c.ids.next.toNat = (ids.skip drafts.length).next.toNat :=
          congrArg (·.next.toNat) (ids.label_snd listId drafts)
        _ = number drafts.length := ids.toNat_skip drafts.length
  · intro compiler line error herror
    obtain ⟨_, heq⟩ | ⟨_, _, heq⟩ := compiler.compile_eq ids line
    · rw [heq]
    · rw [heq] at herror
      cases herror
  · intro calls hreset hroom
    exact (IdSequence.rises_calls hreset ids).ascending hroom

/-- A text of three records and a line without one, an id that is passed, a line that gives an
error, and an exception. -/
theorem id_assignment_is_exact_sample :
    let calls : List ParserCall :=
      [.parse "ads" "||ads.example^\n##.banner\n##\nnews.example#+js(stop)", .advancePast 2000,
        .compile .network "ab", .compile .exception "@@||cdn.example^"]
    ParserCall.trace default calls =
        [.handed 1000, .handed 1001, .handed 1002, .passed 2000, .handed 2001] ∧
      (ParserCall.trace default calls).Pairwise fun earlier later =>
        ∀ id, later = .handed id → earlier.id < id := by
  intro calls
  obtain ⟨-, -, hascending⟩ := id_assignment_is_exact default
  refine ⟨by decide +kernel, hascending calls ?_ (by decide +kernel)⟩
  intro call hcall
  simp only [calls, List.mem_cons, List.not_mem_nil, or_false] at hcall
  rcases hcall with rfl | rfl | rfl | rfl <;> rfl

end Blocklist
