import Blocklist.Proofs.LineKind
import Blocklist.Proofs.LineLocality

/-!
# Every line is accounted for

A line that is not blank adds one to one counter: that of comments, that of its kind together with
one record of that kind, or that of invalid lines together with one rejection. So the counts of a
text come to its lines, and the counters of records to the records themselves.

## Implementation notes

What one more line adds to a compilation is `Compilation.Extended`, one case for each outcome. The
totals follow from tallies, which hold of texts and of any number of texts merged.
-/

namespace Blocklist

open Blocklist.Filter

/-- The counter of the lines of a kind that are not rejected. -/
def Filter.LineKind.counter : LineKind → Counter
  | .comment => .comments
  | .cosmetic => .cosmeticRules
  | .scriptlet => .scriptlets
  | .exception => .exceptions
  | .network => .networkRules

/-- The number of lines of a text that are not blank. -/
def Text.countNonBlank (s : List Char) : Nat :=
  (lines s).countP fun line => trim line ≠ []

/-- A text to compile, with the ids and the list that its records are for. -/
structure CompileJob where
  ids : IdSequence
  listId : String
  text : String

/-- The outcome of a job. -/
def CompileJob.run (job : CompileJob) : Compilation :=
  compileList job.ids job.listId job.text

namespace Compilation

/-- What no line at all comes to. -/
def empty (ids : IdSequence) : Compilation where
  list := ⟨[], [], [], .zero⟩
  rejections := []
  ids := ids

/-- One more line under a counter. -/
def count (c : Compilation) (counter : Counter) : Compilation :=
  { c with list := { c.list with stats := c.list.stats + .one counter } }

/-- One more record, for which an id is taken. -/
def push (c : Compilation) (record : Record) : Compilation :=
  { c with
    list :=
      { rules := c.list.rules ++ record.network?.toList
        cosmeticRules := c.list.cosmeticRules ++ record.cosmetic?.toList
        scriptlets := c.list.scriptlets ++ record.scriptlet?.toList
        stats := c.list.stats }
    ids := c.ids.advance }

/-- One more rejection. -/
def reject (c : Compilation) (rejection : Rejection) : Compilation :=
  { c with rejections := c.rejections ++ [rejection] }

/-- What a compilation comes to with one more line, which is given without blank ends, by the kind of
the line. -/
inductive Extended (listId : String) (c : Compilation) (number : Nat) (line : List Char) :
    Option LineKind → Compilation → Prop
  | blank (h : line = []) : Extended listId c number line none c
  | comment : Extended listId c number line (some .comment) (c.count .comments)
  | record {draft : Draft} {record : Record} (h : record = Record.ofDraft listId c.ids.next draft) :
      Extended listId c number line (some record.kind) ((c.push record).count record.kind.counter)
  | rejected {error : LineError} {kind : LineKind} (h : error.ArisesIn kind) :
      Extended listId c number line (some kind)
        ((c.reject ⟨number, error, String.ofList line⟩).count .invalid)

/-- The records and the rejections of a compilation are as many as a tally of lines says, and its
counts stand at the tally. -/
structure Tallied (c : Compilation) (n : Counter → Nat) : Prop where
  stats : c.list.stats = .ofTally n
  rules : c.list.rules.length = n .networkRules + n .exceptions
  cosmeticRules : c.list.cosmeticRules.length = n .cosmeticRules
  scriptlets : c.list.scriptlets.length = n .scriptlets
  rejections : c.rejections.length = n .invalid

/-! ### One more line -/

theorem followedBy_empty (c : Compilation) (count : Nat) : c.followedBy count (empty c.ids) = c := by
  simp [followedBy, CompiledList.append_eq, CompiledList.append, empty, LineStats.add_zero]

theorem followedBy_count (c : Compilation) (count : Nat) (second : Compilation)
    (counter : Counter) :
    c.followedBy count (second.count counter) = (c.followedBy count second).count counter := by
  simp only [followedBy, Compilation.count, CompiledList.append_eq, CompiledList.append,
    LineStats.add_assoc]

theorem followedBy_push (c : Compilation) (count : Nat) (second : Compilation) (record : Record) :
    c.followedBy count (second.push record) = (c.followedBy count second).push record := by
  simp only [followedBy, push, CompiledList.append_eq, CompiledList.append, List.append_assoc]

theorem followedBy_reject (c : Compilation) (count : Nat) (second : Compilation)
    (rejection : Rejection) :
    c.followedBy count (second.reject rejection) =
      (c.followedBy count second).reject (rejection.below count) := by
  simp only [followedBy, reject, List.map_append, List.map_cons, List.map_nil, List.append_assoc]

/-- One reading comes to what it adds to nothing. -/
theorem ofReadings_record (ids : IdSequence) (listId : String) (draft : Draft) :
    ofReadings ids listId [.record draft] =
      ((empty ids).push (Record.ofDraft listId ids.next draft)).count draft.kind.counter := by
  cases draft <;> rfl

/-- What one more reading adds fits its kind. -/
theorem extended_followedBy (c : Compilation) (listId : String) (count : Nat) {line : List Char}
    {kind? : Option LineKind} {reading : Reading} (h : reading.Fits line kind?) :
    c.Extended listId (count + 1) line kind?
      (c.followedBy count (ofReadings c.ids listId [reading])) := by
  cases h with
  | blank hline =>
      have hnone : ofReadings c.ids listId [.blank] = empty c.ids := rfl
      rw [hnone, followedBy_empty]
      exact .blank hline
  | comment =>
      have hone : ofReadings c.ids listId [.comment] = (empty c.ids).count .comments := rfl
      rw [hone, followedBy_count, followedBy_empty]
      exact .comment
  | @record draft hkind =>
      rw [ofReadings_record, followedBy_count, followedBy_push, followedBy_empty,
        ← hkind listId c.ids.next]
      exact .record rfl
  | @rejected error kind herror =>
      have hone : ofReadings c.ids listId [.rejected error line] =
          ((empty c.ids).reject ⟨1, error, String.ofList line⟩).count .invalid :=
        rfl
      rw [hone, followedBy_count, followedBy_reject, followedBy_empty, Rejection.below, Nat.add_comm]
      exact .rejected herror

theorem empty_followedBy (ids : IdSequence) (second : Compilation) :
    (empty ids).followedBy 0 second = second := by
  have hbelow : Rejection.below 0 = id := rfl
  simp [followedBy, CompiledList.append_eq, CompiledList.append, empty, LineStats.zero_add, hbelow]

/-- A text of one line comes to what the line adds to nothing. -/
theorem extended_compileList (ids : IdSequence) (listId : String) {line : String}
    (h : '\n' ∉ line.toList) :
    (empty ids).Extended listId 1 (Text.trim line.toList) (LineKind.of? line.toList)
      (compileList ids listId line) := by
  have hline : compileList ids listId line =
      (empty ids).followedBy 0 (ofReadings ids listId [Reading.of line.toList]) := by
    rw [compileList_eq, Text.lines_eq_singleton h, empty_followedBy, List.map_singleton]
  rw [hline]
  exact extended_followedBy (empty ids) listId 0 (Reading.fits_of line.toList)

/-- A line behind a text adds to what the text comes to. -/
theorem extended_compileList_append (ids : IdSequence) (listId text : String) {line : String}
    (h : '\n' ∉ line.toList) :
    (compileList ids listId text).Extended listId ((Text.lines text.toList).length + 1)
      (Text.trim line.toList) (LineKind.of? line.toList)
      (compileList ids listId (text ++ "\n" ++ line)) := by
  have hlines : Text.lines (text ++ "\n" ++ line).toList =
      Text.lines text.toList ++ [line.toList] := by
    rw [← Text.lines_eq_singleton h, ← Text.lines_append]
    simp
  have hline : compileList ids listId (text ++ "\n" ++ line) =
      (compileList ids listId text).followedBy (Text.lines text.toList).length
        (ofReadings (compileList ids listId text).ids listId [Reading.of line.toList]) := by
    simp only [compileList_eq, hlines, List.map_append, ofReadings_append, List.length_map,
      List.map_singleton]
  rw [hline]
  exact extended_followedBy _ listId _ (Reading.fits_of line.toList)

/-! ### Totals -/

theorem Tallied.followedBy {c c' : Compilation} {m n : Counter → Nat} (h : c.Tallied m)
    (h' : c'.Tallied n) (count : Nat) : (c.followedBy count c').Tallied (m + n) where
  stats := by
    rw [LineStats.ofTally_add, ← h.stats, ← h'.stats]
    rfl
  rules := by
    show (c.list.rules ++ c'.list.rules).length = _
    rw [List.length_append, h.rules, h'.rules, Pi.add_apply, Pi.add_apply]
    omega
  cosmeticRules := by
    show (c.list.cosmeticRules ++ c'.list.cosmeticRules).length = _
    rw [List.length_append, h.cosmeticRules, h'.cosmeticRules, Pi.add_apply]
  scriptlets := by
    show (c.list.scriptlets ++ c'.list.scriptlets).length = _
    rw [List.length_append, h.scriptlets, h'.scriptlets, Pi.add_apply]
  rejections := by
    show (c.rejections ++ c'.rejections.map (Rejection.below count)).length = _
    rw [List.length_append, List.length_map, h.rejections, h'.rejections, Pi.add_apply]

theorem tallied_singleton (ids : IdSequence) (listId : String) (reading : Reading) :
    (ofReadings ids listId [reading]).Tallied (Reading.tally [reading]) := by
  obtain _ | _ | (_ | _ | _ | _) | _ := reading <;> constructor <;> rfl

/-- Every reading counts once, and gives at most one record or rejection. -/
theorem tallied_ofReadings (ids : IdSequence) (listId : String) (readings : List Reading) :
    (ofReadings ids listId readings).Tallied (Reading.tally readings) := by
  induction readings generalizing ids with
  | nil => constructor <;> rfl
  | cons reading rest ih =>
      rw [← List.singleton_append, ofReadings_append, Reading.tally_append]
      exact (tallied_singleton ids listId reading).followedBy (ih _) _

end Compilation

theorem Filter.Reading.of_eq_blank_iff {line : List Char} :
    Reading.of line = .blank ↔ Text.trim line = [] := by
  have hfits := Reading.fits_of line
  constructor
  · intro h
    rw [h] at hfits
    generalize LineKind.of? line = kind? at hfits
    cases hfits with
    | blank hline => exact hline
  · intro h
    rw [Reading.of, h]
    rfl

/-- The lines that are not blank are those that count. -/
theorem countNonBlank_eq (s : List Char) :
    Text.countNonBlank s =
      ((Text.lines s).map Reading.of).countP fun reading => reading ≠ .blank := by
  rw [List.countP_map, Text.countNonBlank]
  apply List.countP_congr
  intro line _
  simp [Reading.of_eq_blank_iff]

/-- A rejected line is of a kind that the error arises in. -/
theorem kind_of_mem_rejections {ids : IdSequence} {listId text : String} {r : Rejection}
    (h : r ∈ (compileList ids listId text).rejections) :
    ∃ kind, LineKind.of? r.line.toList = some kind ∧ r.error.ArisesIn kind := by
  obtain ⟨⟨reading, number⟩, hreading, hr⟩ := List.mem_filterMap.mp h
  obtain ⟨line, -, hline⟩ := List.mem_map.mp (List.fst_mem_of_mem_zipIdx hreading)
  have hfits := Reading.fits_of line
  rw [hline] at hfits
  cases reading with
  | rejected error rejected =>
      cases hr
      generalize hkind : LineKind.of? line = kind? at hfits
      cases hfits with
      | @rejected _ kind herror =>
          refine ⟨kind, ?_, herror⟩
          rw [String.toList_ofList, LineKind.of?, Text.trim_trim]
          exact hkind
  | _ => cases hr

/-! ### Jobs merged -/

/-- The readings of the lines of a job. -/
def CompileJob.readings (job : CompileJob) : List Reading :=
  (Text.lines job.text.toList).map Reading.of

theorem CompileJob.tallied (job : CompileJob) : job.run.Tallied (Reading.tally job.readings) :=
  Compilation.tallied_ofReadings job.ids job.listId job.readings

/-- The merged counts of jobs are the tallies of all their lines, and so are the numbers of their
records and rejections. -/
theorem sum_jobs (jobs : List CompileJob) :
    let tally := Reading.tally (jobs.flatMap CompileJob.readings)
    LineStats.sum (jobs.map fun job => job.run.list.stats) = .ofTally tally ∧
      (jobs.map fun job => job.run.list.rules.length).sum =
        tally .networkRules + tally .exceptions ∧
      (jobs.map fun job => job.run.list.cosmeticRules.length).sum = tally .cosmeticRules ∧
      (jobs.map fun job => job.run.list.scriptlets.length).sum = tally .scriptlets ∧
      (jobs.map fun job => job.run.rejections.length).sum = tally .invalid := by
  induction jobs with
  | nil => exact ⟨rfl, rfl, rfl, rfl, rfl⟩
  | cons job rest ih =>
      have hjob := job.tallied
      obtain ⟨hstats, hrules, hcosmetic, hscriptlets, hrejections⟩ := ih
      simp only [List.map_cons, List.sum_cons, LineStats.sum_cons, List.flatMap_cons,
        Reading.tally_append, LineStats.ofTally_add, Pi.add_apply, hstats, hrules, hcosmetic,
        hscriptlets, hrejections, hjob.stats, hjob.rules, hjob.cosmeticRules, hjob.scriptlets,
        hjob.rejections, true_and, and_true]
      omega

/-- The lines of jobs that are not blank are those under some counter. -/
theorem sum_countNonBlank_jobs (jobs : List CompileJob) :
    let tally := Reading.tally (jobs.flatMap CompileJob.readings)
    (jobs.map fun job => Text.countNonBlank job.text.toList).sum =
      tally .comments + (tally .networkRules + tally .cosmeticRules + tally .scriptlets +
        tally .exceptions + tally .invalid) := by
  intro tally
  rw [Reading.sum_tally, List.countP_flatMap]
  exact congrArg List.sum (List.map_congr_left fun job _ => countNonBlank_eq job.text.toList)

/-- The counts, the records and the rejections of a text come to its lines that are not blank. Such a
line adds one to one counter, and a record of its kind or a rejection with an error of its kind goes
with the counter unless the line is a comment. Merged counts come to the lines of all texts as long
as they fit a counter. -/
theorem every_line_is_accounted_for :
    (∀ (ids : IdSequence) (listId text : String),
      let c := compileList ids listId text
      let stats := c.list.stats
      stats.classified = stats.total ∧
        stats.comments + stats.total = .ofNat (Text.countNonBlank text.toList) ∧
        stats.networkRules + stats.exceptions = .ofNat c.list.rules.length ∧
        stats.cosmeticRules = .ofNat c.list.cosmeticRules.length ∧
        stats.scriptlets = .ofNat c.list.scriptlets.length ∧
        stats.invalid = .ofNat c.rejections.length ∧
        ∀ r ∈ c.rejections, r.error ≠ .missingMarker ∧
          ∃ kind, LineKind.of? r.line.toList = some kind ∧ r.error.ArisesIn kind) ∧
    (∀ (ids : IdSequence) (listId line : String), '\n' ∉ line.toList →
      (Compilation.empty ids).Extended listId 1 (Text.trim line.toList)
          (LineKind.of? line.toList) (compileList ids listId line) ∧
        ∀ text : String,
          (compileList ids listId text).Extended listId ((Text.lines text.toList).length + 1)
            (Text.trim line.toList) (LineKind.of? line.toList)
            (compileList ids listId (text ++ "\n" ++ line))) ∧
    ∀ jobs : List CompileJob,
      let lines := (jobs.map fun job => Text.countNonBlank job.text.toList).sum
      lines < UInt64.size →
      let stats := LineStats.sum (jobs.map fun job => job.run.list.stats)
      stats.classified = stats.total ∧
        stats.networkRules.toNat + stats.cosmeticRules.toNat + stats.scriptlets.toNat +
          stats.exceptions.toNat + stats.invalid.toNat = stats.total.toNat ∧
        stats.comments.toNat + stats.total.toNat = lines ∧
        stats.networkRules.toNat + stats.exceptions.toNat =
          (jobs.map fun job => job.run.list.rules.length).sum ∧
        stats.cosmeticRules.toNat = (jobs.map fun job => job.run.list.cosmeticRules.length).sum ∧
        stats.scriptlets.toNat = (jobs.map fun job => job.run.list.scriptlets.length).sum ∧
        stats.invalid.toNat = (jobs.map fun job => job.run.rejections.length).sum := by
  refine ⟨?_, ?_, ?_⟩
  · intro ids listId text c stats
    have htallied : c.Tallied (Reading.tally ((Text.lines text.toList).map Reading.of)) :=
      Compilation.tallied_ofReadings ids listId _
    have hstats : stats = _ := htallied.stats
    refine ⟨?_, ?_, ?_, ?_, ?_, ?_, ?_⟩
    · rw [hstats, LineStats.classified_ofTally]
    · rw [hstats, countNonBlank_eq, ← Reading.sum_tally, UInt64.ofNat_add]
      rfl
    · rw [hstats, htallied.rules, UInt64.ofNat_add]
      rfl
    · rw [hstats, htallied.cosmeticRules]
      rfl
    · rw [hstats, htallied.scriptlets]
      rfl
    · rw [hstats, htallied.rejections]
      rfl
    · intro r hr
      obtain ⟨kind, hkind, herror⟩ := kind_of_mem_rejections hr
      refine ⟨?_, kind, hkind, herror⟩
      intro hmissing
      rw [hmissing] at herror
      cases herror
  · intro ids listId line hline
    constructor
    · exact Compilation.extended_compileList ids listId hline
    · intro text
      exact Compilation.extended_compileList_append ids listId text hline
  · intro jobs lines hlines stats
    have hcount := sum_countNonBlank_jobs jobs
    obtain ⟨hsum, hrules, hcosmetic, hscriptlets, hrejections⟩ := sum_jobs jobs
    set tally := Reading.tally (jobs.flatMap CompileJob.readings)
    obtain ⟨htotal, hnetwork, hcosmetic', hscriptlets', hexceptions, hcomments, hinvalid⟩ :=
      LineStats.toNat_ofTally (lt_of_eq_of_lt hcount.symm hlines)
    have hstats : stats = .ofTally tally := hsum
    refine ⟨hstats ▸ LineStats.classified_ofTally tally, ?_⟩
    rw [hstats]
    omega

/-- A rule without a selector is rejected behind two lines, and four lines of two texts count. -/
theorem every_line_is_accounted_for_sample :
    let text := "! note\n||ads.example^"
    let line := "example.com##"
    let jobs : List CompileJob :=
      [⟨default, "easy", "! note\n||ads.example^\n\n||a^"⟩, ⟨⟨2000⟩, "privacy", "@@||cdn.example^"⟩]
    let stats := LineStats.sum (jobs.map fun job => job.run.list.stats)
    '\n' ∉ line.toList ∧
      (compileList default "easy" text).Extended "easy" 3 line.toList (some .cosmetic)
        (compileList default "easy" (text ++ "\n" ++ line)) ∧
      (jobs.map fun job => Text.countNonBlank job.text.toList).sum = 4 ∧
      stats.comments.toNat + stats.total.toNat = 4 := by
  intro text line jobs stats
  obtain ⟨-, hline, hjobs⟩ := every_line_is_accounted_for
  have hfeed : '\n' ∉ line.toList := by decide +kernel
  have hlines : (jobs.map fun job => Text.countNonBlank job.text.toList).sum = 4 := by
    decide +kernel
  have hnumber : (Text.lines text.toList).length + 1 = 3 := by decide +kernel
  have htrim : Text.trim line.toList = line.toList := by decide +kernel
  have hkind : LineKind.of? line.toList = some .cosmetic := by decide +kernel
  obtain ⟨-, hbehind⟩ := hline default "easy" line hfeed
  have hthird := hbehind text
  rw [hnumber, htrim, hkind] at hthird
  obtain ⟨-, -, hcount, -⟩ := hjobs jobs (by rw [hlines]; decide)
  exact ⟨hfeed, hthird, hlines, hcount.trans hlines⟩

end Blocklist
