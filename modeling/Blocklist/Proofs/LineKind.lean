import Blocklist.CompiledList
import Blocklist.Proofs.Text.Markers

/-!
# The kind of a line decides what it gives

A line is sorted by the marks that stand in it, and compiled by cutting it at such a mark. The two
searches agree: a line that is sorted as an element-hiding rule has a marker to be cut at, so a line
gives a record of its own kind or one of the few errors of that kind.

## Implementation notes

`Reading.Fits` lists what a line of each kind can give. A network rule is told from an exception by
its action, which is all that the record keeps of its kind.
-/

namespace Blocklist

/-- The kind of line that gives a record. -/
def Record.kind : Record → Filter.LineKind
  | network rule =>
    match rule.action.kind with
    | .block => .network
    | .allow => .exception
  | cosmetic _ => .cosmetic
  | scriptlet _ => .scriptlet

namespace Filter

/-- The kind of line that a draft comes from. -/
def Draft.kind : Draft → LineKind
  | .block _ => .network
  | .allow _ => .exception
  | .cosmetic _ => .cosmetic
  | .scriptlet _ => .scriptlet

/-- The errors of lines of a kind. -/
inductive LineError.ArisesIn : LineError → LineKind → Prop
  | networkPattern (pattern : String) : ArisesIn (.patternTooShort pattern) .network
  | exceptionPattern (pattern : String) : ArisesIn (.patternTooShort pattern) .exception
  | selector : ArisesIn .emptySelector .cosmetic
  | call : ArisesIn .malformedScriptlet .scriptlet
  | scriptletName : ArisesIn .emptyScriptletName .scriptlet

/-- What a line without blank ends can give, by its kind. -/
inductive Reading.Fits (line : List Char) : Option LineKind → Reading → Prop
  | blank (h : line = []) : Fits line none .blank
  | comment : Fits line (some .comment) .comment
  | record {draft : Draft} (h : ∀ listId id, (Record.ofDraft listId id draft).kind = draft.kind) :
      Fits line (some draft.kind) (.record draft)
  | rejected {error : LineError} {kind : LineKind} (h : error.ArisesIn kind) :
      Fits line (some kind) (.rejected error line)

/-! ### The compilers of records -/

/-- A line that holds a marker is cut at one. -/
theorem isSome_splitCosmetic? (line : List Char) :
    (splitCosmetic? line).isSome = isCosmeticLine line := by
  rw [splitCosmetic?, isCosmeticLine, List.isSome_findSome?]
  apply List.any_congr rfl
  intro marker
  rw [Option.isSome_map, Text.isSome_splitFirst?]

/-- The only error of a line with a marker is that nothing stands behind it. -/
theorem cosmeticRule_error {line : List Char} (hline : isCosmeticLine line = true)
    {error : LineError} (h : cosmeticRule line = .error error) : error = .emptySelector := by
  obtain ⟨⟨marker, before, after⟩, hcut⟩ :=
    Option.isSome_iff_exists.mp ((isSome_splitCosmetic? line).trans hline)
  rw [cosmeticRule, hcut] at h
  dsimp only at h
  split at h
  · exact (Except.error.inj h).symm
  · cases h

theorem scriptlet_error {line : List Char} {error : LineError}
    (h : Filter.scriptlet line = .error error) : error.ArisesIn .scriptlet := by
  rw [Filter.scriptlet] at h
  split at h
  · exact Except.error.inj h ▸ .call
  · split at h
    · exact Except.error.inj h ▸ .scriptletName
    · split at h
      · exact Except.error.inj h ▸ .scriptletName
      · cases h

theorem urlFilter_error {pattern : List Char} {error : LineError}
    (h : urlFilter pattern = .error error) : ∃ text, error = .patternTooShort text := by
  rw [urlFilter] at h
  split at h
  · exact ⟨_, (Except.error.inj h).symm⟩
  · cases h

theorem readFilter_error {line : List Char} {error : LineError}
    (h : readFilter line = .error error) : ∃ text, error = .patternTooShort text := by
  have hread : readFilter line = (urlFilter (splitOptions line).1).map fun filter =>
      (filter, ((splitOptions line).2.map Options.ofText).getD Options.unset) :=
    rfl
  rw [hread] at h
  cases hfilter : urlFilter (splitOptions line).1 with
  | ok filter =>
      rw [hfilter] at h
      cases h
  | error reason =>
      rw [hfilter] at h
      exact Except.error.inj h ▸ urlFilter_error hfilter

theorem blockRule_error {line : List Char} {error : LineError}
    (h : blockRule line = .error error) : error.ArisesIn .network := by
  rw [blockRule] at h
  cases hread : readFilter line with
  | ok read =>
      rw [hread] at h
      cases h
  | error reason =>
      rw [hread] at h
      obtain ⟨text, rfl⟩ := readFilter_error hread
      exact Except.error.inj h ▸ .networkPattern text

theorem action_of_blockRule {line : List Char} {body : RuleBody} (h : blockRule line = .ok body) :
    body.action = ⟨.block⟩ := by
  rw [blockRule] at h
  cases hread : readFilter line with
  | ok read =>
      rw [hread] at h
      exact Except.ok.inj h ▸ rfl
  | error reason =>
      rw [hread] at h
      cases h

theorem exceptionRule_error {line : List Char} {error : LineError}
    (h : exceptionRule line = .error error) : error.ArisesIn .exception := by
  rw [exceptionRule] at h
  dsimp only at h
  cases hread : readFilter ((Text.dropLead? "@@".toList line).getD line) with
  | ok read =>
      rw [hread] at h
      cases h
  | error reason =>
      rw [hread] at h
      obtain ⟨text, rfl⟩ := readFilter_error hread
      exact Except.error.inj h ▸ .exceptionPattern text

theorem action_of_exceptionRule {line : List Char} {body : RuleBody}
    (h : exceptionRule line = .ok body) : body.action = ⟨.allow⟩ := by
  rw [exceptionRule] at h
  dsimp only at h
  cases hread : readFilter ((Text.dropLead? "@@".toList line).getD line) with
  | ok read =>
      rw [hread] at h
      exact Except.ok.inj h ▸ rfl
  | error reason =>
      rw [hread] at h
      cases h

/-! ### Kinds and what they give -/

/-- A line sorted as an element-hiding rule holds a marker of one. -/
theorem LineKind.isCosmeticLine_of_ofTrimmed? {line : List Char}
    (h : ofTrimmed? line = some .cosmetic) : isCosmeticLine line = true := by
  cases line with
  | nil => cases h
  | cons c rest =>
      by_contra hmarker
      rw [ofTrimmed?, if_neg hmarker] at h
      split_ifs at h <;> cases h

theorem LineKind.ofTrimmed?_eq_none_iff {line : List Char} :
    ofTrimmed? line = none ↔ line = [] := by
  rw [ofTrimmed?.eq_def]
  split
  · simp
  · split_ifs <;> simp

/-- A result fits a kind if its records and its errors do. -/
theorem Reading.fits_ofResult {α : Type} {draft : α → Draft} {line : List Char} {kind : LineKind}
    {result : Except LineError α} (hdraft : ∀ body, (draft body).kind = kind)
    (hok : ∀ body, result = .ok body →
      ∀ listId id, (Record.ofDraft listId id (draft body)).kind = kind)
    (herror : ∀ error, result = .error error → error.ArisesIn kind) :
    Fits line (some kind) (ofResult draft line result) := by
  cases result with
  | ok body =>
      rw [← hdraft body]
      exact .record fun listId id => (hok body rfl listId id).trans (hdraft body).symm
  | error error => exact .rejected (herror error rfl)

/-- A line gives what fits its kind. -/
theorem Reading.fits_ofTrimmed (line : List Char) :
    Fits line (LineKind.ofTrimmed? line) (ofTrimmed line) := by
  rw [ofTrimmed]
  cases hkind : LineKind.ofTrimmed? line with
  | none => exact .blank (LineKind.ofTrimmed?_eq_none_iff.mp hkind)
  | some kind =>
      cases kind with
      | comment => exact .comment
      | cosmetic =>
          have hmarker := LineKind.isCosmeticLine_of_ofTrimmed? hkind
          refine fits_ofResult (fun _ => rfl) (fun _ _ _ _ => rfl) fun error herror => ?_
          exact cosmeticRule_error hmarker herror ▸ .selector
      | scriptlet =>
          exact fits_ofResult (fun _ => rfl) (fun _ _ _ _ => rfl) fun _ => scriptlet_error
      | exception =>
          refine fits_ofResult (fun _ => rfl) (fun body hbody _ _ => ?_) fun _ => exceptionRule_error
          rw [Record.ofDraft, RuleBody.withId, action_of_exceptionRule hbody, Record.kind]
      | network =>
          refine fits_ofResult (fun _ => rfl) (fun body hbody _ _ => ?_) fun _ => blockRule_error
          rw [Record.ofDraft, RuleBody.withId, action_of_blockRule hbody, Record.kind]

theorem Reading.fits_of (line : List Char) :
    Fits (Text.trim line) (LineKind.of? line) (of line) :=
  fits_ofTrimmed (Text.trim line)

end Filter

end Blocklist
