import Blocklist.CompiledList
import Blocklist.Proofs.Text.Markers
import Blocklist.Proofs.WrittenScopes

/-!
# Element-hiding rules that are written

An element-hiding rule as it is written: domains, a marker and a selector. Compiling its text gives
back what it was written from, with one exception. The marker `#?#` ends with a hash; where the
selector starts with one, the two are taken for the marker `##`, which is looked for first.

## Implementation notes

The domains hold no hash, so a marker is looked for in the marker and the selector alone.
-/

namespace Blocklist.Filter

/-- An element-hiding rule as it is written. -/
structure WrittenSelector where
  scope : WrittenScope
  marker : CosmeticMarker
  selector : String
  nonempty : selector.toList ≠ []
  trimmed : Text.trim selector.toList = selector.toList
  noMarker : ∀ marker ∈ CosmeticMarker.order, ¬marker.text <:+: selector.toList
  noAt : selector.toList.head? ≠ some '@'

namespace WrittenSelector

/-- The text of a rule. -/
def text (w : WrittenSelector) : List Char :=
  w.scope.text ++ (w.marker.text ++ w.selector.toList)

/-- The rule as it was meant, with an id, in a list. -/
def rule (w : WrittenSelector) (listId : String) (id : RuleId) : CosmeticRule where
  id := s!"cosmetic_{id.toNat}"
  listId := listId
  domains := w.scope.included
  excludeDomains := w.scope.excluded
  selector := w.selector
  exception := w.marker = .exception

end WrittenSelector

/-! ### Where a line is cut -/

/-- Every marker starts with a hash. -/
theorem CosmeticMarker.exists_text_eq_cons (marker : CosmeticMarker) :
    ∃ rest, marker.text = '#' :: rest := by
  cases marker with
  | exception => exact ⟨_, rfl⟩
  | plain => exact ⟨_, rfl⟩
  | extended => exact ⟨_, rfl⟩

/-- Two lines that every marker cuts alike, up to changes of the parts, are cut alike. -/
theorem splitCosmetic?_of_cuts {s t : List Char} {f g : List Char → List Char}
    (h : ∀ marker : CosmeticMarker, Text.splitFirst? marker.text s =
      (Text.splitFirst? marker.text t).map fun cut => (f cut.1, g cut.2)) :
    splitCosmetic? s =
      (splitCosmetic? t).map fun (marker, before, after) => (marker, f before, g after) := by
  rw [splitCosmetic?, splitCosmetic?, List.map_findSome?]
  apply congrArg (List.findSome? · CosmeticMarker.order)
  funext marker
  rw [h, Option.map_map, Function.comp_apply, Option.map_map]
  rfl

/-- A text without a hash in front of a line does not change where the line is cut. -/
theorem splitCosmetic?_append {a : List Char} (h : '#' ∉ a) (s : List Char) :
    splitCosmetic? (a ++ s) =
      (splitCosmetic? s).map fun (marker, before, after) => (marker, a ++ before, after) := by
  apply splitCosmetic?_of_cuts (g := id)
  intro marker
  obtain ⟨rest, hrest⟩ := marker.exists_text_eq_cons
  rw [hrest]
  exact Text.splitFirst?_append_of_not_mem h s

/-- What a line gives that is cut at a marker. -/
theorem cosmeticRule_of_split {line before after : List Char} {marker : CosmeticMarker}
    (h : splitCosmetic? line = some (marker, before, after)) : cosmeticRule line =
      if Text.trim after = [] then .error .emptySelector
      else .ok ⟨DomainScope.ofChars before, String.ofList (Text.trim after),
        marker = .exception⟩ := by
  rw [cosmeticRule, h]
  dsimp only
  split
  · rename_i hnil
    rw [if_pos hnil]
  · rename_i hne
    rw [if_neg hne]

namespace WrittenSelector

variable (w : WrittenSelector)

/-- The marker ends with a hash and the selector starts with one, which together look like the marker
of plain rules. -/
def Blends : Prop :=
  w.marker = .extended ∧ w.selector.toList.head? = some '#'

/-- A hash in front of the selector makes a marker only together with its next character. -/
theorem not_infix_hash_cons {marker : CosmeticMarker} {c : Char} {rest : List Char}
    (hmarker : marker.text = '#' :: c :: rest) (hc : w.selector.toList.head? ≠ some c) :
    ¬marker.text <:+: '#' :: w.selector.toList := by
  have hall : marker ∈ CosmeticMarker.order := by
    cases marker <;> decide
  rw [List.infix_cons_iff, not_or]
  refine ⟨?_, w.noMarker marker hall⟩
  rw [hmarker, List.cons_prefix_cons]
  rintro ⟨-, t, ht⟩
  exact hc (by rw [← ht, List.cons_append, List.head?_cons])

/-- The marker of exceptions, which is looked for first, is found only where it is written. -/
theorem splitFirst?_exception (h : w.marker ≠ .exception) :
    Text.splitFirst? CosmeticMarker.exception.text (w.marker.text ++ w.selector.toList) = none := by
  have hseam : ¬CosmeticMarker.exception.text <:+: '#' :: w.selector.toList :=
    w.not_infix_hash_cons rfl w.noAt
  rw [Text.splitFirst?_eq_none_iff]
  cases hmarker : w.marker with
  | exception => exact absurd hmarker h
  | plain =>
      change ¬_ <:+: '#' :: '#' :: w.selector.toList
      rw [List.infix_cons_iff, not_or]
      exact ⟨by simp [CosmeticMarker.text], hseam⟩
  | extended =>
      change ¬_ <:+: '#' :: '?' :: '#' :: w.selector.toList
      rw [List.infix_cons_iff, List.infix_cons_iff, not_or, not_or]
      exact ⟨by simp [CosmeticMarker.text], by simp [CosmeticMarker.text], hseam⟩

/-- The marker of plain rules, which is looked for next, is not found in a rule of the extended kind
unless marker and selector blend. -/
theorem splitFirst?_plain (hmarker : w.marker = .extended) (h : ¬w.Blends) :
    Text.splitFirst? CosmeticMarker.plain.text (w.marker.text ++ w.selector.toList) = none := by
  have hhash : w.selector.toList.head? ≠ some '#' := fun hhead => h ⟨hmarker, hhead⟩
  rw [Text.splitFirst?_eq_none_iff, hmarker]
  change ¬_ <:+: '#' :: '?' :: '#' :: w.selector.toList
  rw [List.infix_cons_iff, List.infix_cons_iff, not_or, not_or]
  exact ⟨by simp [CosmeticMarker.text], by simp [CosmeticMarker.text],
    w.not_infix_hash_cons rfl hhash⟩

/-- Unless marker and selector blend, the line is cut at the marker. -/
theorem splitCosmetic?_text (h : ¬w.Blends) :
    splitCosmetic? w.text = some (w.marker, w.scope.text, w.selector.toList) := by
  have hcut : splitCosmetic? (w.marker.text ++ w.selector.toList) =
      some (w.marker, [], w.selector.toList) := by
    rw [splitCosmetic?, CosmeticMarker.order, List.findSome?_cons]
    cases hmarker : w.marker with
    | exception => rfl
    | plain =>
        have hexception := w.splitFirst?_exception (by rw [hmarker]; decide)
        rw [hmarker] at hexception
        rw [hexception]
        rfl
    | extended =>
        have hexception := w.splitFirst?_exception (by rw [hmarker]; decide)
        have hplain := w.splitFirst?_plain hmarker h
        rw [hmarker] at hexception hplain
        rw [hexception, Option.map_none, List.findSome?_cons, hplain]
        rfl
  rw [text, splitCosmetic?_append w.scope.hash_not_mem_text, hcut, Option.map_some]
  dsimp only
  rw [List.append_nil]

/-- Where marker and selector blend, the line is cut one character too late, and a part of the marker
is left with the domains. -/
theorem splitCosmetic?_of_blends {rest : List Char} (hmarker : w.marker = .extended)
    (hselector : w.selector.toList = '#' :: rest) :
    splitCosmetic? w.text = some (.plain, w.scope.text ++ ['#', '?'], rest) := by
  have hexception := w.splitFirst?_exception (by rw [hmarker]; decide)
  have hcut : splitCosmetic? (w.marker.text ++ w.selector.toList) =
      some (.plain, ['#', '?'], rest) := by
    rw [splitCosmetic?, CosmeticMarker.order, List.findSome?_cons, hexception, hmarker, hselector]
    rfl
  rw [text, splitCosmetic?_append w.scope.hash_not_mem_text, hcut, Option.map_some]

/-! ### What a line gives -/

theorem cosmeticRule_text (h : ¬w.Blends) :
    cosmeticRule w.text = .ok ⟨⟨w.scope.included, w.scope.excluded⟩, w.selector,
      w.marker = .exception⟩ := by
  rw [cosmeticRule_of_split (w.splitCosmetic?_text h), w.trimmed, if_neg w.nonempty,
    w.scope.ofChars_text, String.ofList_toList]

/-- A selector that blends with its marker loses its first character. -/
theorem selector_ne_of_blends (h : w.Blends) {body : CosmeticBody}
    (hbody : cosmeticRule w.text = .ok body) : body.selector ≠ w.selector := by
  obtain ⟨hmarker, hhead⟩ := h
  obtain ⟨rest, hselector⟩ := List.head?_eq_some_iff.mp hhead
  rw [cosmeticRule_of_split (w.splitCosmetic?_of_blends hmarker hselector)] at hbody
  split at hbody
  · cases hbody
  · cases hbody
    intro heq
    have hlonger : (Text.trim rest).length = rest.length + 1 := by
      rw [← List.length_cons, ← hselector, ← heq, String.toList_ofList]
    have hle : (Text.trim rest).length ≤ rest.length := (Text.trim_sublist rest).length_le
    omega

/-- **A written element-hiding rule is read back, unless its marker and its selector blend.** Whatever
its domains are and in whatever order they stand, compiling the text of a rule gives exactly its
included domains, its excluded domains and its selector, as an exception only if it has the marker of
one. The only rules that are not read back have the marker `#?#` and a selector that starts with a
hash. -/
theorem written_selector_is_read_back_iff (w : WrittenSelector) (listId : String)
    (ids : IdSequence) :
    compileLine cosmeticRule (·.withId listId) ids (String.ofList w.text) =
        (.ok (w.rule listId ids.next), ids.advance) ↔
      ¬(w.marker = .extended ∧ w.selector.toList.head? = some '#') := by
  rw [compileLine, String.toList_ofList]
  constructor
  · intro hcompile hblends
    cases hbody : cosmeticRule w.text with
    | error error =>
        rw [hbody] at hcompile
        cases hcompile
    | ok body =>
        rw [hbody] at hcompile
        have hrule : body.withId listId ids.next = w.rule listId ids.next :=
          Except.ok.inj (Prod.mk.inj hcompile).1
        exact w.selector_ne_of_blends hblends hbody (congrArg CosmeticRule.selector hrule)
  · intro hblends
    rw [w.cosmeticRule_text hblends]
    rfl

/-- A rule with the selector of an id. -/
def sample (marker : CosmeticMarker) : WrittenSelector where
  scope := .sample
  marker := marker
  selector := "#banner"
  nonempty := by decide
  trimmed := by decide
  noMarker := by
    simp only [← Text.occurs_iff_infix]
    decide
  noAt := by decide

theorem written_selector_is_read_back_sample :
    compileLine cosmeticRule (·.withId "ads") default "example.com,~shop.example.com###banner" =
      (.ok ⟨"cosmetic_1000", "ads", ["example.com"], ["shop.example.com"], "#banner", false⟩,
        ⟨1001⟩) := by
  have htext : String.ofList (sample .plain).text = "example.com,~shop.example.com###banner" := by
    decide +kernel
  have hread := ((sample .plain).written_selector_is_read_back_iff "ads" default).mpr (by decide)
  rw [← htext, hread]
  decide +kernel

/-- The same rule with the marker `#?#` is not read back: a piece of the marker stays with the last
domain, and the selector loses its hash. -/
theorem extended_id_selector_is_lost :
    (sample .extended).text = "example.com,~shop.example.com#?##banner".toList ∧
      compileLine cosmeticRule (·.withId "ads") default
          (String.ofList (sample .extended).text) =
        (.ok ⟨"cosmetic_1000", "ads", ["example.com"], ["shop.example.com#?"], "banner", false⟩,
          ⟨1001⟩) ∧
      (sample .extended).rule "ads" 1000 =
        ⟨"cosmetic_1000", "ads", ["example.com"], ["shop.example.com"], "#banner", false⟩ := by
  decide +kernel

end WrittenSelector

end Blocklist.Filter
