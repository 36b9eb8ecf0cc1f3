import Blocklist.Proofs.LineLocality
import Blocklist.Proofs.Text.Case
import Mathlib

/-!
# Compiled records are well formed

What an engine may rely on in every record that a text compiles to, however odd the text is: patterns
are long enough and hold no mark of the syntax, every list that is there has members, and every
domain is one that was written between separators.

## Implementation notes

Each predicate speaks of a record of its own, and each compiler of lines meets the one of its record.
A domain of an option and a domain in front of a marker differ in the characters they may have, so
the predicates of domains have these as a parameter.
-/

namespace Blocklist

open Blocklist.Filter

/-! ### Domains -/

/-- A domain with something in it, and with allowed characters only. -/
structure DomainText (allowed : Char → Bool) (domain : String) : Prop where
  inked : Text.Inked domain.toList
  allowed : ∀ c ∈ domain.toList, allowed c = true

/-- A domain that a record is for: it has no blank ends, and no tilde stands in front of it. -/
structure IncludedDomain (allowed : Char → Bool) (domain : String) : Prop
    extends DomainText allowed domain where
  trimmed : Text.trim domain.toList = domain.toList
  noTilde : domain.toList.head? ≠ some '~'

/-- The characters of domains in options. -/
def optionDomainChar (c : Char) : Bool :=
  c != ',' && c != '|' && !c.isUpper

/-- The characters of domains in front of a marker. -/
def prefixDomainChar (c : Char) : Bool :=
  c != ','

/-- Both lists of a scope hold domains, each of its kind. -/
structure DomainScope.WellFormed (allowed : Char → Bool) (scope : DomainScope) : Prop where
  included : ∀ d ∈ scope.included, IncludedDomain allowed d
  excluded : ∀ d ∈ scope.excluded, DomainText allowed d

/-! ### Records -/

/-- The condition of a well-formed rule. -/
structure RuleCondition.WellFormed (c : RuleCondition) : Prop where
  filterLength : 3 ≤ c.urlFilter.length
  noDollar : '$' ∉ c.urlFilter.toList
  noLineFeed : '\n' ∉ c.urlFilter.toList
  types_ne_nil : c.resourceTypes ≠ []
  types_nodup : c.resourceTypes.Nodup
  initiators_ne_nil : c.initiatorDomains ≠ some []
  initiators : ∀ ds ∈ c.initiatorDomains, ∀ d ∈ ds, IncludedDomain optionDomainChar d
  excluded_ne_nil : c.excludedInitiatorDomains ≠ some []
  excluded : ∀ ds ∈ c.excludedInitiatorDomains, ∀ d ∈ ds, DomainText optionDomainChar d

/-- A rule has a well-formed condition, and blocks or allows with a priority of its action. -/
structure Rule.WellFormed (r : Rule) : Prop where
  condition : r.condition.WellFormed
  standing : (r.action.kind, r.priority) ∈
    [(ActionKind.block, 1), (ActionKind.block, 100), (ActionKind.allow, 2)]

/-- An element-hiding rule has a selector, and its domains were written between commas. -/
structure CosmeticRule.WellFormed (r : CosmeticRule) : Prop where
  selector_ne : r.selector ≠ ""
  trimmed : Text.trim r.selector.toList = r.selector.toList
  scope : DomainScope.WellFormed prefixDomainChar ⟨r.domains, r.excludeDomains⟩

/-- A call names a scriptlet, and its parts and its domains were written between commas. -/
structure Scriptlet.WellFormed (s : Scriptlet) : Prop where
  name_ne : s.name ≠ ""
  trimmed : Text.trim s.name.toList = s.name.toList
  parts : ∀ part ∈ s.name :: s.args, ',' ∉ part.toList ∧ ')' ∉ part.toList
  scope : DomainScope.WellFormed prefixDomainChar ⟨s.domains, s.excludeDomains⟩

/-- Every record of a list is well formed. -/
structure CompiledList.WellFormed (l : CompiledList) : Prop where
  rules : ∀ r ∈ l.rules, r.WellFormed
  cosmeticRules : ∀ r ∈ l.cosmeticRules, r.WellFormed
  scriptlets : ∀ s ∈ l.scriptlets, s.WellFormed

/-! ### The domains of a text -/

namespace DomainScope

/-- An entry holds a domain of its kind. -/
def Entry.WellFormed (allowed : Char → Bool) : Entry → Prop
  | .include domain => IncludedDomain allowed (String.ofList domain)
  | .exclude domain => DomainText allowed (String.ofList domain)

variable {allowed : Char → Bool}

theorem Entry.wellFormed_of_ofPart? {part : List Char} {entry : Entry}
    (h : ofPart? part = some entry) (hpart : ∀ c ∈ part, allowed c = true) :
    entry.WellFormed allowed := by
  have hallowed : ∀ c ∈ Text.trim part, allowed c = true :=
    fun c hc => hpart c (Text.mem_of_mem_trim hc)
  rw [ofPart?] at h
  split at h
  · cases h
  · cases h
  · rename_i domain hne htrim
    cases h
    have hdomain : domain ≠ [] := by
      rintro rfl
      exact hne rfl
    refine ⟨?_, ?_⟩
    · simpa using Text.inked_of_trim_eq_cons htrim hdomain
    · rw [htrim] at hallowed
      simpa using fun c hc => hallowed c (List.mem_cons_of_mem _ hc)
  · rename_i hnil _ htilde
    cases h
    have hink := Text.inked_trim hnil
    refine ⟨⟨by simpa using hink, by simpa using hallowed⟩, by simp [Text.trim_trim], ?_⟩
    intro hhead
    obtain ⟨rest, hrest⟩ := List.head?_eq_some_iff.mp hhead
    exact htilde rest (by simpa using hrest)

/-- The entries of a text hold domains of the characters that it has beside the separator. -/
theorem wellFormed_entries {separator : Char} {s : List Char}
    (hs : ∀ c ∈ s, c ≠ separator → allowed c = true) :
    ∀ entry ∈ entries separator s, entry.WellFormed allowed := by
  intro entry hentry
  obtain ⟨part, hpart, hof⟩ := List.mem_filterMap.mp hentry
  obtain ⟨hnot, hsubset⟩ := Text.of_mem_splitOn hpart
  apply Entry.wellFormed_of_ofPart? hof
  intro c hc
  apply hs c (hsubset hc)
  rintro rfl
  exact hnot hc

theorem wellFormed_ofEntries {es : List Entry} (h : ∀ entry ∈ es, entry.WellFormed allowed) :
    (ofEntries es).WellFormed allowed where
  included d hd := by
    obtain ⟨entry, hentry, hd⟩ := List.mem_filterMap.mp hd
    have hentry := h entry hentry
    obtain domain | domain := entry
    · cases hd
      exact hentry
    · cases hd
  excluded d hd := by
    obtain ⟨entry, hentry, hd⟩ := List.mem_filterMap.mp hd
    have hentry := h entry hentry
    obtain domain | domain := entry
    · cases hd
    · cases hd
      exact hentry

/-- Whatever stands in front of a marker, the domains read off it are well formed. -/
theorem wellFormed_ofChars (s : List Char) : (ofChars s).WellFormed prefixDomainChar := by
  apply wellFormed_ofEntries
  apply wellFormed_entries
  intro c _ hc
  simpa [prefixDomainChar] using hc

end DomainScope

/-! ### Options -/

namespace Filter

/-- The domains that a token between commas names are well formed. -/
theorem OptionToken.wellFormed_ofToken {token : List Char} (htoken : ',' ∉ token) :
    ∀ entry ∈ (ofToken token).domainEntries, entry.WellFormed optionDomainChar := by
  cases hvalue : Text.dropLead? "domain=".toList (token.map Char.toLower) with
  | some value =>
      simp only [ofToken, hvalue]
      apply DomainScope.wellFormed_entries
      intro c hc hbar
      have hlower : c ∈ token.map Char.toLower := by
        rw [Text.eq_append_of_dropLead? hvalue]
        exact List.mem_append_right _ hc
      obtain ⟨d, hd, rfl⟩ := List.mem_map.mp hlower
      have hcomma : d.toLower ≠ ',' := by
        intro heq
        exact htoken ((Text.recasing_toLower.apply_eq_iff (by decide)).mp heq ▸ hd)
      simp [optionDomainChar, hcomma, hbar]
  | none =>
      have hnone : (ofToken token).domainEntries = [] := by
        simp only [ofToken, hvalue]
        split
        · rfl
        · split
          · rfl
          · split
            · rfl
            · split
              · split <;> rfl
              · split <;> rfl
      simp [hnone]

/-- Taking out repetitions leaves no member twice. -/
theorem nodup_eraseDups {α : Type} [DecidableEq α] (as : List α) : as.eraseDups.Nodup := by
  induction hlength : as.length using Nat.strongRecOn generalizing as with
  | ind n ih =>
      cases as with
      | nil => simp
      | cons a as =>
          have hle := List.length_filter_le (fun b => !b == a) as
          rw [List.length_cons] at hlength
          rw [List.eraseDups_cons, List.nodup_cons]
          constructor
          · simp
          · exact ih _ (by omega) _ rfl

/-- What options say that an engine relies on. -/
structure Options.WellFormed (options : Options) : Prop where
  kinds : options.kinds.Nodup
  domains : options.domains.WellFormed optionDomainChar

theorem Options.wellFormed_ofTokens {tokens : List OptionToken}
    (h : ∀ token ∈ tokens, ∀ entry ∈ token.domainEntries, entry.WellFormed optionDomainChar) :
    (ofTokens tokens).WellFormed where
  kinds := nodup_eraseDups _
  domains := by
    apply DomainScope.wellFormed_ofEntries
    intro entry hentry
    obtain ⟨token, htoken, hentry⟩ := List.mem_flatMap.mp hentry
    exact h token htoken entry hentry

/-- The options of every text are well formed. -/
theorem Options.wellFormed_ofText (s : List Char) : (ofText s).WellFormed := by
  apply wellFormed_ofTokens
  intro token htoken
  obtain ⟨text, htext, rfl⟩ := List.mem_map.mp htoken
  obtain ⟨part, hpart, rfl⟩ := List.mem_map.mp (List.mem_of_mem_filter htext)
  have hcomma := (Text.of_mem_splitOn hpart).1
  exact OptionToken.wellFormed_ofToken fun hmem => hcomma (Text.mem_of_mem_trim hmem)

theorem Options.wellFormed_unset : unset.WellFormed :=
  wellFormed_ofTokens fun _ h => absurd h List.not_mem_nil

/-! ### Network rules -/

/-- A bare pattern has only characters of its pattern. -/
theorem mem_of_mem_barePattern {pattern : List Char} {c : Char} (h : c ∈ barePattern pattern) :
    c ∈ pattern := by
  have hlast : ∀ {d : Char} {s : List Char}, c ∈ (Text.dropLast? d s).getD s → c ∈ s := by
    intro d s hmem
    cases hdrop : Text.dropLast? d s with
    | none => simpa [hdrop] using hmem
    | some rest =>
        rw [hdrop] at hmem
        rw [Text.eq_append_of_dropLast? hdrop]
        exact List.mem_append_left _ hmem
  have hfront := hlast (hlast h)
  apply Text.mem_of_mem_trim
  split at hfront
  · rename_i heq
    simp [heq, hfront]
  · rename_i heq
    simp [heq, hfront]
  · exact hfront

/-- The pattern of a filter is long enough and holds neither a dollar sign nor a character that the
line does not have, and its options are well formed. -/
structure ReadFilter (line : List Char) (filter : String) (options : Options) : Prop where
  length : 3 ≤ filter.length
  noDollar : '$' ∉ filter.toList
  subset : filter.toList ⊆ line
  options : options.WellFormed

theorem readFilter_spec {line : List Char} {filter : String} {options : Options}
    (h : readFilter line = .ok (filter, options)) : ReadFilter line filter options := by
  have hpattern : '$' ∉ (splitOptions line).1 ∧ (splitOptions line).1 ⊆ line := by
    rw [splitOptions]
    split
    · rename_i pattern text hcut
      obtain ⟨hnot, hline⟩ := Text.splitFirst?_singleton hcut
      exact ⟨hnot, hline ▸ List.subset_append_left _ _⟩
    · rename_i hnone
      exact ⟨Text.not_mem_of_splitFirstFrom?_eq_none hnone, List.Subset.refl line⟩
  have hoptions : (((splitOptions line).2.map Options.ofText).getD Options.unset).WellFormed := by
    cases (splitOptions line).2 with
    | none => exact Options.wellFormed_unset
    | some text => exact Options.wellFormed_ofText text
  have hread : readFilter line = (urlFilter (splitOptions line).1).map fun filter =>
      (filter, ((splitOptions line).2.map Options.ofText).getD Options.unset) :=
    rfl
  rw [hread, urlFilter] at h
  split at h
  · cases h
  · rename_i hlength
    cases h
    refine ⟨?_, ?_, ?_, hoptions⟩
    · simpa [Rule.minFilterLength] using hlength
    · intro hmem
      exact hpattern.1 (mem_of_mem_barePattern (by simpa using hmem))
    · intro c hc
      exact hpattern.2 (mem_of_mem_barePattern (by simpa using hc))

theorem someIfAny_ne_nil (domains : List String) : someIfAny domains ≠ some [] := by
  cases domains <;> simp [someIfAny]

theorem eq_of_mem_someIfAny {domains ds : List String} (h : ds ∈ someIfAny domains) :
    ds = domains := by
  cases domains with
  | nil => cases h
  | cons d rest => exact (Option.some.inj h).symm

/-- A condition read off a line without a line feed is well formed. -/
theorem ReadFilter.wellFormed {line : List Char} {filter : String} {options : Options}
    (h : ReadFilter line filter options) (hline : '\n' ∉ line) :
    (conditionOf filter options).WellFormed where
  filterLength := h.length
  noDollar := h.noDollar
  noLineFeed := fun hmem => hline (h.subset hmem)
  types_ne_nil := by
    rw [conditionOf]
    dsimp only
    split
    · decide
    · rename_i hne
      simpa using hne
  types_nodup := by
    rw [conditionOf]
    dsimp only
    split
    · decide
    · exact h.options.kinds
  initiators_ne_nil := someIfAny_ne_nil _
  initiators ds hds := eq_of_mem_someIfAny hds ▸ h.options.domains.included
  excluded_ne_nil := someIfAny_ne_nil _
  excluded ds hds := eq_of_mem_someIfAny hds ▸ h.options.domains.excluded

/-- A filter that blocks becomes a well-formed rule. -/
theorem wellFormed_blockRule {line : List Char} {body : RuleBody} (h : blockRule line = .ok body)
    (hline : '\n' ∉ line) (id : RuleId) : (body.withId id).WellFormed := by
  rw [blockRule] at h
  cases hread : readFilter line with
  | error error =>
      rw [hread] at h
      cases h
  | ok read =>
      obtain ⟨filter, options⟩ := read
      rw [hread] at h
      cases h
      refine ⟨(readFilter_spec hread).wellFormed hline, ?_⟩
      cases hflag : options.important <;>
        simp [RuleBody.withId, hflag, Rule.importantPriority, Rule.blockPriority]

/-- An exception becomes a well-formed rule. -/
theorem wellFormed_exceptionRule {line : List Char} {body : RuleBody}
    (h : exceptionRule line = .ok body) (hline : '\n' ∉ line) (id : RuleId) :
    (body.withId id).WellFormed := by
  have hbare : '\n' ∉ (Text.dropLead? "@@".toList line).getD line := by
    cases hdrop : Text.dropLead? "@@".toList line with
    | none => exact hline
    | some rest =>
        intro hmem
        apply hline
        rw [Text.eq_append_of_dropLead? hdrop]
        exact List.mem_append_right _ hmem
  rw [exceptionRule] at h
  dsimp only at h
  cases hread : readFilter ((Text.dropLead? "@@".toList line).getD line) with
  | error error =>
      rw [hread] at h
      cases h
  | ok read =>
      rw [hread] at h
      cases h
      refine ⟨(readFilter_spec hread).wellFormed hbare, ?_⟩
      simp [RuleBody.withId, Rule.exceptionPriority]

/-! ### Element-hiding rules and calls of scriptlets -/

/-- A line with a marker and a selector becomes a well-formed rule. -/
theorem wellFormed_cosmeticRule {line : List Char} {body : CosmeticBody}
    (h : cosmeticRule line = .ok body) (listId : String) (id : RuleId) :
    (body.withId listId id).WellFormed := by
  rw [cosmeticRule] at h
  split at h
  · cases h
  · rename_i marker before after _
    split at h
    · cases h
    · rename_i hselector
      cases h
      refine ⟨?_, by simp [CosmeticBody.withId, Text.trim_trim], DomainScope.wellFormed_ofChars before⟩
      intro hempty
      exact hselector (by simpa [CosmeticBody.withId] using congrArg String.toList hempty)

/-- A call becomes a well-formed record. -/
theorem wellFormed_scriptlet {line : List Char} {body : ScriptletBody}
    (h : Filter.scriptlet line = .ok body) (listId : String) (id : RuleId) :
    (body.withId listId id).WellFormed := by
  rw [Filter.scriptlet] at h
  split at h
  · cases h
  · rename_i before payload hcall
    have hpayload : ')' ∉ payload := by
      obtain ⟨call, _, hcall⟩ := Option.map_eq_some_iff.mp hcall
      cases hcall
      intro hmem
      simpa using List.mem_takeWhile_imp hmem
    have hparts : ∀ part ∈ (payload.splitOn ',').map Text.trim,
        ',' ∉ part ∧ ')' ∉ part ∧ Text.trim part = part := by
      intro part hpart
      obtain ⟨raw, hraw, rfl⟩ := List.mem_map.mp hpart
      obtain ⟨hcomma, hsubset⟩ := Text.of_mem_splitOn hraw
      refine ⟨fun hmem => hcomma (Text.mem_of_mem_trim hmem), ?_, Text.trim_trim raw⟩
      intro hmem
      exact hpayload (hsubset (Text.mem_of_mem_trim hmem))
    split at h
    · cases h
    · rename_i name args hsplit
      rw [hsplit] at hparts
      split at h
      · cases h
      · rename_i hname
        cases h
        refine ⟨?_, ?_, ?_, DomainScope.wellFormed_ofChars before⟩
        · intro hempty
          exact hname (by simpa [ScriptletBody.withId] using congrArg String.toList hempty)
        · simpa [ScriptletBody.withId] using (hparts name List.mem_cons_self).2.2
        · intro part hpart
          have hmem : part.toList ∈ name :: args := by
            rcases List.mem_cons.mp hpart with rfl | hpart
            · simp [ScriptletBody.withId]
            · obtain ⟨arg, harg, rfl⟩ := List.mem_map.mp hpart
              simp [harg]
          obtain ⟨hcomma, hclose, _⟩ := hparts _ hmem
          exact ⟨hcomma, hclose⟩

end Filter

/-! ### Compiled lists -/

/-- A record of any kind that is well formed. -/
def Record.WellFormed : Record → Prop
  | .network rule => rule.WellFormed
  | .cosmetic rule => rule.WellFormed
  | .scriptlet call => call.WellFormed

/-- A draft makes well-formed records, whatever list they stand in and whatever their ids are. -/
def Filter.Draft.WellFormed (draft : Draft) : Prop :=
  ∀ listId id, (Record.ofDraft listId id draft).WellFormed

theorem Filter.Reading.draft?_ofResult {α : Type} {make : α → Draft} {line : List Char}
    {result : Except LineError α} {draft : Draft}
    (h : draft ∈ (ofResult make line result).draft?) : ∃ body, result = .ok body ∧ draft = make body := by
  cases result with
  | error error => cases h
  | ok body =>
      cases h
      exact ⟨body, rfl, rfl⟩

/-- What a line gives makes a well-formed record. -/
theorem Filter.Reading.wellFormed_of {line : List Char} (hline : '\n' ∉ line) {draft : Draft}
    (h : draft ∈ (of line).draft?) : draft.WellFormed := by
  have htrim : '\n' ∉ Text.trim line := fun hmem => hline (Text.mem_of_mem_trim hmem)
  intro listId id
  rw [of, ofTrimmed] at h
  cases hkind : LineKind.ofTrimmed? (Text.trim line) with
  | none =>
      rw [hkind] at h
      cases h
  | some kind =>
      rw [hkind] at h
      cases kind with
      | comment => cases h
      | cosmetic =>
          obtain ⟨body, hbody, rfl⟩ := draft?_ofResult h
          exact wellFormed_cosmeticRule hbody listId id
      | scriptlet =>
          obtain ⟨body, hbody, rfl⟩ := draft?_ofResult h
          exact wellFormed_scriptlet hbody listId id
      | exception =>
          obtain ⟨body, hbody, rfl⟩ := draft?_ofResult h
          exact wellFormed_exceptionRule hbody htrim id
      | network =>
          obtain ⟨body, hbody, rfl⟩ := draft?_ofResult h
          exact wellFormed_blockRule hbody htrim id

/-- Every record of a compiled text is well formed. -/
theorem wellFormed_compileList (ids : IdSequence) (listId text : String) :
    (compileList ids listId text).list.WellFormed := by
  have hrecords : ∀ record ∈ (ids.label listId
      (((Text.lines text.toList).map Reading.of).filterMap Reading.draft?)).1, record.WellFormed := by
    intro record hrecord
    obtain ⟨id, draft, hdraft, rfl⟩ := IdSequence.exists_draft_of_mem_label hrecord
    obtain ⟨reading, hreading, hdraft⟩ := List.mem_filterMap.mp hdraft
    obtain ⟨line, hline, rfl⟩ := List.mem_map.mp hreading
    exact Reading.wellFormed_of (Text.of_mem_splitOn hline).1 hdraft listId id
  rw [Compilation.compileList_eq, Compilation.list_ofReadings]
  constructor
  · intro rule hrule
    obtain ⟨record, hrecord, hrule⟩ := List.mem_filterMap.mp hrule
    have hformed := hrecords record hrecord
    cases record with
    | network r => exact Option.some.inj hrule ▸ hformed
    | _ => cases hrule
  · intro rule hrule
    obtain ⟨record, hrecord, hrule⟩ := List.mem_filterMap.mp hrule
    have hformed := hrecords record hrecord
    cases record with
    | cosmetic r => exact Option.some.inj hrule ▸ hformed
    | _ => cases hrule
  · intro call hcall
    obtain ⟨record, hrecord, hcall⟩ := List.mem_filterMap.mp hcall
    have hformed := hrecords record hrecord
    cases record with
    | scriptlet s => exact Option.some.inj hcall ▸ hformed
    | _ => cases hcall

end Blocklist
