import Blocklist.Proofs.LastCall
import Blocklist.Proofs.SpelledScopes
import Blocklist.Proofs.WrittenSelectors
import Blocklist.Registry.Basic

/-!
# Letter case in the domains of a rule

Whether a rule is given for a host depends on how the domains in front of it are written: the host is
compared in lower case with the domains as they stand. So a domain with a capital in it is never met,
neither as one that is included nor as one that is excluded. Where no letter decides, the spelling
does not matter, and there alone.

## Implementation notes

Element-hiding rules and calls of scriptlets are found by the same rules, up to the exceptions, which
are given for no host. `RecordKind` holds what both have in common.
-/

namespace Blocklist

open Text (SpelledAlike recasing_toLower)

namespace Filter

/-! ### Lines whose domains are spelled anew -/

theorem CosmeticMarker.isAlpha_of_mem_text (marker : CosmeticMarker) :
    ∀ m ∈ marker.text, m.isAlpha = false := by
  cases marker <;> simp [text]

theorem eq_append_of_splitCosmetic? {line before after : List Char} {marker : CosmeticMarker}
    (h : splitCosmetic? line = some (marker, before, after)) :
    line = before ++ (marker.text ++ after) := by
  obtain ⟨found, -, hcut⟩ := List.exists_of_findSome?_eq_some h
  obtain ⟨cut, hfirst, heq⟩ := Option.map_eq_some_iff.mp hcut
  cases heq
  exact Text.eq_append_of_splitFirst? hfirst

/-- In small letters a line is cut where it is cut as it stands. -/
theorem splitCosmetic?_map_toLower (line : List Char) :
    splitCosmetic? (line.map Char.toLower) = (splitCosmetic? line).map
      fun (marker, before, after) => (marker, before.map Char.toLower, after.map Char.toLower) :=
  splitCosmetic?_of_cuts fun marker =>
    recasing_toLower.splitFirst?_map marker.isAlpha_of_mem_text line

/-- A line is cut at the same place however its domains are spelled. -/
theorem splitCosmetic?_of_spelledAlike {before before' after : List Char} {marker : CosmeticMarker}
    (h : splitCosmetic? (before ++ (marker.text ++ after)) = some (marker, before, after))
    (hbefore : SpelledAlike before' before) :
    splitCosmetic? (before' ++ (marker.text ++ after)) = some (marker, before', after) := by
  -- in small letters both lines are the same, so the places where they are cut are equally far on
  have hlines : SpelledAlike (before' ++ (marker.text ++ after))
      (before ++ (marker.text ++ after)) := hbefore.append rfl
  have hlower := splitCosmetic?_map_toLower (before' ++ (marker.text ++ after))
  rw [hlines, splitCosmetic?_map_toLower, h, Option.map_some] at hlower
  obtain ⟨⟨marker', left, right⟩, hcut, heq⟩ := Option.map_eq_some_iff.mp hlower.symm
  obtain ⟨hmarker, hparts⟩ := Prod.mk.inj heq
  obtain ⟨hleft, -⟩ := Prod.mk.inj hparts
  subst hmarker
  have hlength : left.length = before'.length := by
    have hsame : SpelledAlike left before := hleft
    rw [hsame.length_eq, hbefore.length_eq]
  obtain ⟨rfl, hrest⟩ := List.append_inj (eq_append_of_splitCosmetic? hcut).symm hlength
  rw [hcut, List.append_cancel_left hrest]

/-- What stands in front of the last call of a line does not decide which call is the last one. -/
theorem LastCall.replace_front {before rest payload : List Char}
    (h : LastCall (before ++ rest) before payload) (before' : List Char) :
    LastCall (before' ++ rest) before' payload where
  exists_after := by
    obtain ⟨after, hline⟩ := h.exists_after
    exact ⟨after, by rw [List.append_cancel_left hline]⟩
  nonempty := h.nonempty
  noClose := h.noClose
  last left payload' hcall := by
    obtain ⟨after, hline⟩ := hcall.exists_after
    by_contra hlater
    rcases List.append_eq_append_iff.mp hline with ⟨between, hleft, hrest⟩ | ⟨between, hleft, -⟩
    · have hcall' : CallAt (before ++ rest) (before ++ between) payload' :=
        ⟨⟨after, by rw [hrest, List.append_assoc]⟩, hcall.nonempty, hcall.noClose⟩
      have hle := h.last _ _ hcall'
      rw [hleft] at hlater
      simp only [List.length_append] at hle hlater
      omega
    · rw [hleft, List.length_append] at hlater
      omega

end Filter

/-! ### Records and the hosts they are for -/

/-- A registry with one list, which is enabled and holds what was compiled from one source. -/
def Registry.holding (segment : Segment) : Registry where
  lists := [{ (default : FilterList) with enabled := true }]
  categories := .empty
  ids := default
  cache := Dict.empty.insert (default : FilterList).id ⟨[segment]⟩
  budget := 0

theorem Registry.enabledArtifacts_holding (segment : Segment) :
    (holding segment).enabledArtifacts = [⟨[segment]⟩] :=
  rfl

/-- A kind of records that are for hosts: how a line of the kind is compiled, which records the
enabled lists of a registry hold, and which of them the registry gives for a host. -/
structure RecordKind (Body Record : Type) where
  compile : List Char → Except Filter.LineError Body
  withId : Body → String → RuleId → Record
  scope : Body → DomainScope
  /-- Whether a record is given for no host. -/
  withheld : Body → Bool
  held : Registry → List Record
  given : Registry → String → List Record
  mem_given_iff : ∀ {r : Registry} {body : Body} {listId : String} {id : RuleId} (host : String),
    withId body listId id ∈ held r → (withId body listId id ∈ given r host ↔
      withheld body = false ∧ Host.isCovered (Host.lower host) (scope body) = true)
  exists_held : ∀ record, ∃ r, record ∈ held r

namespace RecordKind

/-- Element-hiding rules. Those that are exceptions are given for no host. -/
def cosmeticRules : RecordKind Filter.CosmeticBody CosmeticRule where
  compile := Filter.cosmeticRule
  withId := Filter.CosmeticBody.withId
  scope body := body.scope
  withheld body := body.exception
  held r := r.enabledArtifacts.flatMap (·.cosmeticRules)
  given := Registry.cosmeticRulesFor
  mem_given_iff host hheld := by
    rw [Registry.cosmeticRulesFor, List.mem_filter, and_iff_right hheld, Bool.and_eq_true,
      Bool.not_eq_true']
    rfl
  exists_held rule := by
    refine ⟨.holding { (default : Segment) with cosmeticRules := [rule] }, ?_⟩
    rw [Registry.enabledArtifacts_holding]
    exact List.mem_singleton_self rule

/-- Calls of scriptlets. -/
def scriptlets : RecordKind Filter.ScriptletBody Scriptlet where
  compile := Filter.scriptlet
  withId := Filter.ScriptletBody.withId
  scope body := body.scope
  withheld _ := false
  held r := r.enabledArtifacts.flatMap (·.scriptlets)
  given := Registry.scriptletsFor
  mem_given_iff host hheld := by
    rw [Registry.scriptletsFor, List.mem_filter, and_iff_right hheld, and_iff_right rfl]
    rfl
  exists_held call := by
    refine ⟨.holding { (default : Segment) with scriptlets := [call] }, ?_⟩
    rw [Registry.enabledArtifacts_holding]
    exact List.mem_singleton_self call

variable {Body Record : Type} (kind : RecordKind Body Record)

/-- Two lines compile to records of which registries give both or neither, the one for one host and
the other for another, wherever their enabled lists hold them. -/
def GivenAlike (line line' : List Char) (host host' : String) : Prop :=
  ∃ body body', kind.compile line = .ok body ∧ kind.compile line' = .ok body' ∧
    ∀ (r r' : Registry) (listId listId' : String) (id id' : RuleId),
      kind.withId body listId id ∈ kind.held r → kind.withId body' listId' id' ∈ kind.held r' →
        (kind.withId body listId id ∈ kind.given r host ↔
          kind.withId body' listId' id' ∈ kind.given r' host')

/-- The case of letters does not matter, neither in the text in front of a line nor in a host. -/
def CaseIsFree (before rest : List Char) (host : String) : Prop :=
  ∀ before' host', SpelledAlike before' before → SpelledAlike host'.toList host.toList →
    kind.GivenAlike (before ++ rest) (before' ++ rest) host host'

/-- What a line with domains in front of it gives for a host: the record of the line is given where
its domains without capitals cover the host, and the case of letters does not matter exactly where it
is an exception or where it covers the host under every spelling or under none. -/
structure CaseAccount (before rest : List Char) (body : Body) (host : String) : Prop where
  mem_given_iff : ∀ (r : Registry) (listId : String) (id : RuleId),
    kind.withId body listId id ∈ kind.held r → (kind.withId body listId id ∈ kind.given r host ↔
      kind.withheld body = false ∧ (kind.scope body).CoversWhere host
        (fun domain => Host.lower domain = domain) fun domain => Host.lower domain = domain)
  caseIsFree_iff : kind.CaseIsFree before rest host ↔
    kind.withheld body = true ∨ ((kind.scope body).MayCover host → (kind.scope body).MustCover host)

variable {kind}

/-- Two records are given alike if both are withheld or their scopes cover their hosts alike. -/
theorem givenAlike_iff {line line' : List Char} {host host' : String} {body body' : Body}
    (h : kind.compile line = .ok body) (h' : kind.compile line' = .ok body') :
    kind.GivenAlike line line' host host' ↔
      ((kind.withheld body = false ∧
          Host.isCovered (Host.lower host) (kind.scope body) = true) ↔
        kind.withheld body' = false ∧
          Host.isCovered (Host.lower host') (kind.scope body') = true) := by
  constructor
  · rintro ⟨found, found', hfound, hfound', halike⟩
    cases h.symm.trans hfound
    cases h'.symm.trans hfound'
    obtain ⟨r, hheld⟩ := kind.exists_held (kind.withId body default default)
    obtain ⟨r', hheld'⟩ := kind.exists_held (kind.withId body' default default)
    rw [← kind.mem_given_iff host hheld, ← kind.mem_given_iff host' hheld']
    exact halike r r' _ _ _ _ hheld hheld'
  · intro halike
    refine ⟨body, body', h, h', fun r r' listId listId' id id' hheld hheld' => ?_⟩
    rw [kind.mem_given_iff host hheld, kind.mem_given_iff host' hheld', halike]

/-- A line whose record has the domains that stand in front of it, however these are spelled. -/
def Heads (kind : RecordKind Body Record) (before rest : List Char) (body : Body) : Prop :=
  ∀ before', SpelledAlike before' before → ∃ body', kind.compile (before' ++ rest) = .ok body' ∧
    kind.withheld body' = kind.withheld body ∧ kind.scope body' = DomainScope.ofChars before'

theorem Heads.caseAccount {before rest : List Char} {body : Body}
    (h : kind.Heads before rest body) (hbody : kind.compile (before ++ rest) = .ok body)
    (host : String) : kind.CaseAccount before rest body host where
  mem_given_iff r listId id hheld := by
    rw [kind.mem_given_iff host hheld, DomainScope.isCovered_lower_iff]
  caseIsFree_iff := by
    have hscope : kind.scope body = DomainScope.ofChars before := by
      obtain ⟨body', hbody', -, hscope⟩ := h before rfl
      cases hbody.symm.trans hbody'
      exact hscope
    have hsame : ∀ before' host', SpelledAlike before' before →
        (kind.GivenAlike (before ++ rest) (before' ++ rest) host host' ↔
          (kind.withheld body = false →
            (Host.isCovered (Host.lower host') (DomainScope.ofChars before') = true ↔
              Host.isCovered (Host.lower host) (DomainScope.ofChars before) = true))) := by
      intro before' host' hbefore
      obtain ⟨body', hbody', hwithheld', hscope'⟩ := h before' hbefore
      rw [givenAlike_iff hbody hbody', hwithheld', hscope', hscope]
      tauto
    rw [hscope, ← DomainScope.every_spelling_covers_iff]
    constructor
    · intro hfree
      cases hwithheld : kind.withheld body with
      | true => exact .inl rfl
      | false =>
          right
          intro before' host' hbefore hhost
          exact (hsame before' host' hbefore).mp (hfree before' host' hbefore hhost) hwithheld
    · intro hdecided before' host' hbefore hhost
      rw [hsame before' host' hbefore]
      intro hshown
      rcases hdecided with hwithheld | hdecided
      · rw [hshown] at hwithheld
        cases hwithheld
      · exact hdecided before' host' hbefore hhost

end RecordKind

namespace Filter

theorem cosmeticRules_heads {before after : List Char} {marker : CosmeticMarker}
    {body : CosmeticBody}
    (hcut : splitCosmetic? (before ++ (marker.text ++ after)) = some (marker, before, after))
    (hbody : cosmeticRule (before ++ (marker.text ++ after)) = .ok body) :
    RecordKind.cosmeticRules.Heads before (marker.text ++ after) body := by
  intro before' hbefore
  have hcut' := splitCosmetic?_of_spelledAlike hcut hbefore
  rw [cosmeticRule_of_split hcut] at hbody
  split at hbody
  · cases hbody
  · rename_i hne
    cases hbody
    exact ⟨_, (cosmeticRule_of_split hcut').trans (if_neg hne), rfl, rfl⟩

theorem scriptlets_heads {before rest payload : List Char} {body : ScriptletBody}
    (hbefore : '\n' ∉ before) (hlast : LastCall (before ++ rest) before payload)
    (hbody : Filter.scriptlet (before ++ rest) = .ok body) :
    RecordKind.scriptlets.Heads before rest body := by
  intro before' hspelled
  have hbefore' : '\n' ∉ before' := hspelled.not_mem (by decide) hbefore
  have hcall' := (hlast.replace_front before').lastCall?_eq hbefore'
  rw [scriptlet_of_lastCall? (hlast.lastCall?_eq hbefore)] at hbody
  split at hbody
  · cases hbody
  · rename_i hne
    cases hbody
    exact ⟨_, (scriptlet_of_lastCall? hcall').trans (if_neg hne), rfl, rfl⟩

end Filter

namespace RecordKind

/-- **The spelling of domains is free exactly where no letter decides.** For a line of either kind
with domains in front of it, and for every host: the enabled lists that hold the record of the line
give it for the host exactly if the domains without capitals cover the host. And the record is given
under all spellings of the domains and of the host or under none exactly if it is an exception, or if
its domains must cover the host wherever they may: if no domain with a letter decides. -/
theorem spelling_of_domains_is_free_iff (host : String) :
    (∀ (before after : List Char) (marker : Filter.CosmeticMarker) (body : Filter.CosmeticBody),
      Filter.splitCosmetic? (before ++ (marker.text ++ after)) = some (marker, before, after) →
      Filter.cosmeticRule (before ++ (marker.text ++ after)) = .ok body →
      cosmeticRules.CaseAccount before (marker.text ++ after) body host) ∧
    ∀ (before rest payload : List Char) (body : Filter.ScriptletBody),
      '\n' ∉ before → Filter.LastCall (before ++ rest) before payload →
      Filter.scriptlet (before ++ rest) = .ok body →
      scriptlets.CaseAccount before rest body host := by
  constructor
  · intro before after marker body hcut hbody
    exact (Filter.cosmeticRules_heads hcut hbody).caseAccount hbody host
  · intro before rest payload body hbefore hlast hbody
    exact (Filter.scriptlets_heads hbefore hlast hbody).caseAccount hbody host

theorem spelling_of_domains_is_free_sample :
    cosmeticRules.CaseIsFree "example.com".toList "##.ad".toList "example.org" ∧
      ¬cosmeticRules.CaseIsFree "example.com".toList "##.ad".toList "www.example.com" ∧
      scriptlets.CaseIsFree "127.0.0.1".toList "#+js(x)".toList "127.0.0.1" := by
  have hrule : ∀ host, cosmeticRules.CaseAccount "example.com".toList "##.ad".toList
      ⟨⟨["example.com"], []⟩, ".ad", false⟩ host :=
    fun host => (spelling_of_domains_is_free_iff host).1 _ ".ad".toList .plain _
      (by decide +kernel) (by decide +kernel)
  have hcall : scriptlets.CaseAccount "127.0.0.1".toList "#+js(x)".toList
      ⟨⟨["127.0.0.1"], []⟩, "x", []⟩ "127.0.0.1" :=
    (spelling_of_domains_is_free_iff "127.0.0.1").2 _ _ "x".toList _ (by decide)
      ((Filter.lastCall?_eq_some_iff (by decide)).mp (by decide +kernel)) (by decide +kernel)
  refine ⟨?_, ?_, ?_⟩
  · rw [(hrule _).caseIsFree_iff]
    decide +kernel
  · rw [(hrule _).caseIsFree_iff]
    decide +kernel
  · rw [hcall.caseIsFree_iff]
    decide +kernel

/-- The rule `.ad` for one domain. -/
def adRule (domain : String) : CosmeticRule :=
  ⟨"cosmetic_1000", "ads", [domain], [], ".ad", false⟩

/-- With a capital in its domain, a rule is not given for the host it is for. -/
theorem capital_domain_is_not_met :
    (compileLine Filter.cosmeticRule (·.withId "ads") default "Example.com##.ad").1 =
        .ok (adRule "Example.com") ∧
      (compileLine Filter.cosmeticRule (·.withId "ads") default "example.com##.ad").1 =
        .ok (adRule "example.com") ∧
      (Registry.holding { (default : Segment) with
        cosmeticRules := [adRule "Example.com"] }).cosmeticRulesFor "example.com" = [] ∧
      (Registry.holding { (default : Segment) with
        cosmeticRules := [adRule "example.com"] }).cosmeticRulesFor "example.com" =
          [adRule "example.com"] ∧
      ¬cosmeticRules.CaseIsFree "example.com".toList "##.ad".toList "example.com" := by
  refine ⟨by decide +kernel, by decide +kernel, by decide +kernel, by decide +kernel, ?_⟩
  intro hfree
  have hsmall : cosmeticRules.compile "example.com##.ad".toList =
      .ok ⟨⟨["example.com"], []⟩, ".ad", false⟩ := by
    decide +kernel
  have hcapital : cosmeticRules.compile "Example.com##.ad".toList =
      .ok ⟨⟨["Example.com"], []⟩, ".ad", false⟩ := by
    decide +kernel
  have halike := (givenAlike_iff hsmall hcapital).mp
    (hfree "Example.com".toList "example.com" (by decide +kernel) rfl)
  revert halike
  decide +kernel

end RecordKind

end Blocklist
