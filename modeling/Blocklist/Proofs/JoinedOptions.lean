import Blocklist.CompiledList
import Blocklist.Proofs.Text.Case

/-!
# Lists of options that are joined, and noise in them

The options of two texts with a comma between them come from the options of each. A token that is
blank, that names nothing or that takes a type away leaves no trace in a rule, wherever it stands, and
neither do capitals and blanks around a token.

## Implementation notes

`heard` is what a list of options is compared by. It is read off the text alone, without reading any
option. The options that a rule depends on then turn out to be those of the tokens that are heard.
-/

namespace Blocklist.Filter

/-! ### Two lists in a row -/

/-- Options followed by further options. Lists go on, a type that is named already is not named
again, and a later party takes the place of an earlier one. -/
def Options.followedBy (a b : Options) : Options where
  kinds := a.kinds ++ b.kinds.filter fun kind => kind ∉ a.kinds
  domains := ⟨a.domains.included ++ b.domains.included, a.domains.excluded ++ b.domains.excluded⟩
  party := b.party.or a.party
  important := a.important || b.important
  notKinds := ResourceType.all.filter fun kind => kind ∈ a.notKinds ∨ kind ∈ b.notKinds
  unknown := a.unknown ++ b.unknown

section

variable {α : Type} [DecidableEq α]

theorem eraseDups_concat (as : List α) (a : α) :
    (as ++ [a]).eraseDups = if a ∈ as then as.eraseDups else as.eraseDups ++ [a] := by
  rw [List.eraseDups_append]
  by_cases h : a ∈ as <;> simp [h, List.removeAll, List.eraseDups_cons]

/-- Without repetitions, a list goes on with what is new in the next one. -/
theorem eraseDups_append_eq (as bs : List α) :
    (as ++ bs).eraseDups = as.eraseDups ++ bs.eraseDups.filter fun b => b ∉ as.eraseDups := by
  induction bs using List.reverseRecOn with
  | nil => simp
  | append_singleton bs b ih =>
      rw [← List.append_assoc, eraseDups_concat, eraseDups_concat, ih]
      by_cases hold : b ∈ bs
      · simp [hold]
      · by_cases hseen : b ∈ as <;> simp [hold, hseen]

end

theorem mem_notKinds_ofTokens {kind : ResourceType} {tokens : List OptionToken} :
    kind ∈ (Options.ofTokens tokens).notKinds ↔ kind ∈ tokens.filterMap OptionToken.notKind? := by
  have hall : kind ∈ ResourceType.all := by
    cases kind <;> decide
  simp [Options.ofTokens, hall]

/-- What two lists of options say, one after the other. -/
theorem Options.ofTokens_append (as bs : List OptionToken) :
    ofTokens (as ++ bs) = (ofTokens as).followedBy (ofTokens bs) := by
  rw [followedBy]
  simp only [mem_notKinds_ofTokens]
  rw [ofTokens, Options.mk.injEq]
  refine ⟨?_, ?_, ?_, ?_, ?_, ?_⟩
  · rw [List.filterMap_append]
    exact eraseDups_append_eq _ _
  · simp [ofTokens, DomainScope.ofEntries]
  · simp [ofTokens]
  · simp [ofTokens]
  · apply List.filter_congr
    simp
  · simp [ofTokens]

theorem OptionToken.ofText_append (a b : List Char) :
    ofText (a ++ ',' :: b) = ofText a ++ ofText b := by
  rw [ofText, List.splitOn_append_cons_self, List.map_append, List.filter_append, List.map_append]
  rfl

/-! ### Tokens that are heard -/

/-- The tokens of one spelling that name something other than a type. -/
def optionWords : List (List Char) :=
  ["third-party", "~third-party", "first-party", "important"].map (·.toList)

/-- Whether a token in lower case names something. -/
def isNamed (token : List Char) : Bool :=
  "domain=".toList.isPrefixOf token || optionWords.contains token ||
    ResourceType.all.any fun resource => resource.optionName.toList == token

/-- Whether a token in lower case has no effect: it is empty, or turned round by a tilde and not the
contrary of a party, or it names nothing. -/
def isNoise (token : List Char) : Bool :=
  token.isEmpty || (token.head? == some '~' && token != "~third-party".toList) || !isNamed token

/-- The tokens of a text that have an effect, without blank ends and in lower case. -/
def heard (s : List Char) : List (List Char) :=
  ((s.splitOn ',').map fun part => (Text.trim part).map Char.toLower).filter (!isNoise ·)

/-- An option that no rule keeps. -/
def OptionToken.isIdle : OptionToken → Bool
  | .notKind _ => true
  | .unknown _ => true
  | _ => false

/-- The option of a type that a token in lower case names, or another one if it names none. -/
def typeOptionOf (other : OptionToken) : List Char → OptionToken
  | '~' :: name =>
    match ResourceType.ofOptionName? (String.ofList name) with
    | some resource => .notKind resource
    | none => other
  | name =>
    match ResourceType.ofOptionName? (String.ofList name) with
    | some resource => .kind resource
    | none => other

/-- The option that a token in lower case stands for, or another one if it names nothing. -/
def optionOf (other : OptionToken) (lower : List Char) : OptionToken :=
  match Text.dropLead? "domain=".toList lower with
  | some value => .domains (DomainScope.entries '|' value)
  | none =>
    if lower = "third-party".toList then .party .third
    else if lower = "~third-party".toList || lower = "first-party".toList then .party .first
    else if lower = "important".toList then .important
    else typeOptionOf other lower

/-- Only a token that names nothing is read by its spelling. -/
theorem OptionToken.ofToken_eq (token : List Char) :
    ofToken token = optionOf (.unknown (String.ofList token)) (token.map Char.toLower) :=
  rfl

theorem typeOptionOf_tilde (other : OptionToken) (name : List Char) :
    typeOptionOf other ('~' :: name) =
      ((ResourceType.ofOptionName? (String.ofList name)).map .notKind).getD other := by
  rw [typeOptionOf]
  cases ResourceType.ofOptionName? (String.ofList name) <;> rfl

theorem typeOptionOf_cons {c : Char} (hc : c ≠ '~') (other : OptionToken) (name : List Char) :
    typeOptionOf other (c :: name) =
      ((ResourceType.ofOptionName? (String.ofList (c :: name))).map .kind).getD other := by
  rw [typeOptionOf.eq_def]
  split
  · rename_i heq
    exact absurd (List.cons.inj heq).1 hc
  · cases ResourceType.ofOptionName? (String.ofList (c :: name)) <;> rfl

/-- A token that is no other option names a type, or nothing. -/
theorem optionOf_eq_typeOptionOf {lower : List Char} (other : OptionToken)
    (hdomain : Text.dropLead? "domain=".toList lower = none) (hword : lower ∉ optionWords) :
    optionOf other lower = typeOptionOf other lower := by
  have hne : ∀ word ∈ optionWords, lower ≠ word := by
    rintro word hmem rfl
    exact hword hmem
  have hthird := hne "third-party".toList (by decide)
  have himportant := hne "important".toList (by decide)
  have hparty : ¬ (decide (lower = "~third-party".toList) ||
      decide (lower = "first-party".toList)) = true := by
    simp only [Bool.or_eq_true, decide_eq_true_eq, hne "~third-party".toList (by decide),
      hne "first-party".toList (by decide), or_self, not_false_eq_true]
  rw [optionOf, hdomain]
  dsimp only
  rw [if_neg hthird, if_neg hparty, if_neg himportant]

theorem ofOptionName?_eq_some {name : List Char} {resource : ResourceType}
    (h : ResourceType.ofOptionName? (String.ofList name) = some resource) :
    resource.optionName.toList = name := by
  have hname := List.find?_some h
  rw [beq_iff_eq.mp hname, String.toList_ofList]

theorem isNoise_optionName (resource : ResourceType) :
    isNoise resource.optionName.toList = false := by
  cases resource <;> decide

/-- A token that is no option of any kind is noise. -/
theorem isNoise_of_unnamed {token : List Char}
    (hdomain : Text.dropLead? "domain=".toList token = none) (hword : token ∉ optionWords)
    (htype : ResourceType.ofOptionName? (String.ofList token) = none) : isNoise token = true := by
  have hprefix : "domain=".toList.isPrefixOf token = false := by
    rw [← Text.isSome_dropLead?, hdomain, Option.isSome_none]
  have hcontains : optionWords.contains token = false :=
    Bool.eq_false_iff.mpr (mt List.contains_iff_mem.mp hword)
  have hnone :
      (ResourceType.all.any fun resource => resource.optionName.toList == token) = false := by
    rw [List.any_eq_false]
    intro resource hmem hname
    apply List.find?_eq_none.mp htype resource hmem
    rw [← beq_iff_eq.mp hname, String.ofList_toList, beq_self_eq_true]
  rw [isNoise, isNamed, hprefix, hcontains, hnone]
  exact Bool.or_true _

/-- How a token in lower case is read: noise adds nothing to an idle option, and any other token
stands for one option that is not idle. -/
inductive ReadsAs (lower : List Char) : Prop
  | noise (h : isNoise lower = true)
      (idle : ∀ other : OptionToken, other.isIdle = true → (optionOf other lower).isIdle = true)
  | option (h : isNoise lower = false) (token : OptionToken) (active : token.isIdle = false)
      (eq : ∀ other, optionOf other lower = token)

theorem readsAs (lower : List Char) : ReadsAs lower := by
  cases hdomain : Text.dropLead? "domain=".toList lower with
  | some value =>
      rw [Text.eq_append_of_dropLead? hdomain]
      exact .option rfl _ rfl fun _ => rfl
  | none =>
      by_cases hword : lower ∈ optionWords
      · simp only [optionWords, List.map_cons, List.map_nil, List.mem_cons, List.not_mem_nil,
          or_false] at hword
        rcases hword with rfl | rfl | rfl | rfl
        · exact .option (by decide) (.party .third) rfl fun _ => rfl
        · exact .option (by decide) (.party .first) rfl fun _ => rfl
        · exact .option (by decide) (.party .first) rfl fun _ => rfl
        · exact .option (by decide) .important rfl fun _ => rfl
      have heq : ∀ other, optionOf other lower = typeOptionOf other lower :=
        fun other => optionOf_eq_typeOptionOf other hdomain hword
      cases lower with
      | nil => exact .noise rfl fun _ h => h
      | cons c name =>
          by_cases hc : c = '~'
          · subst hc
            have hne : (('~' :: name) != "~third-party".toList) = true := by
              apply bne_iff_ne.mpr
              intro hcontrary
              exact hword (hcontrary ▸ by decide)
            refine .noise (by rw [isNoise, hne]; rfl) fun other hother => ?_
            rw [heq, typeOptionOf_tilde]
            cases ResourceType.ofOptionName? (String.ofList name) with
            | some resource => rfl
            | none => exact hother
          · cases htype : ResourceType.ofOptionName? (String.ofList (c :: name)) with
            | some resource =>
                have hnoise := isNoise_optionName resource
                rw [ofOptionName?_eq_some htype] at hnoise
                refine .option hnoise (.kind resource) rfl fun other => ?_
                rw [heq, typeOptionOf_cons hc, htype]
                rfl
            | none =>
                refine .noise (isNoise_of_unnamed hdomain hword htype) fun other hother => ?_
                rw [heq, typeOptionOf_cons hc, htype]
                exact hother

/-- The options that are not idle are read off the tokens that are heard. -/
theorem filter_isIdle_ofText (s : List Char) :
    (OptionToken.ofText s).filter (!·.isIdle) = (heard s).map OptionToken.ofToken := by
  rw [OptionToken.ofText, heard]
  induction s.splitOn ',' with
  | nil => rfl
  | cons part parts ih =>
      have hread := OptionToken.ofToken_eq (Text.trim part)
      simp only [List.map_cons, List.filter_cons]
      cases readsAs ((Text.trim part).map Char.toLower) with
      | noise hnoise hidle =>
          have hdrop : (OptionToken.ofToken (Text.trim part)).isIdle = true := by
            rw [hread]
            exact hidle _ rfl
          cases (Text.trim part).isEmpty <;> simp [hnoise, hdrop, ih]
      | option hheard token hactive heq =>
          have hne : (Text.trim part).isEmpty = false := by
            rw [Bool.eq_false_iff]
            intro hempty
            rw [List.isEmpty_iff.mp hempty] at hheard
            cases hheard
          have hlower : OptionToken.ofToken ((Text.trim part).map Char.toLower) = token := by
            rw [OptionToken.ofToken_eq, Text.recasing_toLower.spelledAlike_map]
            exact heq _
          have hkept : OptionToken.ofToken (Text.trim part) = token := hread.trans (heq _)
          simp [hheard, hne, hlower, hkept, hactive, ih]

/-! ### Rules -/

/-- Options that give the same rule. -/
structure Options.Alike (a b : Options) : Prop where
  kinds : a.kinds = b.kinds
  domains : a.domains = b.domains
  party : a.party = b.party
  important : a.important = b.important

theorem filterMap_filter_isIdle {β : Type} {f : OptionToken → Option β}
    (hf : ∀ token, token.isIdle = true → f token = none) (tokens : List OptionToken) :
    (tokens.filter (!·.isIdle)).filterMap f = tokens.filterMap f := by
  rw [List.filterMap_filter]
  apply List.filterMap_congr
  intro token _
  cases hidle : token.isIdle with
  | false => rfl
  | true => exact (hf token hidle).symm

/-- A rule does not depend on idle options. -/
theorem Options.alike_filter_isIdle (tokens : List OptionToken) :
    (ofTokens (tokens.filter (!·.isIdle))).Alike (ofTokens tokens) where
  kinds := by
    apply congrArg List.eraseDups
    apply filterMap_filter_isIdle
    intro token hidle
    cases token <;> first | rfl | cases hidle
  domains := by
    apply congrArg DomainScope.ofEntries
    induction tokens with
    | nil => rfl
    | cons token tokens ih =>
        rw [List.filter_cons, List.flatMap_cons, ← ih]
        cases token <;> rfl
  party := by
    apply congrArg List.getLast?
    apply filterMap_filter_isIdle
    intro token hidle
    cases token <;> first | rfl | cases hidle
  important := by
    simp [ofTokens, OptionToken.isIdle]

theorem Options.alike_of_heard {s t : List Char} (h : heard s = heard t) :
    (ofText s).Alike (ofText t) := by
  have hs := alike_filter_isIdle (OptionToken.ofText s)
  have ht := alike_filter_isIdle (OptionToken.ofText t)
  rw [filter_isIdle_ofText] at hs ht
  rw [h] at hs
  exact ⟨hs.kinds.symm.trans ht.kinds, hs.domains.symm.trans ht.domains,
    hs.party.symm.trans ht.party, hs.important.symm.trans ht.important⟩

theorem Options.Alike.conditionOf_eq {a b : Options} (h : a.Alike b) (filter : String) :
    conditionOf filter a = conditionOf filter b := by
  rw [conditionOf, conditionOf, h.kinds, h.domains, h.party]

section

variable {pattern s t : List Char}

theorem readFilter_append (hpattern : '$' ∉ pattern) :
    readFilter (pattern ++ '$' :: s) =
      (urlFilter pattern).map fun filter => (filter, Options.ofText s) := by
  rw [readFilter, splitOptions, Text.splitFirst?_append hpattern]
  rfl

theorem blockRule_congr (hpattern : '$' ∉ pattern) (h : (Options.ofText s).Alike (.ofText t)) :
    blockRule (pattern ++ '$' :: s) = blockRule (pattern ++ '$' :: t) := by
  rw [blockRule, blockRule, readFilter_append hpattern, readFilter_append hpattern]
  cases urlFilter pattern with
  | error error => rfl
  | ok filter => simp only [Except.map, h.conditionOf_eq, h.important]

/-- The mark of an exception is taken off the pattern, whatever the options are. -/
theorem exists_unmarked (hpattern : '$' ∉ pattern) :
    ∃ bare, '$' ∉ bare ∧ ∀ s, (Text.dropLead? "@@".toList (pattern ++ '$' :: s)).getD
      (pattern ++ '$' :: s) = bare ++ '$' :: s := by
  have hlead : ∀ s, Text.dropLead? "@@".toList (pattern ++ '$' :: s) =
      (Text.dropLead? "@@".toList pattern).map (· ++ '$' :: s) :=
    fun s => Text.dropLead?_append_cons (by decide)
  simp only [hlead]
  cases hdrop : Text.dropLead? "@@".toList pattern with
  | none => exact ⟨pattern, hpattern, fun s => rfl⟩
  | some bare =>
      refine ⟨bare, fun hmem => hpattern ?_, fun s => rfl⟩
      rw [Text.eq_append_of_dropLead? hdrop]
      exact List.mem_append_right _ hmem

theorem exceptionRule_congr (hpattern : '$' ∉ pattern)
    (h : (Options.ofText s).Alike (.ofText t)) :
    exceptionRule (pattern ++ '$' :: s) = exceptionRule (pattern ++ '$' :: t) := by
  obtain ⟨bare, hbare, heq⟩ := exists_unmarked hpattern
  rw [exceptionRule, exceptionRule, heq, heq]
  dsimp only
  rw [readFilter_append hbare, readFilter_append hbare]
  cases urlFilter bare with
  | error error => rfl
  | ok filter => simp only [Except.map, h.conditionOf_eq]

end

/-- **Lists of options are joined part by part, and noise in them has no effect.** The options of two
texts with a comma between them are those of the first followed by those of the second. Two filters of
one pattern give the same rule, or the same error, and leave the same ids, if the same tokens are heard
in their options. So do two exceptions. -/
theorem options_join_and_noise_is_free :
    (∀ a b : List Char,
        Options.ofText (a ++ ',' :: b) = (Options.ofText a).followedBy (Options.ofText b)) ∧
      ∀ (ids : IdSequence) (pattern s t : List Char), '$' ∉ pattern → heard s = heard t →
        compileLine blockRule RuleBody.withId ids (String.ofList (pattern ++ '$' :: s)) =
            compileLine blockRule RuleBody.withId ids (String.ofList (pattern ++ '$' :: t)) ∧
          compileLine exceptionRule RuleBody.withId ids (String.ofList (pattern ++ '$' :: s)) =
            compileLine exceptionRule RuleBody.withId ids (String.ofList (pattern ++ '$' :: t)) := by
  constructor
  · intro a b
    calc
      Options.ofText (a ++ ',' :: b)
        = Options.ofTokens (OptionToken.ofText a ++ OptionToken.ofText b) := by
          rw [Options.ofText, OptionToken.ofText_append]
      _ = (Options.ofText a).followedBy (Options.ofText b) := Options.ofTokens_append _ _
  · intro ids pattern s t hpattern hheard
    have halike := Options.alike_of_heard hheard
    simp only [compileLine, String.toList_ofList, blockRule_congr hpattern halike,
      exceptionRule_congr hpattern halike, and_self]

theorem options_join_and_noise_is_free_sample :
    heard "Script, popup,~image , ,DOMAIN=News.example,~third-party".toList =
        heard "script,domain=news.example,~Third-Party,~important".toList ∧
      compileLine blockRule RuleBody.withId default
          (String.ofList ("||ads.example^".toList ++
            '$' :: "Script, popup,~image , ,DOMAIN=News.example,~third-party".toList)) =
        compileLine blockRule RuleBody.withId default
          (String.ofList ("||ads.example^".toList ++
            '$' :: "script,domain=news.example,~Third-Party,~important".toList)) := by
  have hheard : heard "Script, popup,~image , ,DOMAIN=News.example,~third-party".toList =
      heard "script,domain=news.example,~Third-Party,~important".toList := by
    decide +kernel
  exact ⟨hheard, (options_join_and_noise_is_free.2 _ _ _ _ (by decide) hheard).1⟩

end Blocklist.Filter
