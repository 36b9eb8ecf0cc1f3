import Blocklist.CompiledList
import Blocklist.Proofs.WrittenScopes

/-!
# Rules that are written are read back

A network rule as it is written: an anchor, a pattern, what may stand behind a pattern, and options
in any order. Compiling the text of such a rule gives back what it was written from.

## Implementation notes

`WrittenRule` carries what makes its text unambiguous, so its lemmas need no hypotheses: the pattern
has no marks at its ends, domains hold no separators, and each resource type is named once. Domains
may stand in several options, which are gone through in their order.
-/

namespace Blocklist.Filter

/-- What stands in front of a pattern. -/
inductive Anchor where
  | nothing
  | bar
  | bars

namespace Anchor

/-- The characters of an anchor. -/
def text : Anchor → List Char
  | nothing => []
  | bar => ['|']
  | bars => ['|', '|']

end Anchor

/-- What stands behind a pattern. -/
inductive Tail where
  | nothing
  | caret
  | star
  | starCaret

namespace Tail

/-- The characters of a tail. -/
def text : Tail → List Char
  | nothing => []
  | caret => ['^']
  | star => ['*']
  | starCaret => ['*', '^']

end Tail

/-- A text that can stand between commas has no blank ends, no capitals and no comma. -/
structure Tidy (s : List Char) : Prop where
  trimmed : Text.trim s = s
  lower : s.map Char.toLower = s
  noComma : ',' ∉ s

instance (s : List Char) : Decidable (Tidy s) :=
  decidable_of_iff (Text.trim s = s ∧ s.map Char.toLower = s ∧ ',' ∉ s)
    ⟨fun ⟨htrimmed, hlower, hcomma⟩ => ⟨htrimmed, hlower, hcomma⟩,
      fun ⟨htrimmed, hlower, hcomma⟩ => ⟨htrimmed, hlower, hcomma⟩⟩

/-- A domain in an option, which the rule is for or not for. -/
structure WrittenDomain where
  excluded : Bool
  name : String
  nonempty : name.toList ≠ []
  tidy : Tidy name.toList
  noBar : '|' ∉ name.toList
  noTilde : name.toList.head? ≠ some '~'

namespace WrittenDomain

/-- A domain as it is written. -/
def text (d : WrittenDomain) : List Char :=
  if d.excluded then '~' :: d.name.toList else d.name.toList

/-- A domain as it is read. -/
def entry (d : WrittenDomain) : DomainScope.Entry :=
  if d.excluded then .exclude d.name.toList else .include d.name.toList

end WrittenDomain

/-- An option of a rule. -/
inductive WrittenOption where
  | kind (resource : ResourceType)
  | domains (all : List WrittenDomain)
  | thirdParty
  /-- Written by its name, or as the contrary of the other party. -/
  | firstParty (byName : Bool)
  | important

namespace WrittenOption

/-- An option as it is written. -/
def text : WrittenOption → List Char
  | kind resource => resource.optionName.toList
  | domains all => "domain=".toList ++ ['|'].intercalate (all.map (·.text))
  | thirdParty => "third-party".toList
  | firstParty byName => if byName then "first-party".toList else "~third-party".toList
  | important => "important".toList

/-- An option as it is read. -/
def token : WrittenOption → OptionToken
  | kind resource => .kind resource
  | domains all => .domains (all.map (·.entry))
  | thirdParty => .party .third
  | firstParty _ => .party .first
  | important => .important

/-- The resource type of an option. -/
def kind? : WrittenOption → Option ResourceType
  | kind resource => some resource
  | _ => none

/-- The domains of an option. -/
def allDomains : WrittenOption → List WrittenDomain
  | domains all => all
  | _ => []

/-- The party of an option. -/
def party? : WrittenOption → Option Party
  | thirdParty => some .third
  | firstParty _ => some .first
  | _ => none

/-- Whether an option is the important flag. -/
def isImportant : WrittenOption → Bool
  | important => true
  | _ => false

end WrittenOption

/-- A network rule as it is written. -/
structure WrittenRule where
  anchor : Anchor
  filter : String
  tail : Tail
  options : List WrittenOption
  long : 3 ≤ filter.length
  trimmed : Text.trim filter.toList = filter.toList
  noDollar : '$' ∉ filter.toList
  noBar : filter.toList.head? ≠ some '|'
  noCaret : filter.toList.getLast? ≠ some '^'
  noStar : filter.toList.getLast? ≠ some '*'
  distinct : (options.filterMap WrittenOption.kind?).Nodup

namespace WrittenRule

/-- The characters before the options. -/
def pattern (w : WrittenRule) : List Char :=
  w.anchor.text ++ w.filter.toList ++ w.tail.text

/-- The text of a rule. -/
def text (w : WrittenRule) : List Char :=
  if w.options = [] then w.pattern
  else w.pattern ++ '$' :: [','].intercalate (w.options.map (·.text))

/-- The resource types, in written order. -/
def kinds (w : WrittenRule) : List ResourceType :=
  w.options.filterMap WrittenOption.kind?

/-- The domains of all options, in written order. -/
def domains (w : WrittenRule) : List WrittenDomain :=
  w.options.flatMap WrittenOption.allDomains

/-- The domains that a rule is for, in written order. -/
def included (w : WrittenRule) : List String :=
  (w.domains.filter (!·.excluded)).map (·.name)

/-- The domains that a rule is not for, in written order. -/
def excluded (w : WrittenRule) : List String :=
  (w.domains.filter (·.excluded)).map (·.name)

/-- The party, if one is written. The last mention counts. -/
def party (w : WrittenRule) : Option Party :=
  (w.options.filterMap WrittenOption.party?).getLast?

/-- Whether the important flag is written. -/
def important (w : WrittenRule) : Bool :=
  w.options.any WrittenOption.isImportant

/-- The condition that a rule is written for. -/
def condition (w : WrittenRule) : RuleCondition where
  urlFilter := w.filter
  resourceTypes := if w.kinds = [] then ResourceType.defaults else w.kinds
  initiatorDomains := if w.included = [] then none else some w.included
  excludedInitiatorDomains := if w.excluded = [] then none else some w.excluded
  domainType := w.party

end WrittenRule

/-! ### Domains -/

theorem Tidy.append {a b : List Char} (ha : Tidy a) (hb : Tidy b) : Tidy (a ++ b) where
  trimmed := Text.trim_append ha.trimmed hb.trimmed
  lower := by rw [List.map_append, ha.lower, hb.lower]
  noComma := by simp [ha.noComma, hb.noComma]

namespace WrittenDomain

variable (d : WrittenDomain)

theorem tidy_text : Tidy d.text := by
  rw [text]
  split
  · exact Tidy.append (a := ['~']) (by decide) d.tidy
  · exact d.tidy

theorem text_entry : d.entry.text = d.text := by
  rw [entry, text]
  cases d.excluded <;> rfl

theorem domain_entry : d.entry.domain = d.name.toList := by
  rw [entry]
  cases d.excluded <;> rfl

theorem clear_entry : d.entry.Clear where
  nonempty := by
    rw [d.domain_entry]
    exact d.nonempty
  trimmed := by rw [d.domain_entry, d.tidy.trimmed]
  noTilde := by
    rw [d.domain_entry]
    exact d.noTilde

end WrittenDomain

/-- The domains of an option are read as they are written. -/
theorem entries_intercalate (all : List WrittenDomain) :
    DomainScope.entries '|' (['|'].intercalate (all.map (·.text))) = all.map (·.entry) := by
  have htext : all.map (·.text) = (all.map (·.entry)).map DomainScope.Entry.text := by
    rw [List.map_map]
    exact List.map_congr_left fun d _ => d.text_entry.symm
  rw [htext]
  apply DomainScope.entries_intercalate (by decide)
  · intro entry hentry
    obtain ⟨d, -, rfl⟩ := List.mem_map.mp hentry
    exact d.clear_entry
  · intro entry hentry
    obtain ⟨d, -, rfl⟩ := List.mem_map.mp hentry
    rw [d.domain_entry]
    exact d.noBar

/-! ### Options -/

namespace WrittenOption

theorem tidy_text (option : WrittenOption) : Tidy option.text := by
  cases option with
  | kind resource => cases resource <;> decide
  | domains all =>
      have hname : Tidy "domain=".toList := by decide
      apply hname.append
      apply Text.intercalate_of_parts
      · decide
      · decide
      · exact Tidy.append
      · intro part hpart
        obtain ⟨d, -, rfl⟩ := List.mem_map.mp hpart
        exact d.tidy_text
  | thirdParty => decide
  | firstParty byName => cases byName <;> decide
  | important => decide

theorem text_ne_nil (option : WrittenOption) : option.text ≠ [] := by
  cases option with
  | kind resource => cases resource <;> decide
  | domains all => exact List.append_ne_nil_of_left_ne_nil (List.cons_ne_nil _ _) _
  | thirdParty => decide
  | firstParty byName => cases byName <;> decide
  | important => decide

/-- An option is read as it is written. -/
theorem ofToken_text (option : WrittenOption) : OptionToken.ofToken option.text = option.token := by
  cases option with
  | kind resource => cases resource <;> decide +kernel
  | domains all =>
      have hvalue : Text.dropLead? "domain=".toList ((domains all).text.map Char.toLower) =
          some (['|'].intercalate (all.map (·.text))) := by
        rw [(domains all).tidy_text.lower]
        exact Text.dropLead?_append _ _
      simp only [OptionToken.ofToken, hvalue]
      exact congrArg OptionToken.domains (entries_intercalate all)
  | thirdParty => decide +kernel
  | firstParty byName => cases byName <;> decide +kernel
  | important => decide +kernel

/-! What an option says is what its token says. -/

theorem kind?_token (option : WrittenOption) : option.token.kind? = option.kind? := by
  cases option <;> rfl

theorem domainEntries_token (option : WrittenOption) :
    option.token.domainEntries = option.allDomains.map (·.entry) := by
  cases option <;> rfl

theorem party?_token (option : WrittenOption) : option.token.party? = option.party? := by
  cases option <;> rfl

theorem beq_token (option : WrittenOption) :
    (OptionToken.important == option.token) = option.isImportant := by
  cases option <;> rfl

end WrittenOption

/-- A list of options is read as it is written. -/
theorem ofText_intercalate {options : List WrittenOption} (h : options ≠ []) :
    OptionToken.ofText ([','].intercalate (options.map (·.text))) = options.map (·.token) := by
  have hnot : ∀ part ∈ options.map (·.text), ',' ∉ part := by
    intro part hpart
    obtain ⟨option, -, rfl⟩ := List.mem_map.mp hpart
    exact option.tidy_text.noComma
  have hkept : ∀ part ∈ options.map (·.text), (!part.isEmpty) = true := by
    intro part hpart
    obtain ⟨option, -, rfl⟩ := List.mem_map.mp hpart
    simpa using option.text_ne_nil
  have htrimmed : ∀ option ∈ options, (Text.trim ∘ WrittenOption.text) option = option.text :=
    fun option _ => option.tidy_text.trimmed
  have hread : ∀ option ∈ options,
      (OptionToken.ofToken ∘ WrittenOption.text) option = option.token :=
    fun option _ => option.ofToken_text
  calc
    OptionToken.ofText ([','].intercalate (options.map (·.text)))
      = (((options.map (·.text)).map Text.trim).filter (!·.isEmpty)).map OptionToken.ofToken := by
        rw [OptionToken.ofText, List.splitOn_intercalate ',' hnot (by simpa using h)]
    _ = ((options.map (·.text)).filter (!·.isEmpty)).map OptionToken.ofToken := by
        rw [List.map_map, List.map_congr_left htrimmed]
    _ = (options.map (·.text)).map OptionToken.ofToken := by rw [List.filter_eq_self.mpr hkept]
    _ = options.map (·.token) := by rw [List.map_map, List.map_congr_left hread]

/-! ### Patterns -/

theorem eraseDups_eq_self {α : Type} [BEq α] [LawfulBEq α] {as : List α} (h : as.Nodup) :
    as.eraseDups = as := by
  induction as with
  | nil => rfl
  | cons a rest ih =>
      obtain ⟨hnew, hrest⟩ := List.nodup_cons.mp h
      have hkept : ∀ b ∈ rest, (!b == a) = true := by
        intro b hb
        have hne : b ≠ a := fun heq => hnew (heq ▸ hb)
        simpa using hne
      rw [List.eraseDups_cons, List.filter_eq_self.mpr hkept, ih hrest]

namespace WrittenRule

variable (w : WrittenRule)

theorem trim_pattern : Text.trim w.pattern = w.pattern := by
  have hanchor : Text.trim w.anchor.text = w.anchor.text := by
    cases w.anchor <;> decide
  have htail : Text.trim w.tail.text = w.tail.text := by
    cases w.tail <;> decide
  exact Text.trim_append (Text.trim_append hanchor w.trimmed) htail

theorem dollar_not_mem_pattern : '$' ∉ w.pattern := by
  have hanchor : '$' ∉ w.anchor.text := by
    cases w.anchor <;> decide
  have htail : '$' ∉ w.tail.text := by
    cases w.tail <;> decide
  simp [pattern, hanchor, htail, w.noDollar]

/-- The anchor comes off, since no bar follows it. -/
theorem barePattern_eq (w : WrittenRule) :
    barePattern w.pattern =
      let body := w.filter.toList ++ w.tail.text
      let body := (Text.dropLast? '^' body).getD body
      (Text.dropLast? '*' body).getD body := by
  have hne : w.filter.toList ≠ [] := by
    intro hnil
    have hlength := w.long
    rw [← String.length_toList, hnil] at hlength
    cases hlength
  obtain ⟨c, rest, hfilter⟩ := List.exists_cons_of_ne_nil hne
  have hbar : c ≠ '|' := by
    rintro rfl
    exact w.noBar (by rw [hfilter, List.head?_cons])
  rw [barePattern, w.trim_pattern, pattern, hfilter]
  cases w.anchor with
  | nothing =>
      simp only [Anchor.text, List.nil_append, List.cons_append]
      split
      · rename_i heq
        exact absurd (List.cons.inj heq).1 hbar
      · rename_i heq
        exact absurd (List.cons.inj heq).1 hbar
      · rfl
  | bar =>
      simp only [Anchor.text, List.nil_append, List.cons_append]
      split
      · rename_i heq
        exact absurd (List.cons.inj (List.cons.inj heq).2).1 hbar
      · rename_i heq
        rw [(List.cons.inj heq).2]
      · rename_i hother
        exact absurd rfl (hother _)
  | bars => rfl

/-- The tail comes off, and nothing else. -/
theorem barePattern_pattern : barePattern w.pattern = w.filter.toList := by
  have hcaret : Text.dropLast? '^' w.filter.toList = none := Text.dropLast?_eq_none w.noCaret
  have hstar : Text.dropLast? '*' w.filter.toList = none := Text.dropLast?_eq_none w.noStar
  rw [barePattern_eq]
  cases w.tail with
  | nothing => simp only [Tail.text, List.append_nil, hcaret, hstar, Option.getD_none]
  | caret => simp only [Tail.text, Text.dropLast?_concat, hstar, Option.getD_none, Option.getD_some]
  | star =>
      have hnone : Text.dropLast? '^' (w.filter.toList ++ ['*']) = none :=
        Text.dropLast?_eq_none (by simp)
      simp only [Tail.text, hnone, Text.dropLast?_concat, Option.getD_none, Option.getD_some]
  | starCaret =>
      have hsplit : w.filter.toList ++ ['*', '^'] = (w.filter.toList ++ ['*']) ++ ['^'] := by simp
      simp only [Tail.text, hsplit, Text.dropLast?_concat, Option.getD_some]

theorem urlFilter_pattern : urlFilter w.pattern = .ok w.filter := by
  have hlong : ¬ w.filter.toList.length < Rule.minFilterLength := by
    rw [String.length_toList]
    exact Nat.not_lt.mpr w.long
  rw [urlFilter, barePattern_pattern, if_neg hlong, String.ofList_toList]

/-- A line is cut where its options begin. -/
theorem splitOptions_text :
    splitOptions w.text = (w.pattern,
      if w.options = [] then none else some ([','].intercalate (w.options.map (·.text)))) := by
  have hdollar := w.dollar_not_mem_pattern
  rw [splitOptions, text]
  by_cases hnil : w.options = []
  · rw [if_pos hnil, if_pos hnil, Text.splitFirst?_eq_none hdollar]
  · rw [if_neg hnil, if_neg hnil, Text.splitFirst?_append hdollar]

theorem readFilter_text :
    readFilter w.text = .ok (w.filter, .ofTokens (w.options.map (·.token))) := by
  rw [readFilter, splitOptions_text]
  dsimp only
  rw [w.urlFilter_pattern]
  by_cases hnil : w.options = []
  · rw [if_pos hnil, hnil]
    rfl
  · rw [if_neg hnil, Option.map_some, Options.ofText, ofText_intercalate hnil]
    rfl

/-! ### Conditions -/

theorem someIfAny_eq (domains : List String) :
    someIfAny domains = if domains = [] then none else some domains := by
  cases domains <;> rfl

theorem ofEntries_entries (all : List WrittenDomain) :
    DomainScope.ofEntries (all.map (·.entry)) =
      ⟨(all.filter (!·.excluded)).map (·.name), (all.filter (·.excluded)).map (·.name)⟩ := by
  induction all with
  | nil => rfl
  | cons d rest ih =>
      obtain ⟨hincluded, hexcluded⟩ := DomainScope.mk.inj ih
      rw [List.map_cons, DomainScope.ofEntries, DomainScope.mk.injEq, List.filterMap_cons,
        List.filterMap_cons, hincluded, hexcluded, List.filter_cons, List.filter_cons,
        WrittenDomain.entry]
      cases d.excluded <;> simp [DomainScope.Entry.included?, DomainScope.Entry.excluded?]

/-- The options say what the rule is written for. -/
theorem ofTokens_tokens :
    let options := Options.ofTokens (w.options.map (·.token))
    options.kinds = w.kinds ∧ options.domains = ⟨w.included, w.excluded⟩ ∧
      options.party = w.party ∧ options.important = w.important := by
  have hkinds : (w.options.map (·.token)).filterMap OptionToken.kind? = w.kinds := by
    rw [List.filterMap_map]
    exact List.filterMap_congr fun option _ => option.kind?_token
  have hdomains : (w.options.map (·.token)).flatMap OptionToken.domainEntries =
      w.domains.map (·.entry) := by
    simp only [domains, List.flatMap_map, List.map_flatMap, WrittenOption.domainEntries_token]
  have hparties : (w.options.map (·.token)).filterMap OptionToken.party? =
      w.options.filterMap WrittenOption.party? := by
    rw [List.filterMap_map]
    exact List.filterMap_congr fun option _ => option.party?_token
  have himportant : (w.options.map (·.token)).contains .important = w.important := by
    rw [List.contains_eq_any_beq, List.any_map]
    exact congrArg w.options.any (funext fun option => option.beq_token)
  refine ⟨?_, ?_, congrArg List.getLast? hparties, himportant⟩
  · exact (congrArg List.eraseDups hkinds).trans (eraseDups_eq_self w.distinct)
  · exact (congrArg DomainScope.ofEntries hdomains).trans (ofEntries_entries w.domains)

theorem conditionOf_tokens :
    conditionOf w.filter (.ofTokens (w.options.map (·.token))) = w.condition := by
  obtain ⟨hkinds, hdomains, hparty, -⟩ := w.ofTokens_tokens
  rw [conditionOf, condition, hkinds, hdomains, hparty, someIfAny_eq, someIfAny_eq]
  simp only [List.isEmpty_iff]

/-- **A written rule is read back.** Compiling the text of a rule, whatever its anchor and tail are
and in whatever order its options stand, gives the rule that blocks the requests of its pattern, for
the types, the domains and the party that are written, with the priority of the important flag if it
is there. With the mark of exceptions in front, the same condition lets requests through, with the
priority of exceptions. -/
theorem written_rule_is_read_back (w : WrittenRule) (ids : IdSequence) :
    compileLine blockRule RuleBody.withId ids (String.ofList w.text) =
        (.ok ⟨ids.next, if w.important then 100 else 1, ⟨.block⟩, w.condition⟩, ids.advance) ∧
      compileLine exceptionRule RuleBody.withId ids (String.ofList ("@@".toList ++ w.text)) =
        (.ok ⟨ids.next, 2, ⟨.allow⟩, w.condition⟩, ids.advance) := by
  obtain ⟨-, -, -, himportant⟩ := w.ofTokens_tokens
  have hblock : blockRule w.text =
      .ok ⟨if w.important then 100 else 1, ⟨.block⟩, w.condition⟩ := by
    rw [blockRule, w.readFilter_text, ← w.conditionOf_tokens, ← himportant]
    rfl
  have hexception : exceptionRule ("@@".toList ++ w.text) = .ok ⟨2, ⟨.allow⟩, w.condition⟩ := by
    rw [exceptionRule, Text.dropLead?_append, Option.getD_some, w.readFilter_text,
      ← w.conditionOf_tokens]
    rfl
  constructor
  · rw [compileLine, String.toList_ofList, hblock]
    rfl
  · rw [compileLine, String.toList_ofList, hexception]
    rfl

/-- A rule with options of every kind, whose domains stand in two of them. -/
def sample : WrittenRule where
  anchor := .bars
  filter := "ads.example"
  tail := .caret
  options :=
    [.kind .script,
      .domains [⟨false, "news.example", by decide, by decide, by decide, by decide⟩],
      .important, .kind .subFrame,
      .domains [⟨true, "shop.example", by decide, by decide, by decide, by decide⟩],
      .firstParty false]
  long := by decide
  trimmed := by decide
  noDollar := by decide
  noBar := by decide
  noCaret := by decide
  noStar := by decide
  distinct := by decide

theorem written_rule_is_read_back_sample :
    compileLine blockRule RuleBody.withId default
        ("||ads.example^$script,domain=news.example,important,subdocument," ++
          "domain=~shop.example,~third-party") =
      (.ok ⟨1000, 100, ⟨.block⟩, ⟨"ads.example", [.script, .subFrame], some ["news.example"],
        some ["shop.example"], some .first⟩⟩, ⟨1001⟩) := by
  have htext : String.ofList sample.text =
      "||ads.example^$script,domain=news.example,important,subdocument," ++
        "domain=~shop.example,~third-party" := by
    decide +kernel
  obtain ⟨hblock, -⟩ := sample.written_rule_is_read_back default
  rw [← htext, hblock]
  decide +kernel

end WrittenRule

end Blocklist.Filter
