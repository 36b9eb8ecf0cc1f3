import Blocklist.Host
import Blocklist.Proofs.Text.Case

/-!
# Letter case in hosts and domains

A host is looked up in lower case, and the domains of a scope are kept as they are written. A domain
with a capital in it therefore covers nothing, and two spellings of a list of domains may cover
different hosts. They never do where no letter decides: where what is covered under some spelling is
covered under all of them.

## Implementation notes

The spelling that covers most has its excluded domains in capitals and the others in small letters;
the one that covers least has it the other way round.
-/

namespace Blocklist

open Text (Recasing SpelledAlike recasing_toLower recasing_toUpper)

namespace Host

variable {f : Char → Char} {host domain : String}

/-- A name with each of its characters changed. -/
def respell (f : Char → Char) (name : String) : String :=
  String.ofList (name.toList.map f)

/-- A host is a domain or lies below it, in whatever case both are written. -/
def IsUnder (host domain : String) : Prop :=
  isWithin (lower host) (lower domain) = true

instance (host domain : String) : Decidable (IsUnder host domain) :=
  inferInstanceAs (Decidable (_ = _))

/-- A name that holds a letter. -/
def Lettered (name : String) : Prop :=
  ∃ c ∈ name.toList, c.isAlpha = true

instance (name : String) : Decidable (Lettered name) :=
  decidable_of_iff (name.toList.any Char.isAlpha = true) List.any_eq_true

theorem lower_respell (hf : Recasing f) (name : String) : lower (respell f name) = lower name := by
  rw [lower, respell, String.toList_ofList, hf.spelledAlike_map, lower]

theorem lower_eq_iff {a b : String} : lower a = lower b ↔ SpelledAlike a.toList b.toList := by
  rw [lower, lower, String.ofList_inj, SpelledAlike]

theorem lower_lower (name : String) : lower (lower name) = lower name :=
  lower_respell recasing_toLower name

theorem lower_respell_toLower (name : String) :
    lower (respell Char.toLower name) = respell Char.toLower name :=
  lower_lower name

theorem isUnder_respell (hf : Recasing f) :
    IsUnder host (respell f domain) ↔ IsUnder host domain := by
  rw [IsUnder, IsUnder, lower_respell hf]

theorem lettered_respell (hf : Recasing f) : Lettered (respell f domain) ↔ Lettered domain := by
  simp [Lettered, respell, hf.isAlpha_apply]

theorem lower_eq_self_iff {name : String} :
    lower name = name ↔ ∀ c ∈ name.toList, c.toLower = c := by
  rw [lower, ← String.toList_inj, String.toList_ofList]
  calc
    name.toList.map Char.toLower = name.toList ↔
        name.toList.map Char.toLower = name.toList.map id := by rw [List.map_id]
    _ ↔ ∀ c ∈ name.toList, c.toLower = c := List.map_inj_left

theorem lower_of_not_lettered {name : String} (h : ¬Lettered name) : lower name = name := by
  rw [lower_eq_self_iff]
  intro c hc
  apply Text.toLower_of_not_isAlpha
  rw [Bool.eq_false_iff]
  exact fun halpha => h ⟨c, hc, halpha⟩

/-- Capitals are what a name without letters is written in, and no other one. -/
theorem lower_respell_toUpper_iff {name : String} :
    lower (respell Char.toUpper name) = respell Char.toUpper name ↔ ¬Lettered name := by
  constructor
  · rintro heq ⟨c, hc, halpha⟩
    have hmem : c.toUpper ∈ (respell Char.toUpper name).toList := by
      rw [respell, String.toList_ofList]
      exact List.mem_map_of_mem hc
    have hcapital : c.toUpper.isUpper = true := by
      rw [Char.isUpper_toUpper_eq_isAlpha, halpha]
    rw [← lower_eq_self_iff.mp heq _ hmem, Char.isUpper_toLower_eq_false] at hcapital
    cases hcapital
  · intro h
    apply lower_of_not_lettered
    rwa [lettered_respell recasing_toUpper]

/-- Only dots are missing in a bare name. -/
theorem mem_bare_or_eq_dot {name : String} {c : Char} (h : c ∈ name.toList) :
    c ∈ bare name ∨ c = '.' := by
  rw [← List.mem_reverse,
    ← List.takeWhile_append_dropWhile (p := (· == '.')) (l := name.toList.reverse),
    List.mem_append] at h
  rcases h with h | h
  · right
    simpa using List.mem_takeWhile_imp h
  · exact .inl (List.mem_reverse.mpr h)

theorem mem_of_mem_bare {name : String} {c : Char} (h : c ∈ bare name) : c ∈ name.toList :=
  List.mem_reverse.mp ((List.dropWhile_suffix _).subset (List.mem_reverse.mp h))

/-- What a host lies below has no characters but those of the host and dots. -/
theorem mem_of_isWithin (h : isWithin host domain = true) {c : Char} (hc : c ∈ domain.toList) :
    c ∈ host.toList ∨ c = '.' := by
  rcases mem_bare_or_eq_dot hc with hbare | hdot
  · left
    apply mem_of_mem_bare
    rw [isWithin, Bool.and_eq_true, Bool.or_eq_true] at h
    rcases h.2 with heq | hsuffix
    · rwa [beq_iff_eq.mp heq]
    · exact (List.isSuffixOf_iff_suffix.mp hsuffix).subset (List.mem_cons_of_mem _ hbare)
  · exact .inr hdot

/-- A host that is looked up lies below the domains that it is under in whatever case, as long as they
have no capitals. -/
theorem isWithin_lower_iff :
    isWithin (lower host) domain = true ↔ IsUnder host domain ∧ lower domain = domain := by
  constructor
  · intro h
    have hsmall : lower domain = domain := by
      rw [lower_eq_self_iff]
      intro c hc
      rcases mem_of_isWithin h hc with hmem | rfl
      · exact lower_eq_self_iff.mp (lower_lower host) c hmem
      · rfl
    exact ⟨by rwa [IsUnder, hsmall], hsmall⟩
  · rintro ⟨hunder, hsmall⟩
    rwa [IsUnder, hsmall] at hunder

end Host

namespace DomainScope

open Host (IsUnder Lettered lower respell)

variable {scope : DomainScope} {host : String}

/-- A scope covers a host where only the domains count that are named: those of `excludes` among the
excluded ones and those of `includes` among the others. -/
def CoversWhere (scope : DomainScope) (host : String) (excludes includes : String → Prop) : Prop :=
  (∀ domain ∈ scope.excluded, IsUnder host domain → ¬excludes domain) ∧
    (scope.included = [] ∨ ∃ domain ∈ scope.included, IsUnder host domain ∧ includes domain)

instance (scope : DomainScope) (host : String) (excludes includes : String → Prop)
    [DecidablePred excludes] [DecidablePred includes] :
    Decidable (scope.CoversWhere host excludes includes) :=
  inferInstanceAs (Decidable (_ ∧ _))

/-- A scope covers a host under some spelling of its domains: no domain without a letter keeps the
host out, and if domains are included, the host is under one of them. -/
def MayCover (scope : DomainScope) (host : String) : Prop :=
  scope.CoversWhere host (¬Lettered ·) fun _ => True

/-- A scope covers a host under every spelling of its domains: no domain keeps the host out, and if
domains are included, the host is under one that has no letter. -/
def MustCover (scope : DomainScope) (host : String) : Prop :=
  scope.CoversWhere host (fun _ => True) (¬Lettered ·)

instance (scope : DomainScope) (host : String) : Decidable (scope.MayCover host) :=
  inferInstanceAs (Decidable (CoversWhere ..))

instance (scope : DomainScope) (host : String) : Decidable (scope.MustCover host) :=
  inferInstanceAs (Decidable (CoversWhere ..))

theorem CoversWhere.mono {excludes excludes' includes includes' : String → Prop}
    (h : scope.CoversWhere host excludes includes)
    (hexcludes : ∀ domain, excludes' domain → excludes domain)
    (hincludes : ∀ domain, includes domain → includes' domain) :
    scope.CoversWhere host excludes' includes' := by
  constructor
  · intro domain hmem hunder hexcluded
    exact h.1 domain hmem hunder (hexcludes domain hexcluded)
  · rcases h.2 with hnil | ⟨domain, hmem, hunder, hincluded⟩
    · exact .inl hnil
    · exact .inr ⟨domain, hmem, hunder, hincludes domain hincluded⟩

/-- A host that is looked up is covered where the domains count that have no capitals. -/
theorem isCovered_lower_iff : Host.isCovered (lower host) scope = true ↔
    scope.CoversWhere host (fun d => lower d = d) (fun d => lower d = d) := by
  simp only [Host.isCovered, CoversWhere, Bool.and_eq_true, Bool.not_eq_true', Bool.or_eq_true,
    List.any_eq_false, List.any_eq_true, List.isEmpty_iff, Host.isWithin_lower_iff, not_and]

theorem MustCover.isCovered (h : scope.MustCover host) :
    Host.isCovered (lower host) scope = true :=
  isCovered_lower_iff.mpr (h.mono (fun _ _ => trivial) fun _ => Host.lower_of_not_lettered)

theorem mayCover_of_isCovered (h : Host.isCovered (lower host) scope = true) :
    scope.MayCover host :=
  (isCovered_lower_iff.mp h).mono (fun _ => Host.lower_of_not_lettered) fun _ _ => trivial

/-! ### Spelling a scope anew -/

/-- A scope with the characters of its domains changed, those of the excluded ones by another map. -/
def respelled (excluding including : Char → Char) (scope : DomainScope) : DomainScope :=
  ⟨scope.included.map (respell including), scope.excluded.map (respell excluding)⟩

theorem coversWhere_respelled {f g : Char → Char} (hf : Recasing f) (hg : Recasing g)
    {excludes includes : String → Prop} :
    (scope.respelled f g).CoversWhere host excludes includes ↔
      scope.CoversWhere host (fun d => excludes (respell f d)) fun d => includes (respell g d) := by
  simp only [CoversWhere, respelled, List.mem_map, forall_exists_index, and_imp,
    forall_apply_eq_imp_iff₂, exists_exists_and_eq_and, List.map_eq_nil_iff,
    Host.isUnder_respell hf, Host.isUnder_respell hg]

theorem mayCover_respelled {f g : Char → Char} (hf : Recasing f) (hg : Recasing g) :
    (scope.respelled f g).MayCover host ↔ scope.MayCover host := by
  simp only [MayCover, coversWhere_respelled hf hg, Host.lettered_respell hf]

theorem mustCover_respelled {f g : Char → Char} (hf : Recasing f) (hg : Recasing g) :
    (scope.respelled f g).MustCover host ↔ scope.MustCover host := by
  simp only [MustCover, coversWhere_respelled hf hg, Host.lettered_respell hg]

/-- With its excluded domains in capitals, a scope covers all that it may. -/
theorem isCovered_widest_iff :
    Host.isCovered (lower host) (scope.respelled Char.toUpper Char.toLower) = true ↔
      scope.MayCover host := by
  simp only [isCovered_lower_iff, coversWhere_respelled recasing_toUpper recasing_toLower,
    Host.lower_respell_toUpper_iff, Host.lower_respell_toLower, MayCover]

/-- With its included domains in capitals, a scope covers only what it must. -/
theorem isCovered_narrowest_iff :
    Host.isCovered (lower host) (scope.respelled Char.toLower Char.toUpper) = true ↔
      scope.MustCover host := by
  simp only [isCovered_lower_iff, coversWhere_respelled recasing_toLower recasing_toUpper,
    Host.lower_respell_toUpper_iff, Host.lower_respell_toLower, MustCover]

/-! ### Spelling a list of domains anew -/

namespace Entry

/-- An entry with the characters of its domain changed. -/
def respelled (excluding including : Char → Char) : Entry → Entry
  | .include domain => .include (domain.map including)
  | .exclude domain => .exclude (domain.map excluding)

theorem ofPart?_map {f : Char → Char} (hf : Recasing f) (part : List Char) :
    ofPart? (part.map f) = (ofPart? part).map (respelled f f) := by
  rw [ofPart?, ofPart?, hf.trim_map]
  rcases Text.trim part with _ | ⟨c, rest⟩
  · rfl
  · have htilde : f c = '~' ↔ c = '~' := hf.apply_eq_iff (by decide)
    by_cases hc : c = '~'
    · subst hc
      rw [List.map_cons, htilde.mpr rfl]
      cases rest <;> rfl
    · have hc' : f c ≠ '~' := fun heq => hc (htilde.mp heq)
      rw [List.map_cons]
      simp [hc, hc', respelled]

/-- A part of a list with its characters changed by what kind of entry it is. -/
def respellPart (excluding including : Char → Char) (part : List Char) : List Char :=
  match ofPart? part with
  | some (.exclude _) => part.map excluding
  | _ => part.map including

theorem ofPart?_respellPart {f g : Char → Char} (hf : Recasing f) (hg : Recasing g)
    (part : List Char) : ofPart? (respellPart f g part) = (ofPart? part).map (respelled f g) := by
  rw [respellPart]
  split
  · rename_i domain hpart
    rw [ofPart?_map hf, hpart]
    rfl
  · rename_i hpart
    rw [ofPart?_map hg]
    cases hentry : ofPart? part with
    | none => rfl
    | some entry =>
        cases entry with
        | «include» domain => rfl
        | exclude domain => exact absurd hentry (hpart domain)

theorem spelledAlike_respellPart {f g : Char → Char} (hf : Recasing f) (hg : Recasing g)
    (part : List Char) : SpelledAlike (respellPart f g part) part := by
  rw [respellPart]
  split
  · exact hf.spelledAlike_map part
  · exact hg.spelledAlike_map part

end Entry

theorem ofEntries_map_respelled (f g : Char → Char) (es : List Entry) :
    ofEntries (es.map (Entry.respelled f g)) = (ofEntries es).respelled f g := by
  have hincluded : ∀ entry : Entry, (entry.respelled f g).included? =
      entry.included?.map (respell g) := by
    rintro (domain | domain)
    · simp [Entry.respelled, Entry.included?, respell]
    · rfl
  have hexcluded : ∀ entry : Entry, (entry.respelled f g).excluded? =
      entry.excluded?.map (respell f) := by
    rintro (domain | domain)
    · rfl
    · simp [Entry.respelled, Entry.excluded?, respell]
  simp only [ofEntries, respelled, List.filterMap_map, List.map_filterMap, Function.comp_def,
    hincluded, hexcluded]

/-- A list of domains with its characters changed, those of the excluded ones by another map. -/
def respellText (excluding including : Char → Char) (s : List Char) : List Char :=
  [','].intercalate ((s.splitOn ',').map (Entry.respellPart excluding including))

theorem spelledAlike_respellText {f g : Char → Char} (hf : Recasing f) (hg : Recasing g)
    (s : List Char) : SpelledAlike (respellText f g s) s :=
  Text.spelledAlike_intercalate_map (Entry.spelledAlike_respellPart hf hg) s

/-- Parts that are read alike after a change give the scope after that change. -/
theorem ofChars_respellText {f g : Char → Char} (hf : Recasing f) (hg : Recasing g)
    (s : List Char) : ofChars (respellText f g s) = (ofChars s).respelled f g := by
  have hnot : ∀ part ∈ (s.splitOn ',').map (Entry.respellPart f g), ',' ∉ part := by
    intro part hpart
    obtain ⟨part, hmem, rfl⟩ := List.mem_map.mp hpart
    exact (Entry.spelledAlike_respellPart hf hg part).not_mem (by decide)
      (Text.of_mem_splitOn hmem).1
  have hentries : entries ',' (respellText f g s) = (entries ',' s).map (Entry.respelled f g) := by
    rw [entries, respellText, List.splitOn_intercalate ',' hnot (by simp [List.splitOn_ne_nil]),
      List.filterMap_map, entries, List.map_filterMap]
    exact List.filterMap_congr fun part _ => Entry.ofPart?_respellPart hf hg part
  rw [ofChars, hentries, ofEntries_map_respelled, ofChars]

theorem ofChars_map {f : Char → Char} (hf : Recasing f) (s : List Char) :
    ofChars (s.map f) = (ofChars s).respelled f f := by
  have hentries : entries ',' (s.map f) = (entries ',' s).map (Entry.respelled f f) := by
    rw [entries, hf.splitOn_map (by decide), List.filterMap_map, entries, List.map_filterMap]
    exact List.filterMap_congr fun part _ => Entry.ofPart?_map hf part
  rw [ofChars, hentries, ofEntries_map_respelled, ofChars]

/-! ### Where letter case does not matter -/

/-- What a list of domains must cover and what it may cover depends on no letter's case. -/
theorem covers_of_spelledAlike {a b : List Char} {host host' : String} (h : SpelledAlike a b)
    (hhost : SpelledAlike host'.toList host.toList) :
    ((ofChars a).MayCover host' ↔ (ofChars b).MayCover host) ∧
      ((ofChars a).MustCover host' ↔ (ofChars b).MustCover host) := by
  have hunder : ∀ domain, IsUnder host' domain ↔ IsUnder host domain := by
    intro domain
    rw [IsUnder, IsUnder, Host.lower_eq_iff.mpr hhost]
  have hlower : (ofChars a).respelled Char.toLower Char.toLower =
      (ofChars b).respelled Char.toLower Char.toLower := by
    rw [← ofChars_map recasing_toLower, ← ofChars_map recasing_toLower, h]
  constructor
  · rw [← mayCover_respelled recasing_toLower recasing_toLower, hlower,
      mayCover_respelled recasing_toLower recasing_toLower]
    simp only [MayCover, CoversWhere, hunder]
  · rw [← mustCover_respelled recasing_toLower recasing_toLower, hlower,
      mustCover_respelled recasing_toLower recasing_toLower]
    simp only [MustCover, CoversWhere, hunder]

/-- The spelling of a list of domains and of a host does not matter exactly if the list must cover the
host wherever it may. -/
theorem every_spelling_covers_iff (before : List Char) (host : String) :
    (∀ before' host', SpelledAlike before' before → SpelledAlike host'.toList host.toList →
      (Host.isCovered (lower host') (ofChars before') = true ↔
        Host.isCovered (lower host) (ofChars before) = true)) ↔
      ((ofChars before).MayCover host → (ofChars before).MustCover host) := by
  constructor
  · intro hlaw hmay
    have hwidest :=
      hlaw _ host (spelledAlike_respellText recasing_toUpper recasing_toLower before) rfl
    have hnarrowest :=
      hlaw _ host (spelledAlike_respellText recasing_toLower recasing_toUpper before) rfl
    rw [ofChars_respellText recasing_toUpper recasing_toLower, isCovered_widest_iff] at hwidest
    rw [ofChars_respellText recasing_toLower recasing_toUpper,
      isCovered_narrowest_iff] at hnarrowest
    exact hnarrowest.mpr (hwidest.mp hmay)
  · intro hdecided before' host' hbefore hhost
    obtain ⟨hmay, hmust⟩ := covers_of_spelledAlike hbefore hhost
    constructor
    · intro hcovered
      exact (hdecided (hmay.mp (mayCover_of_isCovered hcovered))).isCovered
    · intro hcovered
      exact (hmust.mpr (hdecided (mayCover_of_isCovered hcovered))).isCovered

end DomainScope

end Blocklist
