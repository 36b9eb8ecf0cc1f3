import Blocklist.Host
import Blocklist.Proofs.Text.Cuts
import Blocklist.Proofs.Text.Octets
import Mathlib.Data.List.DropRight

/-!
# Hosts and domains by their labels

A domain covers a host exactly if the labels of the domain are the last ones of the host. So names
are ordered by what lies below what, up to the dots they end with, and what a scope says of a host it
says of all that lies below the host.

## Implementation notes

The comparison can be made on the octets of both names, with one look at the octet in front of the
part they have in common. That this look stays inside the host, and that it finds a dot only where
labels are separated, is `compareOctets?_eq`. What octets end with, as octets, is `endOctets?_eq`.
-/

namespace Blocklist

namespace Host

variable {host domain name : String}

/-- The labels of a name, that is, what stands between its dots. The dots it ends with do not
count. -/
def labels (name : String) : List (List Char) :=
  (bare name).splitOn '.'

/-- The octet in front of the last octets, if there are more of them. -/
def octetBefore? (s : List UInt8) (last : Nat) : Option UInt8 :=
  if last < s.length then s[s.length - last - 1]? else none

/-- Whether octets end with others, which are all of them or follow a dot. Nothing is answered if an
octet is looked for where there is none. -/
def endOctets? (h d : List UInt8) : Option Bool :=
  if d.isEmpty || h.length < d.length then some false
  else if !d.isSuffixOf h then some false
  else if h.length == d.length then some true
  else (octetBefore? h d.length).map (· == '.'.toUInt8)

/-- Whether a host is a domain or lies below it, by the octets of both. -/
def compareOctets? (host domain : String) : Option Bool :=
  endOctets? (Text.octets (bare host)) (Text.octets (bare domain))

/-! ### Names without the dots at their end -/

/-- Nothing is left of a name of dots, and of no other name. -/
theorem bare_ne_nil_iff : bare name ≠ [] ↔ ∃ c ∈ name.toList, c ≠ '.' := by
  rw [ne_eq, show bare name = name.toList.rdropWhile (· == '.') from rfl,
    List.rdropWhile_eq_nil_iff]
  simp

/-- What stands in front of a name does not touch its end. -/
theorem bare_append (above : String) (h : bare name ≠ []) :
    bare (above ++ "." ++ name) = above.toList ++ '.' :: bare name := by
  have hname : (name.toList.reverse.dropWhile (· == '.')).isEmpty = false := by
    simpa [bare, Text.dropEndWhile] using h
  rw [bare, Text.dropEndWhile, String.toList_append, String.toList_append, List.reverse_append,
    List.dropWhile_append, hname]
  simp [bare, Text.dropEndWhile]

/-! ### Labels -/

/-- A host is a domain or ends with a dot and the domain. -/
theorem isWithin_iff : isWithin host domain = true ↔
    bare domain ≠ [] ∧ (bare domain = bare host ∨ '.' :: bare domain <:+ bare host) := by
  rw [eq_comm (a := bare domain)]
  simp only [isWithin, Bool.and_eq_true, Bool.not_eq_true', List.isEmpty_eq_false_iff,
    Bool.or_eq_true, beq_iff_eq, List.isSuffixOf_iff_suffix]

theorem isWithin_iff_labels :
    isWithin host domain = true ↔ bare domain ≠ [] ∧ labels domain <:+ labels host := by
  rw [isWithin_iff, labels, labels, Text.splitOn_suffix_iff]

/-- The labels of a name determine it, up to the dots at its end. -/
theorem bare_eq_of_labels_eq {a b : String} (h : labels a = labels b) : bare a = bare b := by
  calc
    bare a = ['.'].intercalate (labels a) := (List.intercalate_splitOn '.').symm
    _ = ['.'].intercalate (labels b) := by rw [h]
    _ = bare b := List.intercalate_splitOn '.'

theorem isWithin_self (h : bare name ≠ []) : isWithin name name = true :=
  isWithin_iff_labels.mpr ⟨h, List.suffix_rfl⟩

theorem isWithin_append (above : String) (h : bare name ≠ []) :
    isWithin (above ++ "." ++ name) name = true := by
  rw [isWithin_iff, bare_append above h]
  exact ⟨h, .inr (List.suffix_append _ _)⟩

theorem isWithin_trans {a b c : String} (hab : isWithin a b = true) (hbc : isWithin b c = true) :
    isWithin a c = true := by
  rw [isWithin_iff_labels] at *
  exact ⟨hbc.1, hbc.2.trans hab.2⟩

theorem isWithin_antisymm {a b : String} (hab : isWithin a b = true) (hba : isWithin b a = true) :
    bare a = bare b := by
  rw [isWithin_iff_labels] at *
  exact bare_eq_of_labels_eq (hba.2.eq_of_length_le hab.2.length_le)

/-! ### Octets -/

/-- In front of an end that is not all there is an octet. -/
theorem exists_octetBefore? {d h : List UInt8} (hsuffix : d <:+ h) (hne : h.length ≠ d.length) :
    ∃ x, octetBefore? h d.length = some x ∧ x :: d <:+ h := by
  obtain ⟨front, rfl⟩ := hsuffix
  have hfront : front ≠ [] := by
    rintro rfl
    exact hne rfl
  obtain ⟨before, x, rfl⟩ := (List.eq_nil_or_concat' front).resolve_left hfront
  have hplace : (before ++ [x] ++ d).length - d.length - 1 = before.length := by
    simp only [List.length_append, List.length_singleton]
    omega
  refine ⟨x, ?_, before, by simp⟩
  rw [octetBefore?, hplace, if_pos (by simp; omega)]
  simp

/-- The octet in front of an end is the one with which the end can be continued. -/
theorem octetBefore?_beq {d h : List UInt8} (hsuffix : d <:+ h) (hne : h.length ≠ d.length)
    (x : UInt8) : (octetBefore? h d.length).map (· == x) = some (decide (x :: d <:+ h)) := by
  obtain ⟨y, hy, hbefore⟩ := exists_octetBefore? hsuffix hne
  rw [hy, Option.map_some, Option.some.injEq, Bool.eq_iff_iff, beq_iff_eq, decide_eq_true_eq]
  constructor
  · rintro rfl
    exact hbefore
  · intro hcontinued
    have hsame : y :: d = x :: d :=
      (List.suffix_or_suffix_of_suffix hbefore hcontinued).elim (·.eq_of_length rfl)
        fun hback => (hback.eq_of_length rfl).symm
    exact (List.cons.inj hsame).1

theorem octets_dot_cons (s : List Char) :
    Text.octets ('.' :: s) = '.'.toUInt8 :: Text.octets s :=
  rfl

/-- The comparison of octets looks for none where there is none. -/
theorem endOctets?_eq (h d : List UInt8) :
    endOctets? h d = some (decide (d ≠ [] ∧ (d = h ∨ '.'.toUInt8 :: d <:+ h))) := by
  have hend : d = h ∨ '.'.toUInt8 :: d <:+ h → d <:+ h := by
    rintro (rfl | hbelow)
    · exact List.suffix_rfl
    · exact (List.suffix_cons _ d).trans hbelow
  have hno : ¬(d ≠ [] ∧ (d = h ∨ '.'.toUInt8 :: d <:+ h)) →
      some false = some (decide (d ≠ [] ∧ (d = h ∨ '.'.toUInt8 :: d <:+ h))) :=
    fun hnot => by rw [decide_eq_false hnot]
  rw [endOctets?]
  split
  · rename_i hshort
    rw [Bool.or_eq_true, List.isEmpty_iff, decide_eq_true_eq] at hshort
    refine hno fun hyes => ?_
    rcases hshort with hnil | hlt
    · exact hyes.1 hnil
    · exact absurd (hend hyes.2).length_le (Nat.not_le.mpr hlt)
  rename_i hlong
  rw [Bool.or_eq_true, List.isEmpty_iff, not_or] at hlong
  split
  · rename_i hother
    refine hno fun hyes => ?_
    rw [List.isSuffixOf_iff_suffix.mpr (hend hyes.2)] at hother
    cases hother
  rename_i hother
  have hsuffix : d <:+ h := by simpa using hother
  split
  · rename_i hlength
    have heq : d = h := hsuffix.eq_of_length (beq_iff_eq.mp hlength).symm
    rw [decide_eq_true ⟨hlong.1, .inl heq⟩]
  · rename_i hlength
    rw [beq_iff_eq] at hlength
    have hne : d ≠ h := fun heq => hlength (congrArg List.length heq.symm)
    rw [octetBefore?_beq hsuffix hlength]
    simp only [ne_eq, hlong.1, hne, not_false_eq_true, true_and, false_or]

/-- What octets say is what characters say, in names of any characters. -/
theorem compareOctets?_eq (host domain : String) :
    compareOctets? host domain = some (isWithin host domain) := by
  rw [compareOctets?, endOctets?_eq, Option.some.injEq, Bool.eq_iff_iff, decide_eq_true_eq,
    isWithin_iff, ← octets_dot_cons, Text.octets_suffix_iff, ne_eq, Text.octets_eq_nil_iff]
  exact and_congr_right fun _ => or_congr_left ⟨Text.octets_inj, congrArg Text.octets⟩

/-! ### Scopes -/

variable {below : String} {scope : DomainScope}

theorem isCovered_iff : isCovered host scope = true ↔
    (∀ d ∈ scope.excluded, isWithin host d = false) ∧
      (scope.included = [] ∨ ∃ d ∈ scope.included, isWithin host d = true) := by
  simp only [isCovered, Bool.and_eq_true, Bool.not_eq_true', Bool.or_eq_true, List.any_eq_false,
    List.any_eq_true, List.isEmpty_iff, Bool.not_eq_true]

theorem isCovered_eq_false_of_excluded {domain : String} (hmem : domain ∈ scope.excluded)
    (h : isWithin host domain = true) : isCovered host scope = false := by
  rw [Bool.eq_false_iff, ne_eq, isCovered_iff]
  rintro ⟨hexcluded, -⟩
  rw [hexcluded domain hmem] at h
  cases h

/-- What includes a host includes all below it, so only what is excluded decides there. -/
theorem isCovered_of_isWithin_iff (hbelow : isWithin below host = true)
    (h : isCovered host scope = true) :
    isCovered below scope = true ↔ ∀ d ∈ scope.excluded, isWithin below d = false := by
  rw [isCovered_iff, and_iff_left]
  rcases (isCovered_iff.mp h).2 with hnil | ⟨d, hmem, hd⟩
  · exact .inl hnil
  · exact .inr ⟨d, hmem, isWithin_trans hbelow hd⟩

/-- **A domain covers what ends with its labels.** For all names, of any characters: the comparison of
octets looks at none outside the host; it finds a host within a domain exactly if the domain is more
than dots and its labels are the last ones of the host, both without the dots at their end. So every
name that is more than dots lies within itself, and so does what continues it to the front; what lies
within a name lies within all that the name lies within; and two names that lie within each other
differ in the dots at their end alone. A scope that excludes a host excludes all that lies below it,
and one that covers a host covers all below it but what a domain excludes there. -/
theorem hosts_match_by_labels :
    (∀ host domain : String, compareOctets? host domain = some (isWithin host domain) ∧
      (isWithin host domain = true ↔ bare domain ≠ [] ∧ labels domain <:+ labels host)) ∧
    (∀ name : String, (∃ c ∈ name.toList, c ≠ '.') → isWithin name name = true ∧
      ∀ above : String, isWithin (above ++ "." ++ name) name = true) ∧
    (∀ a b c : String, isWithin a b = true → isWithin b c = true → isWithin a c = true) ∧
    (∀ a b : String, isWithin a b = true → isWithin b a = true → bare a = bare b) ∧
    ∀ (host below : String) (scope : DomainScope), isWithin below host = true →
      ((∃ d ∈ scope.excluded, isWithin host d = true) →
        isCovered host scope = false ∧ isCovered below scope = false) ∧
      (isCovered host scope = true →
        (isCovered below scope = true ↔ ∀ d ∈ scope.excluded, isWithin below d = false)) := by
  refine ⟨?_, ?_, ?_, ?_, ?_⟩
  · exact fun host domain => ⟨compareOctets?_eq host domain, isWithin_iff_labels⟩
  · intro name h
    rw [← bare_ne_nil_iff] at h
    exact ⟨isWithin_self h, fun above => isWithin_append above h⟩
  · exact fun _ _ _ => isWithin_trans
  · exact fun _ _ => isWithin_antisymm
  · intro host below scope hbelow
    refine ⟨?_, isCovered_of_isWithin_iff hbelow⟩
    rintro ⟨d, hmem, hd⟩
    exact ⟨isCovered_eq_false_of_excluded hmem hd,
      isCovered_eq_false_of_excluded hmem (isWithin_trans hbelow hd)⟩

/-- A scope for a name outside of ASCII, but for a part of it. -/
theorem hosts_match_by_labels_sample :
    let scope : DomainScope := ⟨["bücher.example"], ["ads.bücher.example."]⟩
    compareOctets? "ebücher.example" "bücher.example" = some false ∧
      isWithin "www..bücher.example" "bücher.example" = true ∧
      isWithin "x.cdn.bücher.example" "example" = true ∧
      bare "bücher.example.." = bare "bücher.example" ∧
      isCovered "x.ads.bücher.example" scope = false ∧
      isCovered "x.cdn.bücher.example" scope = true := by
  intro scope
  obtain ⟨hlabels, hself, htrans, hantisymm, hscope⟩ := hosts_match_by_labels
  have hname : ∃ c ∈ "bücher.example".toList, c ≠ '.' := ⟨'b', by decide +kernel, by decide⟩
  refine ⟨?_, (hself _ hname).2 "www.", ?_, ?_, ?_, ?_⟩
  · rw [(hlabels _ _).1]
    decide +kernel
  · exact htrans _ "bücher.example" _ (by decide +kernel) (by decide +kernel)
  · exact hantisymm _ _ (by decide +kernel) (by decide +kernel)
  · have hexcluded : ∃ d ∈ scope.excluded, isWithin "ads.bücher.example" d = true :=
      ⟨_, List.mem_singleton_self _, by decide +kernel⟩
    exact ((hscope "ads.bücher.example" _ scope (by decide +kernel)).1 hexcluded).2
  · exact ((hscope "cdn.bücher.example" _ scope (by decide +kernel)).2 (by decide +kernel)).mpr
      (by decide +kernel)

end Host

end Blocklist
