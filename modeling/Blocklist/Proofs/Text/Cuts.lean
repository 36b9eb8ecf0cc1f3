import Blocklist.Proofs.Text.Lines
import Blocklist.Text.Split

/-!
# Parts that texts are cut into

What is cut out of a text has no characters of its own: not a trimmed text, not a part between
separators, not what stands before a marker. A part between separators holds no separator, and a
trimmed text that is not empty ends with a character that is not blank.
-/

namespace Blocklist.Text

variable {c : Char} {s : List Char}

/-- A text with something in it that is not blank. -/
def Inked (s : List Char) : Prop :=
  ∃ c ∈ s, isBlank c = false

/-! ### Blank ends -/

theorem trim_sublist (s : List Char) : (trim s).Sublist s := by
  have hinit : trim s <+: trimStart s := List.rdropWhile_prefix isBlank (trimStart s)
  exact hinit.sublist.trans (List.dropWhile_suffix isBlank).sublist

theorem mem_of_mem_trim (h : c ∈ trim s) : c ∈ s :=
  (trim_sublist s).subset h

/-- A trimmed text ends with a character that is not blank. -/
theorem isBlank_getLast_trim (h : trim s ≠ []) : isBlank ((trim s).getLast h) = false :=
  Bool.eq_false_iff.mpr (List.rdropWhile_last_not isBlank (trimStart s) h)

theorem inked_trim (h : trim s ≠ []) : Inked (trim s) :=
  ⟨_, List.getLast_mem h, isBlank_getLast_trim h⟩

/-- What stands behind the first character of a trimmed text is not blank either. -/
theorem inked_of_trim_eq_cons {rest : List Char} (h : trim s = c :: rest) (hrest : rest ≠ []) :
    Inked rest := by
  have hne : trim s ≠ [] := by simp [h]
  have hlast := isBlank_getLast_trim hne
  simp only [h, List.getLast_cons hrest] at hlast
  exact ⟨_, List.getLast_mem hrest, hlast⟩

/-- Nothing is left of a text of blanks, and of no other text. -/
theorem trim_eq_nil_iff : trim s = [] ↔ ∀ c ∈ s, isBlank c = true := by
  constructor
  · intro h
    have hend : ∀ c ∈ trimStart s, isBlank c = true := List.rdropWhile_eq_nil_iff.mp h
    have hstart : trimStart s = [] := by
      by_contra hne
      have hhead := List.dropWhile_get_zero_not isBlank s (List.length_pos_iff.mpr hne)
      exact hhead (hend _ (List.getElem_mem _))
    exact List.dropWhile_eq_nil_iff.mp hstart
  · intro h
    rw [trim, trimStart, List.dropWhile_eq_nil_iff.mpr h]
    rfl

/-- A text is trimmed if neither of its ends is blank. -/
theorem trim_eq_self_iff :
    trim s = s ↔ (∀ c ∈ s.head?, isBlank c = false) ∧ ∀ c ∈ s.getLast?, isBlank c = false := by
  have hstart : trimStart s = s ↔ ∀ c ∈ s.head?, isBlank c = false := by
    rw [trimStart, List.dropWhile_eq_self_iff]
    cases s <;> simp
  have hend : trimEnd s = s ↔ ∀ c ∈ s.getLast?, isBlank c = false := by
    refine List.rdropWhile_eq_self_iff.trans ?_
    cases s <;> simp [List.getLast?_eq_some_getLast]
  rw [← hstart, ← hend]
  constructor
  · intro h
    have hprefix : trim s <+: trimStart s := List.rdropWhile_prefix isBlank (trimStart s)
    have hsuffix : trimStart s <:+ s := List.dropWhile_suffix isBlank
    have hlength : s.length ≤ (trimStart s).length := by
      calc
        s.length = (trim s).length := by rw [h]
        _ ≤ (trimStart s).length := hprefix.length_le
    have heq : trimStart s = s := hsuffix.eq_of_length_le hlength
    exact ⟨heq, by rwa [trim, heq] at h⟩
  · rintro ⟨hstart, hend⟩
    rw [trim, hstart, hend]

/-- Trimmed texts in a row are trimmed. -/
theorem trim_append {a b : List Char} (ha : trim a = a) (hb : trim b = b) :
    trim (a ++ b) = a ++ b := by
  rw [trim_eq_self_iff] at *
  rw [List.head?_append, List.getLast?_append]
  constructor
  · intro c hc
    obtain hc | ⟨-, hc⟩ := Option.or_eq_some_iff.mp hc
    · exact ha.1 c hc
    · exact hb.1 c hc
  · intro c hc
    obtain hc | ⟨-, hc⟩ := Option.or_eq_some_iff.mp hc
    · exact hb.2 c hc
    · exact ha.2 c hc

/-! ### Separators -/

/-- A part between separators holds none, and nothing that does not stand in the text. -/
theorem of_mem_splitOn {separator : Char} {part : List Char} (h : part ∈ s.splitOn separator) :
    separator ∉ part ∧ part ⊆ s := by
  induction s generalizing part with
  | nil =>
      rw [List.splitOn_nil, List.mem_singleton] at h
      subst h
      exact ⟨List.not_mem_nil, List.Subset.refl []⟩
  | cons d s ih =>
      obtain ⟨first, rest, hparts⟩ := List.exists_cons_of_ne_nil (List.splitOn_ne_nil separator s)
      rw [List.splitOn_cons_eq_if_modifyHead] at h
      split at h
      · rcases List.mem_cons.mp h with rfl | h
        · exact ⟨List.not_mem_nil, List.nil_subset _⟩
        · obtain ⟨hnot, hsubset⟩ := ih h
          exact ⟨hnot, List.subset_cons_of_subset d hsubset⟩
      · rename_i hne
        rw [hparts, List.modifyHead_cons] at h
        rcases List.mem_cons.mp h with rfl | h
        · obtain ⟨hnot, hsubset⟩ := ih (hparts ▸ List.mem_cons_self)
          constructor
          · intro hmem
            rcases List.mem_cons.mp hmem with rfl | hmem
            · simp at hne
            · exact hnot hmem
          · exact List.cons_subset_cons d hsubset
        · obtain ⟨hnot, hsubset⟩ := ih (hparts ▸ List.mem_cons_of_mem first h)
          exact ⟨hnot, List.subset_cons_of_subset d hsubset⟩

/-- The first part of a text is all that stands before the first separator. -/
theorem exists_splitOn_eq (separator : Char) (s : List Char) :
    ∃ parts, s.splitOn separator = s.takeWhile (· ≠ separator) :: parts := by
  induction s with
  | nil => exact ⟨[], List.splitOn_nil separator⟩
  | cons d s ih =>
      obtain ⟨parts, hparts⟩ := ih
      rw [List.splitOn_cons_eq_if_modifyHead, hparts, List.modifyHead_cons]
      split
      · rename_i heq
        exact ⟨_, by rw [List.takeWhile_cons_of_neg (by simpa using heq)]⟩
      · rename_i hne
        exact ⟨_, by rw [List.takeWhile_cons_of_pos (by simpa using hne)]⟩

/-- What holds of parts and of a separator holds of the parts with separators between them, if it
passes on to texts in a row. -/
theorem intercalate_of_parts {P : List Char → Prop} {separator : Char} {parts : List (List Char)}
    (hnil : P []) (hseparator : P [separator]) (happend : ∀ {a b}, P a → P b → P (a ++ b))
    (hparts : ∀ part ∈ parts, P part) : P ([separator].intercalate parts) := by
  induction parts with
  | nil => exact hnil
  | cons part rest ih =>
      have hrest := ih fun part hpart => hparts part (List.mem_cons_of_mem _ hpart)
      cases rest with
      | nil => simpa using hparts part List.mem_cons_self
      | cons next rest =>
          rw [List.intercalate_cons_cons]
          exact happend (happend (hparts part List.mem_cons_self) hseparator) hrest

/-- Parts in front of other parts are separated from them once. -/
theorem intercalate_append {separator : Char} {parts later : List (List Char)} (h : parts ≠ [])
    (hlater : later ≠ []) : [separator].intercalate (parts ++ later) =
      [separator].intercalate parts ++ separator :: [separator].intercalate later := by
  induction parts with
  | nil => exact absurd rfl h
  | cons part rest ih =>
      cases rest with
      | nil =>
          rw [List.singleton_append, List.intercalate_cons_of_ne_nil hlater,
            List.intercalate_singleton, List.append_assoc, List.singleton_append]
      | cons next rest =>
          rw [List.cons_append, List.cons_append, List.intercalate_cons_cons,
            List.intercalate_cons_cons, ← List.cons_append, ih (List.cons_ne_nil _ _),
            List.append_assoc, List.append_assoc, List.append_assoc]

/-- The parts of a text are the last ones of another text exactly if the two are the same, or the
other one ends with a separator and the text. -/
theorem splitOn_suffix_iff {separator : Char} {a b : List Char} :
    a.splitOn separator <:+ b.splitOn separator ↔ a = b ∨ separator :: a <:+ b := by
  constructor
  · rintro ⟨front, hparts⟩
    have hb : b = [separator].intercalate (front ++ a.splitOn separator) := by
      rw [hparts, List.intercalate_splitOn]
    cases front with
    | nil =>
        left
        rw [hb, List.nil_append, List.intercalate_splitOn]
    | cons part rest =>
        right
        rw [hb, intercalate_append (List.cons_ne_nil _ _) (List.splitOn_ne_nil _ _),
          List.intercalate_splitOn]
        exact List.suffix_append _ _
  · rintro (rfl | ⟨front, rfl⟩)
    · exact List.suffix_rfl
    · rw [List.splitOn_append_cons_self]
      exact List.suffix_append _ _

/-- A text is cut before the first place where a character stands. -/
theorem splitFirstFrom?_singleton {before a b : List Char}
    (h : splitFirstFrom? [c] before s = some (a, b)) :
    ∃ passed, a = before.reverse ++ passed ∧ c ∉ passed ∧ s = passed ++ c :: b := by
  induction s generalizing before with
  | nil => cases h
  | cons d s ih =>
      by_cases hd : c = d
      · subst hd
        rw [splitFirstFrom?, dropLead?, if_pos rfl, dropLead?] at h
        cases h
        exact ⟨[], by simp, List.not_mem_nil, rfl⟩
      · rw [splitFirstFrom?, dropLead?, if_neg hd] at h
        obtain ⟨passed, ha, hnot, hs⟩ := ih h
        refine ⟨d :: passed, by simp [ha], ?_, by rw [hs, List.cons_append]⟩
        intro hmem
        rcases List.mem_cons.mp hmem with heq | hmem
        · exact hd heq
        · exact hnot hmem

theorem splitFirst?_singleton {a b : List Char} (h : splitFirst? [c] s = some (a, b)) :
    c ∉ a ∧ s = a ++ c :: b := by
  obtain ⟨passed, rfl, hnot, hs⟩ := splitFirstFrom?_singleton h
  exact ⟨hnot, hs⟩

/-- A text that is not cut does not hold the character. -/
theorem not_mem_of_splitFirstFrom?_eq_none {before : List Char}
    (h : splitFirstFrom? [c] before s = none) : c ∉ s := by
  induction s generalizing before with
  | nil => exact List.not_mem_nil
  | cons d s ih =>
      by_cases hd : c = d
      · rw [splitFirstFrom?, dropLead?, if_pos hd, dropLead?] at h
        cases h
      · rw [splitFirstFrom?, dropLead?, if_neg hd] at h
        intro hmem
        rcases List.mem_cons.mp hmem with heq | hmem
        · exact hd heq
        · exact ih h hmem

theorem splitFirstFrom?_append {before a b : List Char} (h : c ∉ a) :
    splitFirstFrom? [c] before (a ++ c :: b) = some (before.reverse ++ a, b) := by
  induction a generalizing before with
  | nil =>
      rw [List.nil_append, splitFirstFrom?, dropLead?, if_pos rfl, dropLead?, List.append_nil]
  | cons d a ih =>
      rw [List.mem_cons, not_or] at h
      obtain ⟨hd, ha⟩ := h
      rw [List.cons_append, splitFirstFrom?, dropLead?, if_neg hd]
      dsimp only
      rw [ih ha, List.reverse_cons, List.append_assoc, List.singleton_append]

/-- A text is cut where a character stands for the first time. -/
theorem splitFirst?_append {a b : List Char} (h : c ∉ a) :
    splitFirst? [c] (a ++ c :: b) = some (a, b) :=
  splitFirstFrom?_append h

theorem splitFirst?_eq_none (h : c ∉ s) : splitFirst? [c] s = none := by
  cases hcut : splitFirst? [c] s with
  | none => rfl
  | some parts => exact absurd (by simp [(splitFirst?_singleton hcut).2]) h

/-! ### Ends that are taken off -/

theorem eq_append_of_dropLead? {marker rest : List Char} (h : dropLead? marker s = some rest) :
    s = marker ++ rest := by
  induction marker generalizing s with
  | nil =>
      rw [dropLead?] at h
      exact Option.some.inj h
  | cons m marker ih =>
      cases s with
      | nil => cases h
      | cons d s =>
          rw [dropLead?] at h
          split at h
          · rename_i hd
            rw [hd, ih h, List.cons_append]
          · cases h

theorem eq_append_of_dropLast? {rest : List Char} (h : dropLast? c s = some rest) :
    s = rest ++ [c] := by
  rw [dropLast?] at h
  split at h
  · rename_i d r hreverse
    split at h
    · rename_i hd
      rw [← List.reverse_reverse s, hreverse, List.reverse_cons, Option.some.inj h, hd]
    · cases h
  · cases h

theorem dropLead?_append (marker rest : List Char) :
    dropLead? marker (marker ++ rest) = some rest := by
  induction marker with
  | nil => rfl
  | cons m marker ih => rw [List.cons_append, dropLead?, if_pos rfl, ih]

theorem dropLast?_concat (rest : List Char) (c : Char) : dropLast? c (rest ++ [c]) = some rest := by
  simp [dropLast?]

theorem dropLast?_eq_none (h : s.getLast? ≠ some c) : dropLast? c s = none := by
  cases hdrop : dropLast? c s with
  | none => rfl
  | some rest => exact absurd (by simp [eq_append_of_dropLast? hdrop]) h

end Blocklist.Text
