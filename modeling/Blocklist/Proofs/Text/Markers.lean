import Blocklist.Proofs.Text.Cuts

/-!
# Markers in texts

Where a marker of several characters stands in a text. A text in front that cannot hold the start of
the marker is passed over, and a marker cannot reach past a character that it does not have.
-/

namespace Blocklist.Text

variable {c : Char} {marker : List Char}

/-- A marker without a character does not reach past that character. -/
theorem dropLead?_append_cons {a b : List Char} (h : c ∉ marker) :
    dropLead? marker (a ++ c :: b) = (dropLead? marker a).map (· ++ c :: b) := by
  induction marker generalizing a with
  | nil => rfl
  | cons m marker ih =>
      rw [List.mem_cons, not_or] at h
      cases a with
      | nil => simp [dropLead?, Ne.symm h.1]
      | cons d a =>
          rw [List.cons_append, dropLead?, dropLead?]
          split
          · exact ih h.2
          · rfl

/-- A marker can be taken off the texts that start with it. -/
theorem isSome_dropLead? (marker s : List Char) :
    (dropLead? marker s).isSome = marker.isPrefixOf s := by
  induction marker generalizing s with
  | nil => simp [dropLead?]
  | cons m marker ih =>
      cases s with
      | nil => rfl
      | cons c s =>
          rw [dropLead?, List.isPrefixOf]
          split
          · rename_i h
            rw [ih, beq_iff_eq.mpr h, Bool.true_and]
          · rename_i h
            rw [beq_false_of_ne h, Bool.false_and, Option.isSome_none]

theorem takeWhile_ne_append_cons {a b : List Char} (h : c ∉ a) :
    (a ++ c :: b).takeWhile (· ≠ c) = a := by
  have hpass : ∀ d ∈ a, decide (d ≠ c) = true := by
    intro d hd
    exact decide_eq_true fun heq => h (heq ▸ hd)
  rw [List.takeWhile_append_of_pos hpass, List.takeWhile_cons_of_neg (by simp), List.append_nil]

/-! ### The first place of a marker -/

theorem isSome_splitFirstFrom? (marker before s : List Char) :
    (splitFirstFrom? marker before s).isSome = occurs marker s := by
  induction s generalizing before with
  | nil => cases marker <;> rfl
  | cons c s ih =>
      have hlead := isSome_dropLead? marker (c :: s)
      rw [splitFirstFrom?, occurs, ← hlead, ← ih (c :: before)]
      cases dropLead? marker (c :: s) <;> rfl

/-- A text can be cut at the markers that stand in it. -/
theorem isSome_splitFirst? (marker s : List Char) :
    (splitFirst? marker s).isSome = occurs marker s :=
  isSome_splitFirstFrom? marker [] s

theorem occurs_iff_infix {s : List Char} : occurs marker s = true ↔ marker <:+: s := by
  induction s with
  | nil => simp [occurs]
  | cons c s ih =>
      rw [occurs, Bool.or_eq_true, List.isPrefixOf_iff_prefix, ih, List.infix_cons_iff]

/-- A text without the first character of a marker in front of another one adds no place of it. -/
theorem infix_append_iff_of_not_mem {m : Char} {a s : List Char} (h : m ∉ a) :
    m :: marker <:+: a ++ s ↔ m :: marker <:+: s := by
  rw [List.infix_append_iff]
  constructor
  · rintro (hleft | hright | ⟨left, right, hmarker, hleft, hright⟩)
    · exact absurd (hleft.subset List.mem_cons_self) h
    · exact hright
    · cases left with
      | nil =>
          rw [hmarker]
          exact hright.isInfix
      | cons c left =>
          rw [List.cons_append] at hmarker
          exact absurd ((List.cons.inj hmarker).1 ▸ hleft.subset List.mem_cons_self) h
  · exact fun hright => .inr (.inl hright)

/-- A marker stands in front of a character that it does not have, or behind it. -/
theorem infix_append_cons_iff {a b : List Char} (h : c ∉ marker) :
    marker <:+: a ++ c :: b ↔ marker <:+: a ∨ marker <:+: b := by
  have hempty : ∀ {right : List Char}, c ∉ right → right <+: c :: b → right = [] := by
    rintro (_ | ⟨d, right⟩) hnot hright
    · rfl
    · exact absurd ((List.cons_prefix_cons.mp hright).1 ▸ List.mem_cons_self) hnot
  rw [List.infix_append_iff, List.infix_cons_iff]
  constructor
  · rintro (hleft | (hleft | hright) | ⟨left, right, hmarker, hleft, hright⟩)
    · exact .inl hleft
    · exact .inl (hempty h hleft ▸ List.nil_infix)
    · exact .inr hright
    · have hnil : right = [] := by
        apply hempty _ hright
        rw [hmarker] at h
        exact fun hmem => h (List.mem_append_right _ hmem)
      rw [hmarker, hnil, List.append_nil]
      exact .inl hleft.isInfix
  · rintro (hleft | hright)
    · exact .inl hleft
    · exact .inr (.inl (.inr hright))

theorem splitFirst?_eq_none_iff {s : List Char} :
    splitFirst? marker s = none ↔ ¬marker <:+: s := by
  rw [← occurs_iff_infix, ← isSome_splitFirst?, Option.not_isSome_iff_eq_none]

/-- What is passed already stands in front of what is found. -/
theorem splitFirstFrom?_eq (marker before s : List Char) :
    splitFirstFrom? marker before s =
      (splitFirst? marker s).map fun cut => (before.reverse ++ cut.1, cut.2) := by
  induction s generalizing before with
  | nil =>
      rw [splitFirst?, splitFirstFrom?, splitFirstFrom?]
      split
      · simp
      · rfl
  | cons c s ih =>
      rw [splitFirst?, splitFirstFrom?, splitFirstFrom?]
      cases dropLead? marker (c :: s) with
      | some rest => simp
      | none =>
          dsimp only
          rw [ih, ih [c], Option.map_map]
          apply congrFun
          apply congrArg
          funext cut
          simp

theorem splitFirst?_cons (marker : List Char) (c : Char) (s : List Char) :
    splitFirst? marker (c :: s) =
      match dropLead? marker (c :: s) with
      | some rest => some ([], rest)
      | none => (splitFirst? marker s).map fun cut => (c :: cut.1, cut.2) := by
  rw [splitFirst?, splitFirstFrom?]
  cases dropLead? marker (c :: s) with
  | some rest => rfl
  | none => exact splitFirstFrom?_eq marker [c] s

/-- A text is cut into what stands before a marker and what stands behind it. -/
theorem eq_append_of_splitFirst? {s a b : List Char} (h : splitFirst? marker s = some (a, b)) :
    s = a ++ (marker ++ b) := by
  induction s generalizing a with
  | nil =>
      cases marker with
      | nil =>
          cases h
          rfl
      | cons m marker => cases h
  | cons c s ih =>
      rw [splitFirst?_cons] at h
      split at h
      · rename_i rest hlead
        cases h
        rw [List.nil_append]
        exact eq_append_of_dropLead? hlead
      · obtain ⟨cut, hcut, heq⟩ := Option.map_eq_some_iff.mp h
        cases heq
        rw [ih hcut, List.cons_append]

/-- A text that does not hold the first character of a marker is passed over. -/
theorem splitFirst?_append_of_not_mem {m : Char} {a : List Char} (h : m ∉ a) (s : List Char) :
    splitFirst? (m :: marker) (a ++ s) =
      (splitFirst? (m :: marker) s).map fun cut => (a ++ cut.1, cut.2) := by
  induction a with
  | nil => simp
  | cons c a ih =>
      rw [List.mem_cons, not_or] at h
      rw [List.cons_append, splitFirst?_cons, dropLead?, if_neg h.1]
      dsimp only
      rw [ih h.2, Option.map_map]
      rfl

end Blocklist.Text
