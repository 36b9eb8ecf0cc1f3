import Blocklist.Proofs.Text.Markers
import Mathlib

/-!
# Letter case in texts

Texts that differ in nothing but the case of ASCII letters. Blanks, separators and markers without
letters stand at the same places in them, so such texts are trimmed and cut alike.
-/

namespace Blocklist.Text

variable {c : Char} {s : List Char}

/-- Two texts that differ in nothing but the case of letters. -/
def SpelledAlike (a b : List Char) : Prop :=
  a.map Char.toLower = b.map Char.toLower

instance (a b : List Char) : Decidable (SpelledAlike a b) :=
  inferInstanceAs (Decidable (_ = _))

/-- A change of characters that changes nothing but the case of letters. -/
def Recasing (f : Char → Char) : Prop :=
  ∀ c, (f c).toLower = c.toLower

theorem recasing_toLower : Recasing Char.toLower :=
  Char.toLower_toLower_eq_toLower

theorem recasing_toUpper : Recasing Char.toUpper :=
  Char.toLower_toUpper_eq_toLower

/-- Only letters have another lower case. -/
theorem toLower_of_not_isAlpha (h : c.isAlpha = false) : c.toLower = c := by
  rw [Char.isAlpha, Bool.or_eq_false_iff] at h
  exact Char.toLower_eq_of_not_isUpper (Bool.eq_false_iff.mp h.1)

theorem isAlpha_iff :
    c.isAlpha = true ↔ (65 ≤ c.toNat ∧ c.toNat ≤ 90) ∨ (97 ≤ c.toNat ∧ c.toNat ≤ 122) := by
  simp [Char.isAlpha, Char.isUpper, Char.isLower, UInt32.le_iff_toNat_le, ← Char.toNat_val]

/-- Blanks are no letters. -/
theorem isAlpha_of_isBlank (h : isBlank c = true) : c.isAlpha = false := by
  rw [isBlank] at h
  simp only [Bool.or_eq_true, Bool.and_eq_true, decide_eq_true_eq, beq_iff_eq] at h
  rw [Bool.eq_false_iff, ne_eq, isAlpha_iff]
  omega

/-- What does not look at the case of letters drops the same characters from the end. -/
theorem dropEndWhile_map {f : Char → Char} {p : Char → Bool} (hp : ∀ c, p (f c) = p c)
    (s : List Char) : dropEndWhile p (s.map f) = (dropEndWhile p s).map f := by
  rw [dropEndWhile, dropEndWhile, ← List.map_reverse, List.dropWhile_map, ← List.map_reverse,
    show p ∘ f = p from funext hp]

namespace Recasing

variable {f : Char → Char} (hf : Recasing f)

include hf

theorem isAlpha_apply (c : Char) : (f c).isAlpha = c.isAlpha := by
  rw [← Char.isAlpha_toLower_eq_isAlpha (f c), hf c, Char.isAlpha_toLower_eq_isAlpha]

theorem apply_of_not_isAlpha (h : c.isAlpha = false) : f c = c :=
  calc
    f c = (f c).toLower := (toLower_of_not_isAlpha ((hf.isAlpha_apply c).trans h)).symm
    _ = c.toLower := hf c
    _ = c := toLower_of_not_isAlpha h

/-- What is no letter comes from itself alone. -/
theorem apply_eq_iff {m : Char} (hm : m.isAlpha = false) : f c = m ↔ c = m := by
  constructor
  · rintro rfl
    exact (hf.apply_of_not_isAlpha ((hf.isAlpha_apply c).symm.trans hm)).symm
  · rintro rfl
    exact hf.apply_of_not_isAlpha hm

theorem isBlank_apply (c : Char) : isBlank (f c) = isBlank c := by
  cases halpha : c.isAlpha with
  | false => rw [hf.apply_of_not_isAlpha halpha]
  | true =>
      have hletter : ∀ {d : Char}, d.isAlpha = true → isBlank d = false := by
        intro d hd
        rw [Bool.eq_false_iff]
        intro hblank
        rw [isAlpha_of_isBlank hblank] at hd
        cases hd
      rw [hletter halpha, hletter ((hf.isAlpha_apply c).trans halpha)]

theorem trim_map (s : List Char) : trim (s.map f) = (trim s).map f := by
  have hstart : trimStart (s.map f) = (trimStart s).map f := by
    rw [trimStart, trimStart, List.dropWhile_map, show isBlank ∘ f = isBlank from
      funext hf.isBlank_apply]
  rw [trim, hstart]
  exact dropEndWhile_map hf.isBlank_apply _

theorem splitOn_map {separator : Char} (h : separator.isAlpha = false) (s : List Char) :
    (s.map f).splitOn separator = (s.splitOn separator).map (List.map f) := by
  induction s with
  | nil => simp
  | cons c s ih =>
      obtain ⟨part, parts, hparts⟩ := List.exists_cons_of_ne_nil (List.splitOn_ne_nil separator s)
      have hiff : (f c == separator) = (c == separator) := by
        rw [Bool.eq_iff_iff, beq_iff_eq, beq_iff_eq, hf.apply_eq_iff h]
      rw [List.map_cons, List.splitOn_cons_eq_if_modifyHead, List.splitOn_cons_eq_if_modifyHead,
        ih, hiff, hparts]
      split
      · rfl
      · rfl

/-- A marker without letters is taken off alike. -/
theorem dropLead?_map {marker : List Char} (h : ∀ m ∈ marker, m.isAlpha = false) (s : List Char) :
    dropLead? marker (s.map f) = (dropLead? marker s).map (List.map f) := by
  induction marker generalizing s with
  | nil => rfl
  | cons m marker ih =>
      rw [List.forall_mem_cons] at h
      cases s with
      | nil => rfl
      | cons c s =>
          rw [List.map_cons, dropLead?, dropLead?]
          by_cases hc : m = c
          · rw [if_pos hc, if_pos ((hf.apply_eq_iff h.1).mpr hc.symm).symm, ih h.2]
          · rw [if_neg hc, if_neg fun heq => hc ((hf.apply_eq_iff h.1).mp heq.symm).symm]
            rfl

/-- A text is cut alike at a marker without letters. -/
theorem splitFirst?_map {marker : List Char} (h : ∀ m ∈ marker, m.isAlpha = false)
    (s : List Char) : splitFirst? marker (s.map f) =
      (splitFirst? marker s).map fun cut => (cut.1.map f, cut.2.map f) := by
  induction s with
  | nil => cases marker <;> rfl
  | cons c s ih =>
      have hlead := hf.dropLead?_map h (c :: s)
      rw [List.map_cons] at hlead
      rw [List.map_cons, splitFirst?_cons, splitFirst?_cons, hlead, ih]
      cases dropLead? marker (c :: s) with
      | some rest => rfl
      | none =>
          dsimp only [Option.map_none]
          rw [Option.map_map, Option.map_map]
          rfl

theorem spelledAlike_map (s : List Char) : SpelledAlike (s.map f) s := by
  rw [SpelledAlike, List.map_map]
  exact List.map_congr_left fun c _ => hf c

end Recasing

namespace SpelledAlike

variable {a b : List Char}

theorem length_eq (h : SpelledAlike a b) : a.length = b.length := by
  simpa using congrArg List.length h

/-- What is no letter stands in both texts or in neither. -/
theorem not_mem (h : SpelledAlike a b) (hc : c.isAlpha = false) (hb : c ∉ b) : c ∉ a := by
  intro ha
  have hlower : c ∈ b.map Char.toLower := by
    rw [← h, ← toLower_of_not_isAlpha hc]
    exact List.mem_map_of_mem ha
  obtain ⟨d, hd, heq⟩ := List.mem_map.mp hlower
  exact hb ((recasing_toLower.apply_eq_iff hc).mp heq ▸ hd)

theorem append (h : SpelledAlike a b) {x y : List Char} (hxy : SpelledAlike x y) :
    SpelledAlike (a ++ x) (b ++ y) := by
  rw [SpelledAlike, List.map_append, List.map_append, h, hxy]

end SpelledAlike

theorem map_intercalate (f : Char → Char) (separator : Char) (parts : List (List Char)) :
    ([separator].intercalate parts).map f = [f separator].intercalate (parts.map (List.map f)) := by
  induction parts with
  | nil => rfl
  | cons part rest ih =>
      cases rest with
      | nil => simp
      | cons next rest =>
          rw [List.intercalate_cons_cons, List.map_append, List.map_append, ih]
          simp only [List.map_cons, List.map_nil, List.intercalate_cons_cons]

/-- A text is spelled anew part by part. -/
theorem spelledAlike_intercalate_map {separator : Char} {respell : List Char → List Char}
    (h : ∀ part, SpelledAlike (respell part) part) (s : List Char) :
    SpelledAlike ([separator].intercalate ((s.splitOn separator).map respell)) s := by
  have hparts : ((s.splitOn separator).map respell).map (List.map Char.toLower) =
      (s.splitOn separator).map (List.map Char.toLower) := by
    rw [List.map_map]
    exact List.map_congr_left fun part _ => h part
  calc
    ([separator].intercalate ((s.splitOn separator).map respell)).map Char.toLower =
        [separator.toLower].intercalate
          (((s.splitOn separator).map respell).map (List.map Char.toLower)) :=
      map_intercalate _ _ _
    _ = [separator.toLower].intercalate ((s.splitOn separator).map (List.map Char.toLower)) := by
      rw [hparts]
    _ = ([separator].intercalate (s.splitOn separator)).map Char.toLower :=
      (map_intercalate _ _ _).symm
    _ = s.map Char.toLower := by rw [List.intercalate_splitOn]

end Blocklist.Text
