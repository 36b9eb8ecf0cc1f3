import Blocklist.Text.Blank
import Mathlib.Data.List.DropRight
import Mathlib.Data.List.Forall2

/-!
# Lines and their ends

The lines of a text are what stands between its line feeds. A carriage return at the end of a line
is a blank, so a text has the same lines without blank ends whichever of the two line endings it is
written with.
-/

namespace Blocklist.Text

/-- The lines of a text. -/
def lines (s : List Char) : List (List Char) :=
  s.splitOn '\n'

/-- A text with a carriage return in front of every line feed. -/
def withCarriageReturns (s : List Char) : List Char :=
  s.flatMap fun c => if c = '\n' then ['\r', '\n'] else [c]

/-- A line that is the same but for a carriage return at its end. -/
def Returned (line line' : List Char) : Prop :=
  line' = line ∨ line' = line ++ ['\r']

theorem lines_append (a b : List Char) : lines (a ++ '\n' :: b) = lines a ++ lines b :=
  List.splitOn_append_cons_self a b

theorem lines_eq_singleton {line : List Char} (h : '\n' ∉ line) : lines line = [line] :=
  List.splitOn_eq_singleton h

theorem lines_ne_nil (s : List Char) : lines s ≠ [] :=
  List.splitOn_ne_nil _ _

/-- A character in front of a text stands in front of its first line. -/
theorem lines_cons (c : Char) (s : List Char) :
    lines (c :: s) = if c = '\n' then [] :: lines s else (lines s).modifyHead (c :: ·) := by
  simp [lines, List.splitOn_cons_eq_if_modifyHead]

/-! ### Blank ends -/

theorem dropEndWhile_append_singleton (p : Char → Bool) (s : List Char) {c : Char}
    (h : p c = true) : dropEndWhile p (s ++ [c]) = dropEndWhile p s := by
  rw [dropEndWhile, dropEndWhile, List.reverse_append, List.reverse_singleton,
    List.singleton_append, List.dropWhile_cons_of_pos h]

/-- A blank at the end of a line counts for nothing. -/
theorem trim_append_singleton (s : List Char) {c : Char} (h : isBlank c = true) :
    trim (s ++ [c]) = trim s := by
  rw [trim, trim, trimEnd, trimEnd, trimStart, trimStart, List.dropWhile_append]
  split
  · rename_i hempty
    rw [List.isEmpty_iff.mp hempty, List.dropWhile_cons_of_pos h, List.dropWhile_nil]
  · exact dropEndWhile_append_singleton isBlank _ h

/-- A text that starts with no blank keeps its start when its end is trimmed. -/
theorem trimStart_trimEnd {s : List Char} (h : trimStart s = s) :
    trimStart (trimEnd s) = trimEnd s := by
  obtain ⟨rest, hrest⟩ : trimEnd s <+: s := List.rdropWhile_prefix isBlank s
  cases htrim : trimEnd s with
  | nil => rfl
  | cons c front =>
      rw [htrim, List.cons_append] at hrest
      have hhead : ¬isBlank c := by
        rw [← hrest] at h
        exact List.dropWhile_eq_self_iff.mp h (Nat.zero_lt_succ _)
      exact List.dropWhile_cons_of_neg hhead

/-- A text without blank ends is trimmed already. -/
theorem trim_trim (s : List Char) : trim (trim s) = trim s := by
  have hstart : trimStart (trimStart s) = trimStart s := List.dropWhile_idempotent isBlank s
  calc
    trim (trim s) = trimEnd (trimStart (trimEnd (trimStart s))) := rfl
    _ = trimEnd (trimEnd (trimStart s)) := by rw [trimStart_trimEnd hstart]
    _ = trim s := List.rdropWhile_idempotent isBlank _

theorem Returned.trim_eq {line line' : List Char} (h : Returned line line') :
    trim line' = trim line := by
  rcases h with rfl | rfl
  · rfl
  · exact trim_append_singleton line (by decide)

/-! ### The two line endings -/

/-- Carriage returns in front of the line feeds stand at the ends of lines. -/
theorem forall₂_lines_withCarriageReturns (s : List Char) :
    List.Forall₂ Returned (lines s) (lines (withCarriageReturns s)) := by
  induction s with
  | nil => exact .cons (.inl rfl) .nil
  | cons c rest ih =>
      by_cases h : c = '\n'
      · have hcr : withCarriageReturns (c :: rest) = '\r' :: '\n' :: withCarriageReturns rest := by
          rw [withCarriageReturns, List.flatMap_cons, if_pos h]
          rfl
        rw [hcr, lines_cons, if_pos h, lines_cons, if_neg (by decide), lines_cons, if_pos rfl,
          List.modifyHead_cons]
        exact .cons (.inr rfl) ih
      · have hcr : withCarriageReturns (c :: rest) = c :: withCarriageReturns rest := by
          rw [withCarriageReturns, List.flatMap_cons, if_neg h]
          rfl
        rw [hcr, lines_cons, if_neg h, lines_cons, if_neg h]
        obtain ⟨line, others, hlines⟩ := List.exists_cons_of_ne_nil (lines_ne_nil rest)
        obtain ⟨line', others', hlines'⟩ :=
          List.exists_cons_of_ne_nil (lines_ne_nil (withCarriageReturns rest))
        rw [hlines, hlines'] at ih ⊢
        obtain ⟨hline, hothers⟩ := List.forall₂_cons.mp ih
        refine .cons ?_ hothers
        rcases hline with rfl | rfl
        · exact .inl rfl
        · exact .inr rfl

theorem map_trim_of_forall₂ {ls ls' : List (List Char)} (h : List.Forall₂ Returned ls ls') :
    ls'.map trim = ls.map trim := by
  induction h with
  | nil => rfl
  | cons hline _ ih => rw [List.map_cons, List.map_cons, hline.trim_eq, ih]

/-- Both line endings make the same lines, but for their blank ends. -/
theorem map_trim_lines_withCarriageReturns (s : List Char) :
    (lines (withCarriageReturns s)).map trim = (lines s).map trim :=
  map_trim_of_forall₂ (forall₂_lines_withCarriageReturns s)

end Blocklist.Text
