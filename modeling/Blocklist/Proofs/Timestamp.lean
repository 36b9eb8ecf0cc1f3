import Blocklist.Timestamp
import Blocklist.Proofs.Json.Codec
import Blocklist.Proofs.Text.Decimal
import Mathlib.Data.List.TakeWhile

/-!
# Points in time read back from their text

The text of a point in time names that point: every reader takes the part its writer wrote and
leaves the rest.

## Implementation notes

A part is read off the front of a text, so each lemma is about the text of a part followed by any
other text. A number of a fixed width ends there; the digits of a year end at the mark behind them.
-/

namespace Blocklist.Timestamp

open Blocklist.Text

/-- Blanks are skipped only where there are some. -/
theorem trimStart_append {s : List Char} (hne : s ≠ []) (hs : ∀ c ∈ s, isBlank c = false)
    (rest : List Char) : trimStart (s ++ rest) = s ++ rest := by
  obtain ⟨c, s, rfl⟩ := List.exists_cons_of_ne_nil hne
  rw [trimStart, List.cons_append, List.dropWhile_cons, hs c List.mem_cons_self]
  rfl

theorem trimStart_padded (width n : Nat) (rest : List Char) :
    trimStart (padded width n ++ rest) = padded width n ++ rest :=
  trimStart_append (padded_ne_nil width n)
    (fun _ hc => isBlank_of_isDigit (isDigit_of_mem_padded hc)) rest

/-- A number that fills its width is read, and what follows it is left. -/
theorem number?_padded {width n : Nat} (hwidth : 0 < width) (h : n < 10 ^ width)
    (rest : List Char) : number? width (padded width n ++ rest) = some (n, rest) := by
  have hlength := length_padded hwidth h
  have htake : ((padded width n ++ rest).take width).takeWhile Char.isDigit = padded width n := by
    rw [List.take_left' hlength]
    exact List.takeWhile_eq_self_iff.mpr fun _ => isDigit_of_mem_padded
  have hdrop : (padded width n ++ rest).drop (padded width n).length = rest := List.drop_left
  simp only [number?, trimStart_padded, htake, hdrop, ofDigitChars_padded, List.isEmpty_iff,
    padded_ne_nil, if_false]

/-- A mark is read where it stands. -/
theorem mark?_cons {c : Char} (h : isBlank c = false) (rest : List Char) :
    mark? c (c :: rest) = some rest := by
  simp [mark?, trimStart, h]

/-- The digits of a year end at the mark behind them. -/
theorem digitsNow_padded {n : Nat} (h : n ≤ Int64.maxValue.toInt.natAbs) (rest : List Char) :
    year?.digitsNow (padded 4 n ++ '-' :: rest) = some (n, '-' :: rest) := by
  have htake : (padded 4 n ++ '-' :: rest).takeWhile Char.isDigit = padded 4 n := by
    rw [List.takeWhile_append_of_pos fun _ => isDigit_of_mem_padded]
    simp
  have hle : Nat.ofDigitChars 10 (padded 4 n) 0 ≤ Int64.maxValue.toInt.natAbs := by
    rwa [ofDigitChars_padded]
  have hread := digitsUpTo?_eq_some (padded_ne_nil 4 n) (fun _ => isDigit_of_mem_padded) hle
  rw [ofDigitChars_padded] at hread
  have hdrop : (padded 4 n ++ '-' :: rest).drop (padded 4 n).length = '-' :: rest := List.drop_left
  simp only [year?.digitsNow, htake, hdrop, hread, List.isEmpty_iff, padded_ne_nil, if_false,
    Option.map_some]

theorem year?_minus (rest : List Char) :
    year? ('-' :: rest) = (year?.digitsNow rest).map fun (n, rest) => (-(n : Int), rest) :=
  rfl

theorem year?_plus (rest : List Char) :
    year? ('+' :: rest) = (year?.digitsNow rest).map fun (n, rest) => ((n : Int), rest) :=
  rfl

/-- A text of digits has no sign in front. -/
theorem year?_padded {n : Nat} (h : n < 10 ^ 4) (rest : List Char) :
    year? (padded 4 n ++ rest) = some ((n : Int), rest) := by
  have hdigit : ∀ c tail, padded 4 n ++ rest = c :: tail → c.isDigit = true := by
    intro c tail hcons
    obtain ⟨d, digits, hpadded⟩ := List.exists_cons_of_ne_nil (padded_ne_nil 4 n)
    rw [hpadded, List.cons_append, List.cons.injEq] at hcons
    exact hcons.1 ▸ isDigit_of_mem_padded (hpadded ▸ List.mem_cons_self)
  rw [year?, trimStart_padded]
  split
  · exact absurd (hdigit _ _ ‹_›) (by decide)
  · exact absurd (hdigit _ _ ‹_›) (by decide)
  · rw [number?_padded (by decide) h, Option.map_some]

/-- A year is read back whether or not it has a sign. -/
theorem year?_yearText {year : Int} (hlow : -262143 ≤ year) (hhigh : year ≤ 262142)
    (rest : List Char) : year? (yearText year ++ '-' :: rest) = some (year, '-' :: rest) := by
  have hbound : year.natAbs ≤ Int64.maxValue.toInt.natAbs := by
    have hmax : 262143 ≤ Int64.maxValue.toInt.natAbs := by decide
    omega
  by_cases hfour : 0 ≤ year ∧ year ≤ 9999
  · rw [yearText, if_pos hfour, year?_padded (by omega), Int.toNat_of_nonneg hfour.1]
  · by_cases hneg : year < 0
    · have hyear : -(year.natAbs : Int) = year := by omega
      rw [yearText, if_neg hfour, if_pos hneg, List.cons_append, year?_minus,
        digitsNow_padded hbound, Option.map_some]
      dsimp only
      rw [hyear]
    · have hyear : (year.natAbs : Int) = year := by omega
      rw [yearText, if_neg hfour, if_neg hneg, List.cons_append, year?_plus,
        digitsNow_padded hbound, Option.map_some]
      dsimp only
      rw [hyear]

/-- Places of a second are read up to the mark of the offset. -/
theorem places?_padded {width n : Nat} (hwidth : 0 < width) (hnine : width ≤ 9)
    (h : n < 10 ^ width) :
    places? ('.' :: padded width n ++ ['Z']) = some (n * 10 ^ (9 - width), ['Z']) := by
  have hlength := length_padded hwidth h
  have htake : ((padded width n ++ ['Z']).take 9).takeWhile Char.isDigit = padded width n := by
    rw [List.take_append, List.take_of_length_le (by omega),
      List.takeWhile_append_of_pos fun _ => isDigit_of_mem_padded]
    cases 9 - (padded width n).length <;> simp
  have hdrop : (padded width n ++ ['Z']).drop width = ['Z'] := List.drop_left' hlength
  simp only [List.cons_append, places?, htake, hdrop, ofDigitChars_padded, List.isEmpty_iff,
    padded_ne_nil, if_false, hlength]
  rfl

/-- The part of a second is read back from as many places as it needs. -/
theorem places?_nanoText {nano : Nat} (h : nano < 1000000000) :
    places? (nanoText nano ++ ['Z']) = some (nano, ['Z']) := by
  unfold nanoText
  split
  · rename_i hzero
    rw [hzero]
    rfl
  · split
    · rename_i hmilli
      have hnano : nano / 1000000 * 10 ^ (9 - 3) = nano :=
        Nat.div_mul_cancel (Nat.dvd_of_mod_eq_zero hmilli)
      rw [places?_padded (by decide) (by decide) (by omega), hnano]
    · split
      · rename_i hmicro
        have hnano : nano / 1000 * 10 ^ (9 - 6) = nano :=
          Nat.div_mul_cancel (Nat.dvd_of_mod_eq_zero hmicro)
        rw [places?_padded (by decide) (by decide) (by omega), hnano]
      · rw [places?_padded (by decide) (by decide) h, Nat.sub_self, Nat.pow_zero, Nat.mul_one]

/-- The text of a point in time names that point. -/
theorem ofText?_toText (t : Timestamp) : ofText? t.toText = some t := by
  obtain ⟨year, month, day, hour, minute, second, nano, hvalid⟩ := t
  obtain ⟨hlow, hhigh, -, hmonth, -, hday, hhour, hminute, hsecond, hnano⟩ := id hvalid
  have hdays : day ≤ 31 := by
    have hmonthDays : daysInMonth year month ≤ 31 := by
      unfold daysInMonth
      split_ifs <;> decide
    omega
  have hblank : isBlank '-' = false ∧ isBlank ':' = false := by decide
  have hnumber {n : Nat} (h : n < 100) (rest : List Char) :
      number? 2 (padded 2 n ++ rest) = some (n, rest) :=
    number?_padded (by decide) h rest
  have hzone : offset? (trimStart ['Z']) = some (0, []) := by decide
  rw [ofText?, toText, String.toList_ofList, toChars]
  simp only [List.append_assoc, List.cons_append]
  rw [ofChars?]
  -- One step for each part that is read; the letter in front of the hour is matched, not read.
  refine Option.bind_eq_some_iff.mpr ⟨_, year?_yearText hlow hhigh _, ?_⟩
  refine Option.bind_eq_some_iff.mpr ⟨_, mark?_cons hblank.1 _, ?_⟩
  refine Option.bind_eq_some_iff.mpr ⟨_, hnumber (by omega) _, ?_⟩
  refine Option.bind_eq_some_iff.mpr ⟨_, mark?_cons hblank.1 _, ?_⟩
  refine Option.bind_eq_some_iff.mpr ⟨_, hnumber (by omega) _, ?_⟩
  refine Option.bind_eq_some_iff.mpr ⟨_, hnumber (by omega) _, ?_⟩
  refine Option.bind_eq_some_iff.mpr ⟨_, mark?_cons hblank.2 _, ?_⟩
  refine Option.bind_eq_some_iff.mpr ⟨_, hnumber (by omega) _, ?_⟩
  refine Option.bind_eq_some_iff.mpr ⟨_, mark?_cons hblank.2 _, ?_⟩
  refine Option.bind_eq_some_iff.mpr ⟨_, hnumber (by omega) _, ?_⟩
  refine Option.bind_eq_some_iff.mpr ⟨_, places?_nanoText hnano, ?_⟩
  refine Option.bind_eq_some_iff.mpr ⟨_, hzone, ?_⟩
  refine Option.bind_eq_some_iff.mpr ⟨_, rfl, ?_⟩
  exact Option.bind_eq_some_iff.mpr ⟨_, dif_pos hvalid, rfl⟩

instance : LawfulCodec Timestamp where
  as_of h t := by
    rw [Json.of, Json.as?]
    unfold Timestamp.instJsonCodec
    dsimp only
    rw [h.string]
    exact ofText?_toText t

instance : NeverNull Timestamp where
  as_null := rfl

end Blocklist.Timestamp
