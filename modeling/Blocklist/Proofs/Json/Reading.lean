import Blocklist.Proofs.Json.Spelling
import Blocklist.Proofs.Text.Decimal
import Mathlib.Data.List.TakeDrop

/-!
# Reading what a text spells

A text that spells a value is read as that value: every part is read, and nothing behind it. So a
plain value is read back from both of its layouts.

## Implementation notes

`Part.Reads` says for each kind of part what its reader does with it. The texts behind a number
decide where it ends, so a reader is only asked about texts that end the part: `Ends`.
-/

namespace Blocklist

namespace Text

/-- The digits of a number that is not zero do not begin with a zero. -/
theorem head?_toDigits_ne_zero {n : Nat} (h : n ≠ 0) : (Nat.toDigits 10 n).head? ≠ some '0' := by
  induction n using Nat.strongRecOn with
  | ind n ih =>
      by_cases hsmall : n < 10
      · rw [Nat.toDigits_of_lt_base hsmall]
        have hdigit : ∀ d < 10, d ≠ 0 → [Nat.digitChar d].head? ≠ some '0' := by decide
        exact hdigit n hsmall h
      · have hinit := ih (n / 10) (by omega) (by omega)
        rw [Nat.toDigits_of_base_le (by decide) (by omega)]
        rw [List.head?_append_of_ne_nil _ Nat.toDigits_ne_nil]
        exact hinit

end Text

namespace Json

/-- A text that ends the value in front of it: it is empty, or goes on with a blank, a comma or a
closing bracket. -/
def Ends (rest : List Char) : Prop :=
  ∀ c ∈ rest.head?, isSpace c = true ∨ c = ',' ∨ c = ']' ∨ c = '\x7d'

/-! ### Blanks -/

theorem skipSpace_append {blank : List Char} (h : Blank blank) (s : List Char) :
    skipSpace (blank ++ s) = skipSpace s := by
  induction blank with
  | nil => rfl
  | cons c blank ih =>
      have hc := h c List.mem_cons_self
      have hrest := ih fun c hc => h c (List.mem_cons_of_mem _ hc)
      rw [skipSpace, List.cons_append, List.dropWhile_cons_of_pos hc]
      exact hrest

theorem skipSpace_cons {c : Char} (h : isSpace c = false) (s : List Char) :
    skipSpace (c :: s) = c :: s := by
  rw [skipSpace, List.dropWhile_cons_of_neg (by simp [h])]

/-- A reader drops the blanks in front of a value. -/
theorem readValue_append {blank : List Char} (h : Blank blank) (fuel : Nat) (s : List Char) :
    readValue fuel (blank ++ s) = readValue fuel s := by
  cases fuel with
  | zero => rw [readValue, readValue]
  | succ fuel => rw [readValue, readValue, skipSpace_append h]

/-! ### Numbers -/

theorem isSpace_of_isDigit {c : Char} (h : c.isDigit = true) : isSpace c = false := by
  apply Bool.eq_false_iff.mpr
  intro hspace
  simp only [isSpace, Bool.or_eq_true, beq_iff_eq] at hspace
  rcases hspace with ((rfl | rfl) | rfl) | rfl <;> exact absurd h (by decide)

theorem Ends.not_isDigit {rest : List Char} (h : Ends rest) :
    ∀ c ∈ rest.head?, c.isDigit = false := by
  intro c hc
  apply Bool.eq_false_iff.mpr
  intro hdigit
  rcases h c hc with hspace | rfl | rfl | rfl
  · rw [isSpace_of_isDigit hdigit] at hspace
    cases hspace
  · exact absurd hdigit (by decide)
  · exact absurd hdigit (by decide)
  · exact absurd hdigit (by decide)

theorem spanDigits_append {digits rest : List Char} (hdigits : ∀ c ∈ digits, c.isDigit = true)
    (hrest : ∀ c ∈ rest.head?, c.isDigit = false) :
    spanDigits (digits ++ rest) = (digits, rest) := by
  have htake : rest.takeWhile Char.isDigit = [] ∧ rest.dropWhile Char.isDigit = rest := by
    cases rest with
    | nil => exact ⟨rfl, rfl⟩
    | cons c rest =>
        have hc := hrest c rfl
        simp [hc]
  rw [spanDigits, List.span_eq_takeWhile_dropWhile, List.takeWhile_append_of_pos hdigits,
    List.dropWhile_append_of_pos hdigits, htake.1, htake.2, List.append_nil]

/-- Where a number ends there is no exponent. -/
theorem readExponent?_of_ends {rest : List Char} (h : Ends rest) :
    readExponent? rest = some (none, rest) := by
  cases rest with
  | nil => rfl
  | cons c rest =>
      have hc : ¬(c = 'e' ∨ c = 'E') := by
        rintro (rfl | rfl) <;> simpa [isSpace] using h _ rfl
      simp only [readExponent?]
      rw [if_neg (by simpa using hc)]

/-- A number without point and exponent is read from its digits. -/
theorem readNumber?_toDigits {negative : Bool} {n : Nat} {numeral : Numeral} {rest : List Char}
    (hrest : Ends rest) (hnumeral : integerOf? negative (Nat.toDigits 10 n) = some numeral) :
    readNumber? negative (Nat.toDigits 10 n ++ rest) = some (.number numeral, rest) := by
  have hspan := spanDigits_append (fun c => Text.isDigit_of_mem_toDigits (n := n))
    hrest.not_isDigit
  have hguard : (!(Nat.toDigits 10 n).isEmpty &&
      ((Nat.toDigits 10 n).length == 1 || (Nat.toDigits 10 n).head? != some '0')) = true := by
    by_cases hzero : n = 0
    · subst hzero
      decide
    · have hhead := Text.head?_toDigits_ne_zero hzero
      simp [hhead]
  have hfraction : ∀ r, rest ≠ '.' :: r := by
    rintro r rfl
    have hend := hrest '.' rfl
    simp [isSpace] at hend
  simp only [readNumber?, hspan, hguard, guard, if_true]
  simp [readExponent?_of_ends hrest, hnumeral]

theorem integerOf?_toDigits {n : Nat} (h : n < UInt64.size) :
    integerOf? false (Nat.toDigits 10 n) = some (.integer n) := by
  have hn : Text.decimalUpTo UInt64.size (Nat.toDigits 10 n) = n := by
    rw [Text.decimalUpTo_eq, Nat.ofDigitChars_ten_toDigits]
    exact Nat.min_eq_right (Nat.le_of_lt h)
  simp only [integerOf?, hn, Bool.false_eq_true, if_false]
  rw [if_pos h]

theorem integerOf?_negative {n : Nat} (hpos : n ≠ 0) (hlow : Int64.minValue.toInt ≤ -n) :
    integerOf? true (Nat.toDigits 10 n) = some (.integer (-n)) := by
  have hn : Text.decimalUpTo UInt64.size (Nat.toDigits 10 n) = n := by
    rw [Text.decimalUpTo_eq, Nat.ofDigitChars_ten_toDigits]
    rw [show Int64.minValue.toInt = -9223372036854775808 by decide] at hlow
    apply Nat.min_eq_right
    rw [UInt64.size]
    omega
  simp only [integerOf?, hn, if_true]
  rw [if_pos (by simpa [hpos] using hlow)]

/-- A text that begins with a digit is read as a number. -/
theorem readValue_of_isDigit {c : Char} (hc : c.isDigit = true) (fuel : Nat) (s : List Char) :
    readValue (fuel + 1) (c :: s) = readNumber? false (c :: s) := by
  have hother : ∀ {d : Char} {t : List Char}, d.isDigit = false → c :: s ≠ d :: t := by
    rintro d t hd ⟨⟩
    rw [hc] at hd
    cases hd
  rw [readValue, skipSpace_cons (isSpace_of_isDigit hc)]
  split <;> first | rfl | exact absurd ‹_› (hother (by decide))

/-- The digits of an integer are read as that integer. -/
theorem readValue_integerText {i : Int} (hlow : Int64.minValue.toInt ≤ i) (hhigh : i < UInt64.size)
    (fuel : Nat) {rest : List Char} (hrest : Ends rest) :
    readValue (fuel + 1) (integerText i ++ rest) = some (.number (.integer i), rest) := by
  by_cases hneg : i < 0
  · have hread := readNumber?_toDigits hrest
      (integerOf?_negative (n := i.natAbs) (by omega)
        (by rwa [show -(i.natAbs : Int) = i by omega]))
    rw [integerText, if_pos hneg, List.cons_append, readValue, skipSpace_cons rfl]
    change readNumber? true (Nat.toDigits 10 i.natAbs ++ rest) = _
    rw [hread, show -(i.natAbs : Int) = i by omega]
  · have hread := readNumber?_toDigits hrest
      (integerOf?_toDigits (n := i.natAbs) (by omega))
    obtain ⟨c, digits, hdigits⟩ := List.exists_cons_of_ne_nil
      (Nat.toDigits_ne_nil (n := i.natAbs) (b := 10))
    have hc : c.isDigit = true := Text.isDigit_of_mem_toDigits (hdigits ▸ List.mem_cons_self)
    rw [integerText, if_neg hneg, hdigits, List.cons_append, readValue_of_isDigit hc,
      ← List.cons_append, ← hdigits, hread, show (i.natAbs : Int) = i by omega]

/-! ### Strings -/

theorem hexNumber?_control {n : Nat} (h : n < 32) :
    Text.hexNumber? ['0', '0', hexDigit (n / 16), hexDigit (n % 16)] = some n := by
  have hall : ∀ m < 32,
      Text.hexNumber? ['0', '0', hexDigit (m / 16), hexDigit (m % 16)] = some m := by decide
  exact hall n h

/-- What stands for a character is read as that character. -/
theorem readString_escaped (c : Char) (done : List Char) (whole : Bool) (rest : List Char) :
    readString done whole (escaped c ++ rest) = readString (c :: done) whole rest := by
  rw [escaped]
  split
  · subst c; rfl
  split
  · subst c; rfl
  split
  · subst c; rfl
  split
  · subst c; rfl
  split
  · subst c; rfl
  split
  · subst c; rfl
  split
  · subst c; rfl
  split
  · rename_i hcontrol
    have hhigh : isHighSurrogate c.toNat = false := by
      simp [isHighSurrogate]
      omega
    have hlow : isLowSurrogate c.toNat = false := by
      simp [isLowSurrogate]
      omega
    simp only [List.cons_append, List.nil_append]
    rw [readString]
    simp [hexNumber?_control hcontrol, hhigh, hlow]
  · rename_i hquote hslash _ _ _ _ _ hcontrol
    have hplain : ¬(c = '\\' || decide (c.toNat < 32)) = true := by simp [hslash, hcontrol]
    rw [List.singleton_append, readString, if_neg hplain]
    · exact hquote
    · exact fun _ _ _ _ _ hc => absurd hc hslash
    · exact fun _ _ hc => absurd hc hslash

theorem readString_flatMap (cs done : List Char) (rest : List Char) :
    readString done true (cs.flatMap escaped ++ '"' :: rest) =
      some (some (String.ofList (done.reverse ++ cs)), rest) := by
  induction cs generalizing done with
  | nil => simp [readString]
  | cons c cs ih =>
      rw [List.flatMap_cons, List.append_assoc, readString_escaped, ih]
      simp

/-- A string in quotes is read as that string. -/
theorem readString_quoted (s : String) (rest : List Char) :
    quoted s ++ rest = '"' :: (s.toList.flatMap escaped ++ '"' :: rest) ∧
      readString [] true (s.toList.flatMap escaped ++ '"' :: rest) = some (some s, rest) := by
  constructor
  · simp [quoted]
  · rw [readString_flatMap]
    simp

/-! ### Parts -/

/-- After its blanks no part begins with a closing bracket. -/
theorem Spells.exists_first {s : List Char} {p : Part} (h : Spells s p) (rest : List Char) :
    ∃ c t, skipSpace (s ++ rest) = c :: t ∧ c ≠ ']' ∧ c ≠ '\x7d' := by
  induction h generalizing rest with
  | null => exact ⟨'n', _, rfl, by decide, by decide⟩
  | ofTrue => exact ⟨'t', _, rfl, by decide, by decide⟩
  | ofFalse => exact ⟨'f', _, rfl, by decide, by decide⟩
  | @integer i hlow hhigh =>
      by_cases hneg : i < 0
      · rw [integerText, if_pos hneg]
        exact ⟨'-', _, rfl, by decide, by decide⟩
      · obtain ⟨c, digits, hdigits⟩ := List.exists_cons_of_ne_nil
          (Nat.toDigits_ne_nil (n := i.natAbs) (b := 10))
        have hc : c.isDigit = true := Text.isDigit_of_mem_toDigits (hdigits ▸ List.mem_cons_self)
        rw [integerText, if_neg hneg, hdigits]
        refine ⟨c, _, skipSpace_cons (isSpace_of_isDigit hc) _, ?_, ?_⟩
        · rintro rfl
          exact absurd hc (by decide)
        · rintro rfl
          exact absurd hc (by decide)
  | string s => exact ⟨'"', _, rfl, by decide, by decide⟩
  | emptyArray => exact ⟨'[', _, rfl, by decide, by decide⟩
  | array h hblank ih => exact ⟨'[', _, rfl, by decide, by decide⟩
  | emptyObject => exact ⟨'\x7b', _, rfl, by decide, by decide⟩
  | object h hblank ih => exact ⟨'\x7b', _, rfl, by decide, by decide⟩
  | item h hblank ih =>
      rw [List.append_assoc, skipSpace_append hblank]
      exact ih rest
  | lastItem h ih => exact ih rest
  | moreItems h hblank hrest ih _ =>
      rw [List.append_assoc]
      exact ih _
  | member hbefore name hblank h ih =>
      rw [List.append_assoc, skipSpace_append hbefore]
      exact ⟨'"', _, rfl, by decide, by decide⟩
  | lastMember h ih => exact ih rest
  | moreMembers h hblank hrest ih _ =>
      rw [List.append_assoc]
      exact ih _

theorem ends_append {blank : List Char} (hblank : Blank blank) {c : Char}
    (hc : c = ',' ∨ c = ']' ∨ c = '\x7d') (rest : List Char) : Ends (blank ++ c :: rest) := by
  intro first hfirst
  cases blank with
  | nil =>
      cases hfirst
      exact .inr hc
  | cons b blank =>
      cases hfirst
      exact .inl (hblank _ List.mem_cons_self)

/-- Fuel for a text of a part is not spent. -/
theorem Spells.exists_fuel {s : List Char} {p : Part} (h : Spells s p) {fuel : Nat}
    (hfuel : s.length ≤ fuel) : ∃ n, fuel = n + 1 := by
  obtain ⟨c, t, hfirst, _⟩ := h.exists_first []
  have hne : s ≠ [] := by
    rintro rfl
    cases hfirst
  have hpos := List.length_pos_iff.mpr hne
  exact ⟨fuel - 1, by omega⟩

/-- After its bracket an array that is not closed at once is read item by item. -/
theorem readValue_array {s : List Char} {c : Char} {t : List Char} (hfirst : skipSpace s = c :: t)
    (hc : c ≠ ']') (fuel : Nat) : readValue (fuel + 1) ('[' :: s) = readItems fuel [] s := by
  rw [readValue, skipSpace_cons rfl]
  simp only [hfirst]
  split
  · rename_i heq
    exact absurd (List.cons.inj heq).1 hc
  · rfl

/-- After its bracket an object that is not closed at once is read member by member. -/
theorem readValue_object {s : List Char} {c : Char} {t : List Char} (hfirst : skipSpace s = c :: t)
    (hc : c ≠ '\x7d') (fuel : Nat) :
    readValue (fuel + 1) ('\x7b' :: s) = readMembers fuel [] true s := by
  rw [readValue, skipSpace_cons rfl]
  simp only [hfirst]
  split
  · rename_i heq
    exact absurd (List.cons.inj heq).1 hc
  · rfl

/-- What a reader does with a text of a part, if it has enough fuel. -/
def Part.Reads (s : List Char) : Part → Prop
  | .value v | .item v => ∀ fuel rest, s.length ≤ fuel → Ends rest →
      readValue fuel (s ++ rest) = some (v, rest)
  | .items vs => ∀ fuel done blank rest, s.length < fuel → Blank blank →
      readItems fuel done (s ++ (blank ++ ']' :: rest)) = some (.array (done.reverse ++ vs), rest)
  | .member name v => ∀ fuel done blank rest, s.length ≤ fuel → Blank blank →
      readMembers (fuel + 1) done true (s ++ (blank ++ ',' :: rest)) =
          readMembers fuel ((name, v) :: done) true rest ∧
        readMembers (fuel + 1) done true (s ++ (blank ++ '\x7d' :: rest)) =
          some (.object ((name, v) :: done).reverse, rest)
  | .members ms => ∀ fuel done blank rest, s.length < fuel → Blank blank →
      readMembers fuel done true (s ++ (blank ++ '\x7d' :: rest)) =
        some (.object (done.reverse ++ ms), rest)

/-- A text is read as the part that it spells. -/
theorem Spells.reads {s : List Char} {p : Part} (h : Spells s p) : p.Reads s := by
  induction h with
  | null =>
      intro fuel rest hfuel _
      obtain ⟨fuel, rfl⟩ := Spells.null.exists_fuel hfuel
      rfl
  | ofTrue =>
      intro fuel rest hfuel _
      obtain ⟨fuel, rfl⟩ := Spells.ofTrue.exists_fuel hfuel
      rfl
  | ofFalse =>
      intro fuel rest hfuel _
      obtain ⟨fuel, rfl⟩ := Spells.ofFalse.exists_fuel hfuel
      rfl
  | integer hlow hhigh =>
      intro fuel rest hfuel hrest
      obtain ⟨fuel, rfl⟩ := (Spells.integer hlow hhigh).exists_fuel hfuel
      exact readValue_integerText hlow hhigh fuel hrest
  | string s =>
      intro fuel rest hfuel _
      obtain ⟨fuel, rfl⟩ := (Spells.string s).exists_fuel hfuel
      obtain ⟨htext, hread⟩ := readString_quoted s rest
      rw [htext, readValue, skipSpace_cons rfl]
      simp [hread]
  | emptyArray =>
      intro fuel rest hfuel _
      obtain ⟨fuel, rfl⟩ := Spells.emptyArray.exists_fuel hfuel
      rfl
  | @array s blank items h hblank ih =>
      intro fuel rest hfuel _
      obtain ⟨fuel, rfl⟩ := (Spells.array h hblank).exists_fuel hfuel
      simp only [List.length_cons, List.length_append, List.length_nil] at hfuel
      have hitems := ih fuel [] blank rest (by omega) hblank
      obtain ⟨c, t, hfirst, hc, _⟩ := h.exists_first (blank ++ ']' :: rest)
      have htext : '[' :: (s ++ (blank ++ [']'])) ++ rest = '[' :: (s ++ (blank ++ ']' :: rest)) := by
        simp
      rw [htext, readValue_array hfirst hc]
      exact hitems
  | emptyObject =>
      intro fuel rest hfuel _
      obtain ⟨fuel, rfl⟩ := Spells.emptyObject.exists_fuel hfuel
      rfl
  | @object s blank members h hblank ih =>
      intro fuel rest hfuel _
      obtain ⟨fuel, rfl⟩ := (Spells.object h hblank).exists_fuel hfuel
      simp only [List.length_cons, List.length_append, List.length_nil] at hfuel
      have hmembers := ih fuel [] blank rest (by omega) hblank
      obtain ⟨c, t, hfirst, _, hc⟩ := h.exists_first (blank ++ '\x7d' :: rest)
      have htext : '\x7b' :: (s ++ (blank ++ ['\x7d'])) ++ rest =
          '\x7b' :: (s ++ (blank ++ '\x7d' :: rest)) := by
        simp
      rw [htext, readValue_object hfirst hc]
      exact hmembers
  | @item s blank v h hblank ih =>
      intro fuel rest hfuel hrest
      rw [List.length_append] at hfuel
      rw [List.append_assoc, readValue_append hblank]
      exact ih fuel rest (by omega) hrest
  | @lastItem s v h ih =>
      intro fuel done blank rest hfuel hblank
      obtain ⟨fuel, rfl⟩ := h.exists_fuel (Nat.le_of_lt hfuel)
      have hvalue := ih fuel (blank ++ ']' :: rest) (by omega) (ends_append hblank (by simp) rest)
      rw [readItems, hvalue]
      simp [skipSpace_append hblank, skipSpace_cons (c := ']') rfl]
  | @moreItems s between t v items h hbetween hitems ih ihrest =>
      intro fuel done blank rest hfuel hblank
      obtain ⟨fuel, rfl⟩ := (Spells.moreItems h hbetween hitems).exists_fuel (Nat.le_of_lt hfuel)
      simp only [List.length_cons, List.length_append] at hfuel
      have hvalue := ih fuel (between ++ ',' :: (t ++ (blank ++ ']' :: rest))) (by omega)
        (ends_append hbetween (by simp) _)
      have hrest := ihrest fuel (v :: done) blank rest (by omega) hblank
      have htext : s ++ (between ++ ',' :: t) ++ (blank ++ ']' :: rest) =
          s ++ (between ++ ',' :: (t ++ (blank ++ ']' :: rest))) := by simp
      rw [htext, readItems, hvalue]
      simp [skipSpace_append hbetween, skipSpace_cons (c := ',') rfl, hrest]
  | @member s before between v hbefore name hbetween h ih =>
      intro fuel done blank rest hfuel hblank
      simp only [List.length_cons, List.length_append] at hfuel
      have hread : ∀ c, c = ',' ∨ c = ']' ∨ c = '\x7d' →
          readValue fuel (s ++ (blank ++ c :: rest)) = some (v, blank ++ c :: rest) :=
        fun c hc => ih fuel (blank ++ c :: rest) (by omega) (ends_append hblank hc rest)
      have htext : ∀ c : Char,
          before ++ (quoted name ++ (between ++ ':' :: s)) ++ (blank ++ c :: rest) =
            before ++ (quoted name ++ (between ++ ':' :: (s ++ (blank ++ c :: rest)))) := by
        simp
      constructor
      · obtain ⟨hquoted, hname⟩ := readString_quoted name
          (between ++ ':' :: (s ++ (blank ++ ',' :: rest)))
        rw [htext, readMembers, skipSpace_append hbefore, hquoted, skipSpace_cons rfl]
        simp [hname, skipSpace_append hbetween, skipSpace_cons (c := ':') rfl, hread ',',
          skipSpace_append hblank, skipSpace_cons (c := ',') rfl]
      · obtain ⟨hquoted, hname⟩ := readString_quoted name
          (between ++ ':' :: (s ++ (blank ++ '\x7d' :: rest)))
        rw [htext, readMembers, skipSpace_append hbefore, hquoted, skipSpace_cons rfl]
        simp [hname, skipSpace_append hbetween, skipSpace_cons (c := ':') rfl, hread '\x7d',
          skipSpace_append hblank, skipSpace_cons (c := '\x7d') rfl]
  | @lastMember s m h ih =>
      intro fuel done blank rest hfuel hblank
      obtain ⟨fuel, rfl⟩ := h.exists_fuel (Nat.le_of_lt hfuel)
      rw [(ih fuel done blank rest (by omega) hblank).2]
      simp
  | @moreMembers s between t m members h hbetween hmembers ih ihrest =>
      intro fuel done blank rest hfuel hblank
      obtain ⟨fuel, rfl⟩ := (Spells.moreMembers h hbetween hmembers).exists_fuel (Nat.le_of_lt hfuel)
      simp only [List.length_cons, List.length_append] at hfuel
      have hrest := ihrest fuel (m :: done) blank rest (by omega) hblank
      have htext : s ++ (between ++ ',' :: t) ++ (blank ++ '\x7d' :: rest) =
          s ++ (between ++ ',' :: (t ++ (blank ++ '\x7d' :: rest))) := by simp
      rw [htext, (ih fuel done between _ (by omega) hbetween).1, hrest]
      simp

/-- A text that spells a value is the text of that value. -/
theorem Spells.ofChars?_eq {s : List Char} {v : Json} (h : Spells s (.value v)) :
    ofChars? s = some v := by
  have hread := h.reads (s.length + 1) [] (Nat.le_succ _) (by simp [Ends])
  rw [List.append_nil] at hread
  simp [ofChars?, hread, skipSpace]

/-- A plain value is read back from both of its layouts. -/
theorem Plain.ofText?_eq {n : Nat} {v : Json} (h : Plain n v) :
    ofText? v.compact = some v ∧ ofText? v.indented = some v := by
  obtain ⟨hcompact, hindented⟩ := h.spells
  exact ⟨hcompact.ofChars?_eq, hindented.ofChars?_eq⟩

end Json

end Blocklist
