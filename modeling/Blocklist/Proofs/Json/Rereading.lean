import Blocklist.Proofs.Json.Plain

/-!
# What the text of a value is read as

The compact text of any value is read as that value, except that every number is read again from its
own text and may come back as its neighbour. So whether a value is read back as it was written is a
matter of its numbers, of its depth and of the order of its members, and each member of an object
decides it for itself.

## Implementation notes

`Numeral.reread?` is the result of reading the text of a number, whatever it is: that the digits of
a real number lead back to it is not claimed. What has to be known of that text is only where it
ends, and for this its form is enough: `NumberText`.
-/

namespace Blocklist

namespace Json

/-! ### Numbers -/

/-- Read the digits behind the point of a number, if there is one. -/
def readFraction? : List Char → Option (Option (List Char) × List Char)
  | '.' :: rest =>
    let (digits, rest) := spanDigits rest
    if digits.isEmpty then none else some (some digits, rest)
  | rest => some (none, rest)

/-- The number of these digits before and after the point and this exponent, whichever there are. -/
def numberOf (negative : Bool) (whole : List Char) (fraction : Option (List Char))
    (exponent : Option Int) : Json :=
  let numeral := match fraction, exponent with
    | none, none => integerOf? negative whole
    | _, _ => realOf? negative whole (fraction.getD []) (exponent.getD 0)
  match numeral with
  | some n => .number n
  | none => .unusable

/-- A number is read in three steps. -/
theorem readNumber?_eq {negative : Bool} {s whole rest : List Char}
    (hspan : spanDigits s = (whole, rest)) :
    readNumber? negative s =
      if !whole.isEmpty && (whole.length == 1 || whole.head? != some '0') then
        (readFraction? rest).bind fun (fraction, rest) =>
          (readExponent? rest).map fun (exponent, rest) =>
            (numberOf negative whole fraction exponent, rest)
      else none := by
  -- The exponent is read the same whether there is a fraction or not.
  have hstep (fraction : Option (List Char)) (after : List Char) :
      (readExponent? after).bind (fun (exponent, rest) =>
          some (numberOf negative whole fraction exponent, rest)) =
        (readExponent? after).map fun (exponent, rest) =>
          (numberOf negative whole fraction exponent, rest) := by
    cases readExponent? after <;> rfl
  simp only [readNumber?, hspan, guard, Option.pure_def, Option.bind_eq_bind]
  split
  · simp only [Option.bind_some, Option.bind_none]
    split
    · rename_i rest
      rw [readFraction?]
      rcases spanDigits rest with ⟨digits, after⟩
      cases digits with
      | nil => rfl
      | cons c digits => exact hstep (some (c :: digits)) after
    · rename_i hpoint
      rw [readFraction?]
      · exact hstep none _
      · exact hpoint
  · rfl

/-- Nothing, or a point and digits. -/
def FractionText (s : List Char) : Prop :=
  s = [] ∨ ∃ digits, s = '.' :: digits ∧ ∀ c ∈ digits, c.isDigit = true

/-- Nothing, or an exponent with its sign. -/
def ExponentText (s : List Char) : Prop :=
  s = [] ∨ ∃ sign digits, (sign = '+' ∨ sign = '-') ∧ s = 'e' :: sign :: digits ∧
    ∀ c ∈ digits, c.isDigit = true

/-- Digits, perhaps a fraction, perhaps an exponent. -/
inductive NumberText : List Char → Prop
  | intro (whole fraction exponent : List Char) (hne : whole ≠ [])
      (hwhole : ∀ c ∈ whole, c.isDigit = true) (hfraction : FractionText fraction)
      (hexponent : ExponentText exponent) : NumberText (whole ++ (fraction ++ exponent))

/-- An exponent is read as the same one whatever follows it. -/
theorem ExponentText.readExponent?_append {s : List Char} (h : ExponentText s) :
    ∃ exponent? : Option (Option Int), ∀ x, Ends x →
      readExponent? (s ++ x) = exponent?.map (·, x) := by
  obtain rfl | ⟨sign, digits, hsign, rfl, hdigits⟩ := h
  · exact ⟨some none, fun x hx => readExponent?_of_ends hx⟩
  · let n : Int := Text.decimalUpTo maxExponent digits
    refine ⟨if digits.isEmpty then none else some (some (if sign = '-' then -n else n)),
      fun x hx => ?_⟩
    have hspan := spanDigits_append hdigits hx.not_isDigit
    rcases hsign with rfl | rfl
    · simp only [List.cons_append, readExponent?, hspan]
      cases digits <;> rfl
    · simp only [List.cons_append, readExponent?, hspan]
      cases digits <;> rfl

theorem ExponentText.head_append {s x : List Char} (h : ExponentText s) (hx : Ends x) :
    ∀ c ∈ (s ++ x).head?, c.isDigit = false ∧ c ≠ '.' := by
  obtain rfl | ⟨sign, digits, -, rfl, -⟩ := h
  · intro c hc
    refine ⟨hx.not_isDigit c hc, ?_⟩
    rintro rfl
    simpa [isSpace] using hx _ hc
  · rintro c ⟨⟩
    decide

/-- The digits behind the point are read as the same ones whatever follows them. -/
theorem FractionText.readFraction?_append {s : List Char} (h : FractionText s) :
    ∃ fraction? : Option (Option (List Char)), ∀ x, (∀ c ∈ x.head?, c.isDigit = false ∧ c ≠ '.') →
      readFraction? (s ++ x) = fraction?.map (·, x) := by
  obtain rfl | ⟨digits, rfl, hdigits⟩ := h
  · refine ⟨some none, fun x hx => ?_⟩
    rw [List.nil_append, readFraction?]
    · rfl
    · rintro rest rfl
      exact (hx '.' rfl).2 rfl
  · refine ⟨if digits.isEmpty then none else some (some digits), fun x hx => ?_⟩
    have hspan := spanDigits_append hdigits fun c hc => (hx c hc).1
    simp only [List.cons_append, readFraction?, hspan]
    split <;> rfl

/-- A text in the form of a number is read as one value, if as any, whatever follows it. -/
theorem NumberText.readNumber?_append {s : List Char} (h : NumberText s) (negative : Bool) :
    ∃ v? : Option Json, ∀ x, Ends x → readNumber? negative (s ++ x) = v?.map (·, x) := by
  obtain ⟨whole, fraction, exponent, -, hwhole, hfraction, hexponent⟩ := h
  obtain ⟨exponent?, hreadExponent⟩ := hexponent.readExponent?_append
  obtain ⟨fraction?, hreadFraction⟩ := hfraction.readFraction?_append
  let v? := fraction?.bind fun f => exponent?.map fun e => numberOf negative whole f e
  refine ⟨if !whole.isEmpty && (whole.length == 1 || whole.head? != some '0') then v? else none,
    fun x hx => ?_⟩
  have hhead := hexponent.head_append hx
  have hspan : spanDigits (whole ++ (fraction ++ exponent) ++ x) =
      (whole, fraction ++ (exponent ++ x)) := by
    rw [List.append_assoc, List.append_assoc]
    refine spanDigits_append hwhole ?_
    obtain rfl | ⟨digits, rfl, -⟩ := hfraction
    · exact fun c hc => (hhead c hc).1
    · rintro c ⟨⟩
      decide
  rw [readNumber?_eq hspan, hreadFraction _ hhead]
  split
  · cases fraction? with
    | none => rfl
    | some f =>
        simp only [Option.map_some, Option.bind_some, hreadExponent x hx, v?]
        cases exponent? <;> rfl
  · rfl

/-! ### The text of a number -/

theorem isDigit_of_mem_zeros {c : Char} {n : Nat} (hc : c ∈ List.replicate n '0') :
    c.isDigit = true := by
  rw [List.eq_of_mem_replicate hc]
  rfl

theorem isDigit_of_mem_zero : ∀ c ∈ ['0'], c.isDigit = true :=
  fun _ hc => isDigit_of_mem_zeros (n := 1) hc

theorem exponentText_exponentText (n : Int) : ExponentText ('e' :: exponentText n) := by
  have hdigits : ∀ c ∈ Nat.toDigits 10 n.natAbs, c.isDigit = true :=
    fun c hc => Text.isDigit_of_mem_toDigits hc
  rw [exponentText, integerText]
  split
  · exact .inr ⟨'-', _, .inr rfl, rfl, hdigits⟩
  · exact .inr ⟨'+', _, .inl rfl, rfl, hdigits⟩

theorem numberText_decimalText (d : Binary64.Decimal) : NumberText (decimalText d) := by
  have hdigits : ∀ c ∈ Nat.toDigits 10 d.digits, c.isDigit = true :=
    fun c hc => Text.isDigit_of_mem_toDigits hc
  have hne : Nat.toDigits 10 d.digits ≠ [] := Nat.toDigits_ne_nil
  rw [decimalText]
  dsimp only
  generalize Nat.toDigits 10 d.digits = digits at hdigits hne ⊢
  generalize (digits.length : Int) + d.exponent = point
  have htake (n : Nat) : ∀ c ∈ digits.take n, c.isDigit = true :=
    fun c hc => hdigits c (List.mem_of_mem_take hc)
  have hdrop (n : Nat) : ∀ c ∈ digits.drop n, c.isDigit = true :=
    fun c hc => hdigits c (List.mem_of_mem_drop hc)
  -- In order: no digit behind the point, a point among the digits, none in front of it, an exponent.
  split
  · have hzero : FractionText ['.', '0'] := .inr ⟨['0'], rfl, isDigit_of_mem_zero⟩
    have hwhole : ∀ c ∈ digits ++ List.replicate d.exponent.toNat '0', c.isDigit = true :=
      fun c hc => (List.mem_append.mp hc).elim (hdigits c) isDigit_of_mem_zeros
    simpa using NumberText.intro _ _ [] (by simp [hne]) hwhole hzero (.inl rfl)
  split
  · rename_i hpoint
    have hpos : 0 < point := by simp_all
    have hwhole : digits.take point.toNat ≠ [] := by
      rw [Ne, List.take_eq_nil_iff, not_or]
      exact ⟨by omega, hne⟩
    have hfraction : FractionText ('.' :: digits.drop point.toNat) := .inr ⟨_, rfl, hdrop _⟩
    simpa using NumberText.intro _ _ [] hwhole (htake _) hfraction (.inl rfl)
  split
  · have hfraction : FractionText ('.' :: (List.replicate (-point).toNat '0' ++ digits)) :=
      .inr ⟨_, rfl, fun c hc => (List.mem_append.mp hc).elim isDigit_of_mem_zeros (hdigits c)⟩
    simpa using NumberText.intro ['0'] _ [] (List.cons_ne_nil _ _) isDigit_of_mem_zero hfraction
      (.inl rfl)
  · have hwhole : digits.take 1 ≠ [] := by simp [hne]
    have hfraction : FractionText (if digits.length = 1 then [] else '.' :: digits.drop 1) := by
      split
      · exact .inl rfl
      · exact .inr ⟨_, rfl, hdrop 1⟩
    rw [List.append_assoc]
    exact .intro _ _ _ hwhole (htake 1) hfraction (exponentText_exponentText (point - 1))

/-- The text of a number is in the form of one, perhaps behind a minus sign. -/
theorem exists_numberText (n : Numeral) :
    ∃ s, NumberText s ∧ (numeralText n = s ∨ numeralText n = '-' :: s) := by
  cases n with
  | integer i =>
      refine ⟨Nat.toDigits 10 i.natAbs, ?_, ?_⟩
      · simpa using NumberText.intro _ [] [] Nat.toDigits_ne_nil
          (fun c hc => Text.isDigit_of_mem_toDigits hc) (.inl rfl) (.inl rfl)
      · rw [numeralText, integerText]
        split
        · exact .inr rfl
        · exact .inl rfl
  | real negative size =>
      refine ⟨if size.mantissa = 0 then ['0', '.', '0'] else decimalText size.shortest, ?_, ?_⟩
      · split
        · exact .intro ['0'] ['.', '0'] [] (List.cons_ne_nil _ _) isDigit_of_mem_zero
            (.inr ⟨['0'], rfl, isDigit_of_mem_zero⟩) (.inl rfl)
        · exact numberText_decimalText _
      · rw [numeralText]
        cases negative with
        | false => exact .inl rfl
        | true => exact .inr rfl

end Json

/-- What the text of a number is read as, if it is read at all. -/
def Numeral.reread? (n : Numeral) : Option Json :=
  (Json.readValue 1 (Json.numeralText n)).map (·.1)

namespace Json

theorem NumberText.exists_first {s : List Char} (h : NumberText s) :
    ∃ c t, s = c :: t ∧ c.isDigit = true := by
  obtain ⟨whole, fraction, exponent, hne, hwhole, -, -⟩ := h
  obtain ⟨c, t, rfl⟩ := List.exists_cons_of_ne_nil hne
  exact ⟨c, _, rfl, hwhole c List.mem_cons_self⟩

/-- What the text of a number is read as does not depend on what follows it. -/
theorem readValue_numeralText (n : Numeral) (fuel : Nat) {x : List Char} (hx : Ends x) :
    readValue (fuel + 1) (numeralText n ++ x) = n.reread?.map (·, x) := by
  have hread : ∃ v? : Option Json, ∀ fuel x, Ends x →
      readValue (fuel + 1) (numeralText n ++ x) = v?.map (·, x) := by
    obtain ⟨s, hs, htext | htext⟩ := exists_numberText n
    · obtain ⟨v?, hv⟩ := hs.readNumber?_append false
      obtain ⟨c, t, rfl, hc⟩ := hs.exists_first
      refine ⟨v?, fun fuel x hx => ?_⟩
      rw [htext, List.cons_append, readValue_of_isDigit hc]
      exact hv x hx
    · obtain ⟨v?, hv⟩ := hs.readNumber?_append true
      refine ⟨v?, fun fuel x hx => ?_⟩
      rw [htext, List.cons_append, readValue, skipSpace_cons rfl]
      exact hv x hx
  obtain ⟨v?, hv⟩ := hread
  have halone := hv 0 [] (by simp [Ends])
  rw [List.append_nil] at halone
  rw [hv fuel x hx, Numeral.reread?, halone]
  cases v? <;> rfl

/-! ### Rereading -/

mutual

/-- The value with every number read again from its text. What stands for nothing is written as
`null`. -/
def reread? : Json → Option Json
  | .number n => n.reread?
  | .array items => (rereadItems? items).map .array
  | .object members => (rereadMembers? members).map .object
  | .unusable => some .null
  | v => some v

/-- Reread every item of a list. -/
def rereadItems? : List Json → Option (List Json)
  | [] => some []
  | v :: rest => v.reread?.bind fun w => (rereadItems? rest).map (w :: ·)

/-- Reread the value of every member. -/
def rereadMembers? : List (String × Json) → Option (List (String × Json))
  | [] => some []
  | (name, v) :: rest => v.reread?.bind fun w => (rereadMembers? rest).map ((name, w) :: ·)

end

/-- A property of all values, by induction on their parts. -/
@[elab_as_elim]
theorem induction {P : Json → Prop} (null : P .null) (bool : ∀ b, P (.bool b))
    (number : ∀ n, P (.number n)) (string : ∀ s, P (.string s))
    (array : ∀ items, (∀ v ∈ items, P v) → P (.array items))
    (object : ∀ members, (∀ m ∈ members, P m.2) → P (.object members)) (unusable : P .unusable)
    (v : Json) : P v :=
  @Json.rec P (fun items => ∀ v ∈ items, P v) (fun members => ∀ m ∈ members, P m.2)
    (fun m => P m.2) null bool number string array object unusable (List.forall_mem_nil _)
    (fun _ _ hv hrest => List.forall_mem_cons.mpr ⟨hv, hrest⟩) (List.forall_mem_nil _)
    (fun _ _ hm hrest => List.forall_mem_cons.mpr ⟨hm, hrest⟩) (fun _ _ h => h) v

/-! ### The compact text -/

/-- The compact text of a member. -/
def memberText (m : String × Json) : List Char :=
  quoted m.1 ++ ':' :: m.2.compact.toList

/-- The compact text of a value is what is written of it behind any text. -/
def Writes (v : Json) : Prop :=
  ∀ out, (write out v).toList = out.toList ++ v.compact.toList

theorem toList_write_array {v : Json} {rest : List Json} (h : ∀ w ∈ v :: rest, w.Writes)
    (out : String) :
    (write out (.array (v :: rest))).toList = out.toList ++ '[' :: (v.compact.toList ++
      (rest.flatMap (fun w => ',' :: w.compact.toList) ++ [']'])) := by
  have hrest : ∀ w ∈ rest, ∀ out : String,
      (write (out.push ',') w).toList = out.toList ++ ',' :: w.compact.toList := by
    intro w hw out
    rw [h w (List.mem_cons_of_mem _ hw)]
    simp
  rw [write, writeItems_eq, String.toList_push, toList_foldl hrest, h v List.mem_cons_self]
  simp

theorem toList_write_object {m : String × Json} {rest : List (String × Json)}
    (h : ∀ e ∈ m :: rest, e.2.Writes) (out : String) :
    (write out (.object (m :: rest))).toList = out.toList ++ '\x7b' :: (memberText m ++
      (rest.flatMap (fun e => ',' :: memberText e) ++ ['\x7d'])) := by
  have hrest : ∀ e ∈ rest, ∀ out : String,
      (write ((writeString (out.push ',') e.1).push ':') e.2).toList =
        out.toList ++ ',' :: memberText e := by
    intro e he out
    rw [h e (List.mem_cons_of_mem _ he)]
    simp [memberText]
  rw [write, writeMembers_eq, String.toList_push, toList_foldl hrest, h m List.mem_cons_self]
  simp [memberText]

theorem writes (v : Json) : v.Writes := by
  intro out
  induction v using induction generalizing out with
  | null => simp [write, compact]
  | bool b => cases b <;> simp [write, compact]
  | number n => simp [write, compact]
  | string s => simp [write, compact]
  | array items ih =>
      cases items with
      | nil => simp [write, compact]
      | cons v rest => rw [compact, toList_write_array ih, toList_write_array ih]; simp
  | object members ih =>
      cases members with
      | nil => simp [write, compact]
      | cons m rest => rw [compact, toList_write_object ih, toList_write_object ih]; simp
  | unusable => simp [write, compact]

theorem toList_compact_array (v : Json) (rest : List Json) :
    (Json.array (v :: rest)).compact.toList = '[' :: (v.compact.toList ++
      (rest.flatMap (fun w => ',' :: w.compact.toList) ++ [']'])) :=
  toList_write_array (fun w _ => w.writes) ""

theorem toList_compact_object (m : String × Json) (rest : List (String × Json)) :
    (Json.object (m :: rest)).compact.toList = '\x7b' :: (memberText m ++
      (rest.flatMap (fun e => ',' :: memberText e) ++ ['\x7d'])) :=
  toList_write_object (fun e _ => e.2.writes) ""

/-- The text of a value begins with neither a blank nor a closing bracket. -/
theorem exists_first (v : Json) : ∃ c t, v.compact.toList = c :: t ∧ isSpace c = false ∧
    c ≠ ']' ∧ c ≠ '\x7d' := by
  cases v with
  | null => exact ⟨'n', _, rfl, rfl, by decide, by decide⟩
  | bool b => cases b <;> exact ⟨_, _, rfl, rfl, by decide, by decide⟩
  | number n =>
      obtain ⟨s, hs, htext⟩ := exists_numberText n
      obtain ⟨c, t, rfl, hc⟩ := hs.exists_first
      have hcompact : (number n).compact.toList = numeralText n := by simp [compact, write]
      rw [hcompact]
      obtain htext | htext := htext
      · refine ⟨c, t, htext, isSpace_of_isDigit hc, ?_, ?_⟩ <;> rintro rfl <;> simp at hc
      · exact ⟨'-', _, htext, rfl, by decide, by decide⟩
  | string s =>
      refine ⟨'"', s.toList.flatMap escaped ++ ['"'], ?_, rfl, by decide, by decide⟩
      simp [compact, write, quoted]
  | array items =>
      cases items with
      | nil => exact ⟨'[', _, rfl, rfl, by decide, by decide⟩
      | cons v rest =>
          exact ⟨'[', _, toList_compact_array v rest, rfl, by decide, by decide⟩
  | object members =>
      cases members with
      | nil => exact ⟨'\x7b', _, rfl, rfl, by decide, by decide⟩
      | cons m rest =>
          exact ⟨'\x7b', _, toList_compact_object m rest, rfl, by decide, by decide⟩
  | unusable => exact ⟨'n', _, rfl, rfl, by decide, by decide⟩

/-- Fuel for the text of a value is not spent. -/
theorem exists_fuel {v : Json} {fuel : Nat} (h : v.compact.toList.length ≤ fuel) :
    ∃ n, fuel = n + 1 := by
  obtain ⟨c, t, hfirst, -⟩ := v.exists_first
  rw [hfirst, List.length_cons] at h
  exact ⟨fuel - 1, by omega⟩

theorem ends_cons {c : Char} (hc : c = ',' ∨ c = ']' ∨ c = '\x7d') (rest : List Char) :
    Ends (c :: rest) :=
  ends_append blank_nil hc rest

/-- The text of a value is read as the value reread, and nothing behind it. -/
def ReadsAsReread (v : Json) : Prop :=
  ∀ fuel x, v.compact.toList.length ≤ fuel → Ends x →
    readValue fuel (v.compact.toList ++ x) = v.reread?.map (·, x)

/-- The items of an array are read as the items reread. -/
theorem readItems_reread {v : Json} {rest : List Json} (h : ∀ w ∈ v :: rest, w.ReadsAsReread)
    {fuel : Nat} (done : List Json) (x : List Char)
    (hfuel : (v.compact.toList ++ rest.flatMap fun w => ',' :: w.compact.toList).length < fuel) :
    readItems fuel done
        (v.compact.toList ++ (rest.flatMap (fun w => ',' :: w.compact.toList) ++ ']' :: x)) =
      (rereadItems? (v :: rest)).map fun ws => (.array (done.reverse ++ ws), x) := by
  induction rest generalizing v done fuel with
  | nil =>
      obtain ⟨fuel, rfl⟩ : ∃ k, fuel = k + 1 := ⟨fuel - 1, by omega⟩
      have hv := h v List.mem_cons_self fuel (']' :: x)
        (by simpa using Nat.le_of_lt_succ hfuel)
        (ends_cons (by simp) x)
      rw [readItems, List.flatMap_nil, List.nil_append, hv, rereadItems?, rereadItems?]
      cases v.reread? with
      | none => rfl
      | some w => simp [skipSpace_cons (c := ']') rfl]
  | cons next rest ih =>
      obtain ⟨fuel, rfl⟩ : ∃ k, fuel = k + 1 := ⟨fuel - 1, by omega⟩
      simp only [List.flatMap_cons, List.length_append, List.length_cons] at hfuel
      have hv := h v List.mem_cons_self fuel (',' :: (next.compact.toList ++
          (rest.flatMap (fun w => ',' :: w.compact.toList) ++ ']' :: x))) (by omega)
        (ends_cons (by simp) _)
      have hrest (done : List Json) := ih (fun w hw => h w (List.mem_cons_of_mem v hw)) done
        (show _ < fuel by simp only [List.length_append]; omega)
      have htext : (next :: rest).flatMap (fun w => ',' :: w.compact.toList) ++ ']' :: x =
          ',' :: (next.compact.toList ++
            (rest.flatMap (fun w => ',' :: w.compact.toList) ++ ']' :: x)) := by simp
      rw [readItems, htext, hv, rereadItems?]
      cases v.reread? with
      | none => rfl
      | some w =>
          simp only [Option.map_some, skipSpace_cons (c := ',') rfl, hrest, Option.bind_some]
          cases rereadItems? (next :: rest) <;> simp

/-- A member is read as its name and its value reread. -/
theorem readMembers_memberText {m : String × Json} (h : m.2.ReadsAsReread) {fuel : Nat}
    (done : List (String × Json)) {x : List Char} (hx : Ends x)
    (hfuel : (memberText m).length ≤ fuel) :
    readMembers (fuel + 1) done true (memberText m ++ x) = m.2.reread?.bind fun w =>
      match skipSpace x with
      | ',' :: rest => readMembers fuel ((m.1, w) :: done) true rest
      | '\x7d' :: rest => some (.object ((m.1, w) :: done).reverse, rest)
      | _ => none := by
  obtain ⟨hquoted, hname⟩ := readString_quoted m.1 (':' :: (m.2.compact.toList ++ x))
  have htext : memberText m ++ x = quoted m.1 ++ ':' :: (m.2.compact.toList ++ x) := by
    simp [memberText]
  simp only [memberText, List.length_append, List.length_cons] at hfuel
  have hv := h fuel x (by omega) hx
  rw [htext, readMembers, hquoted, skipSpace_cons rfl]
  simp only [hname, skipSpace_cons (c := ':') rfl, hv]
  cases m.2.reread? <;> rfl

/-- The members of an object are read as the members reread. -/
theorem readMembers_reread {m : String × Json} {rest : List (String × Json)}
    (h : ∀ e ∈ m :: rest, e.2.ReadsAsReread) {fuel : Nat} (done : List (String × Json))
    (x : List Char)
    (hfuel : (memberText m ++ rest.flatMap fun e => ',' :: memberText e).length < fuel) :
    readMembers fuel done true
        (memberText m ++ (rest.flatMap (fun e => ',' :: memberText e) ++ '\x7d' :: x)) =
      (rereadMembers? (m :: rest)).map fun ms => (.object (done.reverse ++ ms), x) := by
  induction rest generalizing m done fuel with
  | nil =>
      obtain ⟨fuel, rfl⟩ : ∃ k, fuel = k + 1 := ⟨fuel - 1, by omega⟩
      rw [List.flatMap_nil, List.nil_append, readMembers_memberText (h m List.mem_cons_self) done
        (ends_cons (by simp) x) (by simpa using Nat.le_of_lt_succ hfuel),
        rereadMembers?, rereadMembers?]
      cases m.2.reread? with
      | none => rfl
      | some w => simp [skipSpace_cons (c := '\x7d') rfl]
  | cons next rest ih =>
      obtain ⟨fuel, rfl⟩ : ∃ k, fuel = k + 1 := ⟨fuel - 1, by omega⟩
      simp only [List.flatMap_cons, List.length_append, List.length_cons] at hfuel
      have hrest (done : List (String × Json)) :=
        ih (fun e he => h e (List.mem_cons_of_mem m he)) done
          (show _ < fuel by simp only [List.length_append]; omega)
      have htext : (next :: rest).flatMap (fun e => ',' :: memberText e) ++ '\x7d' :: x =
          ',' :: (memberText next ++
            (rest.flatMap (fun e => ',' :: memberText e) ++ '\x7d' :: x)) := by simp
      rw [htext, readMembers_memberText (h m List.mem_cons_self) done
        (ends_cons (by simp) _) (by omega), rereadMembers?]
      cases m.2.reread? with
      | none => rfl
      | some w =>
          simp only [skipSpace_cons (c := ',') rfl, hrest, Option.bind_some]
          cases rereadMembers? (next :: rest) <;> simp

/-- The compact text of any value is read as the value reread. -/
theorem readsAsReread (v : Json) : v.ReadsAsReread := by
  induction v using induction with
  | null =>
      intro fuel x hfuel hx
      obtain ⟨fuel, rfl⟩ := exists_fuel hfuel
      rfl
  | bool b =>
      intro fuel x hfuel hx
      obtain ⟨fuel, rfl⟩ := exists_fuel hfuel
      cases b <;> rfl
  | number n =>
      intro fuel x hfuel hx
      obtain ⟨fuel, rfl⟩ := exists_fuel hfuel
      have htext : (number n).compact.toList = numeralText n := by simp [compact, write]
      rw [htext, readValue_numeralText n fuel hx, reread?]
  | string s =>
      intro fuel x hfuel hx
      obtain ⟨fuel, rfl⟩ := exists_fuel hfuel
      obtain ⟨hquoted, hread⟩ := readString_quoted s x
      have htext : (string s).compact.toList = quoted s := by simp [compact, write]
      rw [htext, hquoted, readValue, skipSpace_cons rfl]
      simp [hread, reread?]
  | array items ih =>
      intro fuel x hfuel hx
      obtain ⟨fuel, rfl⟩ := exists_fuel hfuel
      cases items with
      | nil => rfl
      | cons v rest =>
          obtain ⟨c, t, hfirst, hspace, hc, -⟩ := v.exists_first
          rw [toList_compact_array] at hfuel ⊢
          have htext : '[' :: (v.compact.toList ++
              (rest.flatMap (fun w => ',' :: w.compact.toList) ++ [']'])) ++ x =
                '[' :: (v.compact.toList ++
                  (rest.flatMap (fun w => ',' :: w.compact.toList) ++ ']' :: x)) := by simp
          have hskip (y : List Char) : skipSpace (v.compact.toList ++ y) = c :: (t ++ y) := by
            rw [hfirst, List.cons_append, skipSpace_cons hspace]
          simp only [List.length_cons, List.length_append, List.length_nil] at hfuel
          have hitems := readItems_reread ih [] x
            (show _ < fuel by simp only [List.length_append]; omega)
          rw [htext, readValue_array (hskip _) hc, hitems, reread?]
          cases rereadItems? (v :: rest) <;> rfl
  | object members ih =>
      intro fuel x hfuel hx
      obtain ⟨fuel, rfl⟩ := exists_fuel hfuel
      cases members with
      | nil => rfl
      | cons m rest =>
          rw [toList_compact_object] at hfuel ⊢
          have htext : '\x7b' :: (memberText m ++
              (rest.flatMap (fun e => ',' :: memberText e) ++ ['\x7d'])) ++ x =
                '\x7b' :: (memberText m ++
                  (rest.flatMap (fun e => ',' :: memberText e) ++ '\x7d' :: x)) := by simp
          simp only [List.length_cons, List.length_append, List.length_nil] at hfuel
          have hmembers := readMembers_reread ih [] x
            (show _ < fuel by simp only [List.length_append]; omega)
          rw [htext, readValue_object (c := '"') rfl (by decide), hmembers, reread?]
          cases rereadMembers? (m :: rest) <;> rfl
  | unusable =>
      intro fuel x hfuel hx
      obtain ⟨fuel, rfl⟩ := exists_fuel hfuel
      rfl

/-- What the compact text of a value is read as. -/
theorem ofText?_compact (v : Json) : ofText? v.compact = v.reread? := by
  have hread := v.readsAsReread (v.compact.toList.length + 1) [] (Nat.le_succ _) (by simp [Ends])
  rw [List.append_nil] at hread
  rw [ofText?, ofChars?, hread]
  cases v.reread? <;> simp [skipSpace]

/-- What the compact text of an object is kept as: its members reread and merged, if they stand for
something and leave room for the object around them. -/
theorem valueOf?_compact_object (members : List (String × Json)) :
    valueOf? (Json.object members).compact = (rereadMembers? members).bind fun ms =>
      if membersFitDepth (maxDepth - 1) ms && membersAreUsable ms then
        some (.object (Dict.ofList (ms.map fun m => (m.1, m.2.merged))).entries)
      else none := by
  rw [valueOf?, ofText?_compact, reread?]
  cases rereadMembers? members with
  | none => rfl
  | some ms =>
      simp only [Option.map_some, Option.bind_some, fitsDepth, isUsable, merged_object]
      rfl

/-! ### Members that are read back -/

/-- A member that is read back as it was written, from the text of an object without others. -/
def ReadsBack (name : String) (v : Json) : Prop :=
  valueOf? (Json.object [(name, v)]).compact = some (.object [(name, v)])

/-- A plain value in which nothing is left to merge is read back, unless it nests too deep. -/
theorem Plain.readsBack {n : Nat} {v : Json} (h : Plain n v) (hn : n < maxDepth)
    (hmerged : v.merged = v) (name : String) : ReadsBack name v := by
  have hobject : Plain (n + 1) (.object [(name, v)]) := .object (by simpa using h)
  rw [ReadsBack, (hobject.valueOf?_eq hn).1, merged_object, List.map_singleton, hmerged,
    Dict.entries_ofList_singleton]

/-- A member is read back exactly if its value is and leaves room for the object around it. -/
theorem readsBack_iff {name : String} {v : Json} :
    ReadsBack name v ↔ ∃ w, v.reread? = some w ∧ w.fitsDepth (maxDepth - 1) = true ∧
      w.isUsable = true ∧ w.merged = v := by
  rw [ReadsBack, valueOf?_compact_object, rereadMembers?, rereadMembers?]
  cases v.reread? with
  | none => simp
  | some w =>
      simp only [Option.map_some, Option.bind_some, membersFitDepth, membersAreUsable,
        Bool.and_true, List.map_cons, List.map_nil, Dict.entries_ofList_singleton,
        Option.some.injEq, exists_eq_left']
      split
      · rename_i h
        rw [Bool.and_eq_true] at h
        simp [h]
      · rename_i h
        rw [Bool.and_eq_true] at h
        constructor
        · intro hback
          cases hback
        · exact fun hw => absurd ⟨hw.1, hw.2.1⟩ h

/-- Members that are read back one by one are read back together. -/
theorem exists_rereadMembers {members : List (String × Json)}
    (h : ∀ m ∈ members, ReadsBack m.1 m.2) :
    ∃ ms, rereadMembers? members = some ms ∧ membersFitDepth (maxDepth - 1) ms = true ∧
      membersAreUsable ms = true ∧ (ms.map fun m => (m.1, m.2.merged)) = members := by
  induction members with
  | nil => exact ⟨[], rfl, rfl, rfl, rfl⟩
  | cons m rest ih =>
      obtain ⟨w, hw, hfits, husable, hmerged⟩ := readsBack_iff.mp (h m List.mem_cons_self)
      obtain ⟨ms, hms, hfits', husable', hmerged'⟩ :=
        ih fun e he => h e (List.mem_cons_of_mem _ he)
      refine ⟨(m.1, w) :: ms, ?_, ?_, ?_, ?_⟩
      · rw [rereadMembers?, hw, hms]
        rfl
      · rw [membersFitDepth, hfits, hfits']
        rfl
      · rw [membersAreUsable, husable, husable']
        rfl
      · rw [List.map_cons, hmerged, hmerged']

/-- An object is read back if all of its members are. -/
theorem valueOf?_entries {d : Dict Json} (h : ∀ e ∈ d.entries, ReadsBack e.1 e.2) :
    valueOf? (Json.object d.entries).compact = some (.object d.entries) := by
  obtain ⟨ms, hms, hfits, husable, hmerged⟩ := exists_rereadMembers h
  rw [valueOf?_compact_object, hms, Option.bind_some, hfits, husable, hmerged, Dict.ofList_entries]
  rfl

end Json

end Blocklist
