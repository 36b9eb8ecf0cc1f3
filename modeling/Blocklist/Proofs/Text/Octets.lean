/-!
# Octets of texts

A text in UTF-8. The first octet of a character differs from those that it continues with, so the
octets of one text stand at the end of those of another one only where the one text ends the other:
no text ends in the middle of a character.
-/

namespace Blocklist.Text

variable {a b : List Char}

/-- The octets of a text. -/
def octets (s : List Char) : List UInt8 :=
  s.flatMap String.utf8EncodeChar

theorem octets_cons (c : Char) (s : List Char) :
    octets (c :: s) = String.utf8EncodeChar c ++ octets s :=
  List.flatMap_cons

theorem octets_append (a b : List Char) : octets (a ++ b) = octets a ++ octets b :=
  List.flatMap_append

theorem octets_eq_nil_iff : octets a = [] ↔ a = [] := by
  cases a with
  | nil => exact ⟨fun _ => rfl, fun _ => rfl⟩
  | cons c s => simp [octets_cons]

/-- Different texts have different octets. -/
theorem octets_inj (h : octets a = octets b) : a = b := by
  have hencode : a.utf8Encode = b.utf8Encode := congrArg List.toByteArray h
  have hdecode := congrArg ByteArray.utf8Decode? hencode
  rw [List.utf8Decode?_utf8Encode, List.utf8Decode?_utf8Encode, Option.some.injEq] at hdecode
  exact List.toArray_inj hdecode

/-- The octets of a text begin as those of a character do. -/
theorem isUTF8FirstByte_of_octets_eq_cons {x : UInt8} {rest : List UInt8}
    (h : octets a = x :: rest) : x.IsUTF8FirstByte := by
  cases a with
  | nil => cases h
  | cons c s =>
      have hget : (octets (c :: s))[0]? = (String.utf8EncodeChar c)[0]? := by
        rw [octets_cons, List.getElem?_append_left (by simp [c.utf8Size_pos])]
      rw [h, List.getElem?_cons_zero, List.getElem?_eq_getElem (by simp [c.utf8Size_pos]),
        Option.some.injEq] at hget
      rw [hget]
      exact UInt8.isUTF8FirstByte_getElem_zero_utf8EncodeChar

/-- What ends a character and begins as a character does is the whole character. -/
theorem eq_nil_of_utf8EncodeChar_eq {c : Char} {front rest : List UInt8} {x : UInt8}
    (hx : x.IsUTF8FirstByte) (h : front ++ x :: rest = String.utf8EncodeChar c) : front = [] := by
  have hlength : front.length < (String.utf8EncodeChar c).length := by simp [← h]
  have hget : (String.utf8EncodeChar c)[front.length] = x := by simp [← h]
  rw [← hget, UInt8.isUTF8FirstByte_getElem_utf8EncodeChar] at hx
  exact List.length_eq_zero_iff.mp hx

/-- The octets of a text end those of another one exactly if the text ends the other one. -/
theorem octets_suffix_iff : octets a <:+ octets b ↔ a <:+ b := by
  constructor
  · intro h
    induction b with
    | nil =>
        obtain rfl : a = [] := octets_eq_nil_iff.mp (List.suffix_nil.mp h)
        exact List.suffix_rfl
    | cons c b ih =>
        have hrest : octets b <:+ octets (c :: b) := ⟨String.utf8EncodeChar c, (octets_cons c b).symm⟩
        rcases List.suffix_or_suffix_of_suffix h hrest with hshort | ⟨added, hadded⟩
        · exact (ih hshort).trans (List.suffix_cons c b)
        · -- `added` ends the character `c` and begins the text `a`
          obtain ⟨front, hfront⟩ := h
          rw [← hadded, octets_cons, ← List.append_assoc] at hfront
          have hchar : front ++ added = String.utf8EncodeChar c := List.append_cancel_right hfront
          cases added with
          | nil =>
              rw [octets_inj hadded.symm]
              exact List.suffix_cons c b
          | cons x rest =>
              have hfirst := isUTF8FirstByte_of_octets_eq_cons hadded.symm
              rw [eq_nil_of_utf8EncodeChar_eq hfirst hchar, List.nil_append] at hchar
              rw [hchar, ← octets_cons] at hadded
              obtain rfl := octets_inj hadded
              exact List.suffix_rfl
  · rintro ⟨front, rfl⟩
    exact ⟨octets front, (octets_append front a).symm⟩

end Blocklist.Text
