import Blocklist.Json.Parser
import Blocklist.Json.Printer
import Blocklist.Proofs.Json.Codec

/-!
# Texts that spell a value

Which texts stand for a JSON value: those of its parts, with commas, colons and brackets between
them and blanks where there is room for them. Both layouts of a plain value spell it.

## Implementation notes

`Spells` speaks of the parts of a text at once, from a value down to the members of an object, so
that what holds of all of them is proved by one induction. A plain value has integers of 64 bits as
its only numbers and is at most as deep as a bound says; all values that this library writes are
plain.
-/

namespace Blocklist.Json

/-- Plain values of at most `n` levels: usable, and with no numbers but integers of 64 bits. -/
inductive Plain : Nat → Json → Prop
  | null {n : Nat} : Plain n .null
  | bool {n : Nat} (b : Bool) : Plain n (.bool b)
  | integer {n : Nat} {i : Int} (hlow : Int64.minValue.toInt ≤ i) (hhigh : i < UInt64.size) :
      Plain n (.number (.integer i))
  | string {n : Nat} (s : String) : Plain n (.string s)
  | array {n : Nat} {items : List Json} (h : ∀ v ∈ items, Plain n v) : Plain (n + 1) (.array items)
  | object {n : Nat} {members : List (String × Json)} (h : ∀ m ∈ members, Plain n m.2) :
      Plain (n + 1) (.object members)

/-- A part of a JSON text. -/
inductive Part where
  | value (v : Json)
  /-- A value after the blanks in front of it. -/
  | item (v : Json)
  /-- The items of an array that is not empty. -/
  | items (items : List Json)
  | member (name : String) (v : Json)
  /-- The members of an object that is not empty. -/
  | members (members : List (String × Json))

/-- A text of blanks only. -/
def Blank (s : List Char) : Prop :=
  ∀ c ∈ s, isSpace c = true

/-- A string in quotes. -/
def quoted (s : String) : List Char :=
  '"' :: (s.toList.flatMap escaped ++ ['"'])

/-- A text spells a part. -/
inductive Spells : List Char → Part → Prop
  | null : Spells ['n', 'u', 'l', 'l'] (.value .null)
  | ofTrue : Spells ['t', 'r', 'u', 'e'] (.value (.bool true))
  | ofFalse : Spells ['f', 'a', 'l', 's', 'e'] (.value (.bool false))
  | integer {i : Int} (hlow : Int64.minValue.toInt ≤ i) (hhigh : i < UInt64.size) :
      Spells (integerText i) (.value (.number (.integer i)))
  | string (s : String) : Spells (quoted s) (.value (.string s))
  | emptyArray : Spells ['[', ']'] (.value (.array []))
  | array {s blank : List Char} {items : List Json} (h : Spells s (.items items))
      (hblank : Blank blank) : Spells ('[' :: (s ++ (blank ++ [']']))) (.value (.array items))
  | emptyObject : Spells ['\x7b', '\x7d'] (.value (.object []))
  | object {s blank : List Char} {members : List (String × Json)} (h : Spells s (.members members))
      (hblank : Blank blank) :
      Spells ('\x7b' :: (s ++ (blank ++ ['\x7d']))) (.value (.object members))
  | item {s blank : List Char} {v : Json} (h : Spells s (.value v)) (hblank : Blank blank) :
      Spells (blank ++ s) (.item v)
  | lastItem {s : List Char} {v : Json} (h : Spells s (.item v)) : Spells s (.items [v])
  | moreItems {s blank t : List Char} {v : Json} {rest : List Json} (h : Spells s (.item v))
      (hblank : Blank blank) (hrest : Spells t (.items rest)) :
      Spells (s ++ (blank ++ ',' :: t)) (.items (v :: rest))
  | member {s before blank : List Char} {v : Json} (hbefore : Blank before) (name : String)
      (hblank : Blank blank) (h : Spells s (.item v)) :
      Spells (before ++ (quoted name ++ (blank ++ ':' :: s))) (.member name v)
  | lastMember {s : List Char} {m : String × Json} (h : Spells s (.member m.1 m.2)) :
      Spells s (.members [m])
  | moreMembers {s blank t : List Char} {m : String × Json} {rest : List (String × Json)}
      (h : Spells s (.member m.1 m.2)) (hblank : Blank blank) (hrest : Spells t (.members rest)) :
      Spells (s ++ (blank ++ ',' :: t)) (.members (m :: rest))

theorem blank_nil : Blank [] := by
  intro c hc
  cases hc

theorem blank_newLine (level : Nat) : Blank ('\n' :: List.replicate (2 * level) ' ') := by
  intro c hc
  rcases List.mem_cons.mp hc with rfl | hc
  · rfl
  · rw [List.eq_of_mem_replicate hc]
    rfl

/-! ### What is appended to a text -/

@[simp] theorem toList_append (out : String) (cs : List Char) :
    (append out cs).toList = out.toList ++ cs := by
  induction cs generalizing out with
  | nil => simp [append]
  | cons c cs ih =>
      rw [append, List.foldl_cons]
      exact (ih (out.push c)).trans (by simp)

/-- Texts that are appended one after the other stand behind what there was. -/
theorem toList_foldl {α : Type} {step : String → α → String} {text : α → List Char} {rest : List α}
    (h : ∀ a ∈ rest, ∀ out, (step out a).toList = out.toList ++ text a) (out : String) :
    (rest.foldl step out).toList = out.toList ++ rest.flatMap text := by
  induction rest generalizing out with
  | nil => simp
  | cons a rest ih =>
      rw [List.foldl_cons, ih fun b hb => h b (List.mem_cons_of_mem _ hb),
        h a List.mem_cons_self, List.flatMap_cons, List.append_assoc]

theorem toList_foldl_escaped (out : String) (cs : List Char) :
    (cs.foldl (fun out c => append out (escaped c)) out).toList =
      out.toList ++ cs.flatMap escaped :=
  toList_foldl (fun c _ out => toList_append out (escaped c)) out

@[simp] theorem toList_writeString (out s : String) :
    (writeString out s).toList = out.toList ++ quoted s := by
  simp [writeString, quoted, toList_foldl_escaped]

@[simp] theorem toList_newLine (out : String) (level : Nat) :
    (newLine out level).toList = out.toList ++ '\n' :: List.replicate (2 * level) ' ' := by
  simp [newLine]

/-- A text that spells a part was appended to a text. -/
def Appended (out : String) (p : Part) (result : String) : Prop :=
  ∃ s, Spells s p ∧ result.toList = out.toList ++ s

theorem Spells.appended {s : List Char} {p : Part} (h : Spells s p) {out result : String}
    (hresult : result.toList = out.toList ++ s) : Appended out p result :=
  ⟨s, h, hresult⟩

/-- Blanks and a value are an item. -/
theorem Appended.item {out out' result : String} {v : Json} (h : Appended out' (.value v) result)
    {blank : List Char} (hblank : Blank blank) (hout : out'.toList = out.toList ++ blank) :
    Appended out (.item v) result := by
  obtain ⟨s, hs, hresult⟩ := h
  exact (Spells.item hs hblank).appended (by rw [hresult, hout, List.append_assoc])

/-- A name, a colon and an item are a member. -/
theorem Appended.member {out out' result : String} {name : String} {v : Json}
    (h : Appended out' (.item v) result) {blank : List Char} (hblank : Blank blank)
    (hout : out'.toList = out.toList ++ (blank ++ (quoted name ++ [':']))) :
    Appended out (.member name v) result := by
  obtain ⟨s, hs, hresult⟩ := h
  exact (Spells.member hblank name blank_nil hs).appended (by rw [hresult, hout]; simp)

/-- Parts that are appended one after the other, each behind a comma, are appended together. -/
theorem appended_foldl {α : Type} (one : α → Part) (all : List α → Part)
    (hlast : ∀ {s a}, Spells s (one a) → Spells s (all [a]))
    (hmore : ∀ {s t a rest}, Spells s (one a) → Spells t (all rest) →
      Spells (s ++ ',' :: t) (all (a :: rest)))
    {step : String → α → String} {rest : List α}
    (hstep : ∀ a ∈ rest, ∀ out, Appended (out.push ',') (one a) (step out a)) {first : α}
    {out result : String} (hfirst : Appended out (one first) result) :
    Appended out (all (first :: rest)) (rest.foldl step result) := by
  induction rest generalizing first out result with
  | nil =>
      obtain ⟨s, hs, hresult⟩ := hfirst
      exact (hlast hs).appended hresult
  | cons next rest ih =>
      obtain ⟨s, hs, hresult⟩ := hfirst
      obtain ⟨t, ht, hrest⟩ := ih (fun a ha => hstep a (List.mem_cons_of_mem _ ha))
        (hstep next List.mem_cons_self result)
      apply (hmore hs ht).appended
      rw [List.foldl_cons, hrest, String.toList_push, hresult]
      simp

theorem appended_items {step : String → Json → String} {rest : List Json}
    (hstep : ∀ v ∈ rest, ∀ out, Appended (out.push ',') (.item v) (step out v)) {v : Json}
    {out result : String} (hfirst : Appended out (.item v) result) :
    Appended out (.items (v :: rest)) (rest.foldl step result) :=
  appended_foldl .item .items .lastItem (fun hs ht => .moreItems hs blank_nil ht) hstep hfirst

theorem appended_members {step : String → String × Json → String} {rest : List (String × Json)}
    (hstep : ∀ m ∈ rest, ∀ out, Appended (out.push ',') (.member m.1 m.2) (step out m))
    {m : String × Json} {out result : String} (hfirst : Appended out (.member m.1 m.2) result) :
    Appended out (.members (m :: rest)) (rest.foldl step result) :=
  appended_foldl (fun m => .member m.1 m.2) .members .lastMember
    (fun hs ht => .moreMembers hs blank_nil ht) hstep hfirst

/-- Items between brackets are an array. -/
theorem Appended.array {out result closed : String} {items : List Json}
    (h : Appended (out.push '[') (.items items) result) {blank : List Char} (hblank : Blank blank)
    (hclosed : closed.toList = result.toList ++ (blank ++ [']'])) :
    Appended out (.value (.array items)) closed := by
  obtain ⟨s, hs, hresult⟩ := h
  exact (Spells.array hs hblank).appended (by rw [hclosed, hresult]; simp)

/-- Members between brackets are an object. -/
theorem Appended.object {out result closed : String} {members : List (String × Json)}
    (h : Appended (out.push '\x7b') (.members members) result) {blank : List Char}
    (hblank : Blank blank) (hclosed : closed.toList = result.toList ++ (blank ++ ['\x7d'])) :
    Appended out (.value (.object members)) closed := by
  obtain ⟨s, hs, hresult⟩ := h
  exact (Spells.object hs hblank).appended (by rw [hclosed, hresult]; simp)

/-! ### The compact layout -/

theorem writeItems_eq (out : String) (items : List Json) :
    writeItems out items = items.foldl (fun out v => write (out.push ',') v) out := by
  induction items generalizing out with
  | nil => rfl
  | cons v rest ih => rw [writeItems, ih, List.foldl_cons]

theorem writeMembers_eq (out : String) (members : List (String × Json)) :
    writeMembers out members =
      members.foldl (fun out m => write ((writeString (out.push ',') m.1).push ':') m.2) out := by
  induction members generalizing out with
  | nil => rfl
  | cons m rest ih => rw [writeMembers, ih, List.foldl_cons]

/-- The compact layout of a plain value spells it. -/
theorem Plain.appended_write {n : Nat} {v : Json} (h : Plain n v) (out : String) :
    Appended out (.value v) (write out v) := by
  induction h generalizing out with
  | null => exact Spells.null.appended (by simp [write])
  | bool b =>
      cases b with
      | false => exact Spells.ofFalse.appended (by simp [write])
      | true => exact Spells.ofTrue.appended (by simp [write])
  | integer hlow hhigh => exact (Spells.integer hlow hhigh).appended (by simp [write, numeralText])
  | string s => exact (Spells.string s).appended (by simp [write])
  | @array n items h ih =>
      cases items with
      | nil => exact Spells.emptyArray.appended (by simp [write])
      | cons v rest =>
          have hitem : ∀ w ∈ v :: rest, ∀ out, Appended out (.item w) (write out w) :=
            fun w hw out => (ih w hw out).item blank_nil (by simp)
          have hitems := appended_items
            (fun w hw out => hitem w (List.mem_cons_of_mem v hw) (out.push ','))
            (hitem v List.mem_cons_self (out.push '['))
          rw [write, writeItems_eq]
          exact hitems.array blank_nil (by simp)
  | @object n members h ih =>
      cases members with
      | nil => exact Spells.emptyObject.appended (by simp [write])
      | cons m rest =>
          have hmember : ∀ m' ∈ m :: rest, ∀ out, Appended out (.member m'.1 m'.2)
              (write ((writeString out m'.1).push ':') m'.2) := by
            intro m' hm' out
            have hitem : Appended ((writeString out m'.1).push ':') (.item m'.2)
                (write ((writeString out m'.1).push ':') m'.2) :=
              (ih m' hm' _).item blank_nil (by simp)
            exact hitem.member blank_nil (by simp)
          have hmembers := appended_members
            (fun m' hm' out => hmember m' (List.mem_cons_of_mem m hm') (out.push ','))
            (hmember m List.mem_cons_self (out.push '\x7b'))
          rw [write, writeMembers_eq]
          exact hmembers.object blank_nil (by simp)

/-! ### The indented layout -/

theorem writeIndentedItems_eq (out : String) (level : Nat) (items : List Json) :
    writeIndentedItems out level items =
      items.foldl (fun out v => writeIndented (newLine (out.push ',') level) level v) out := by
  induction items generalizing out with
  | nil => rfl
  | cons v rest ih => rw [writeIndentedItems, ih, List.foldl_cons]

theorem writeIndentedMembers_eq (out : String) (level : Nat) (members : List (String × Json)) :
    writeIndentedMembers out level members = members.foldl (fun out m =>
      writeIndented (writeString (newLine (out.push ',') level) m.1 ++ ": ") level m.2) out := by
  induction members generalizing out with
  | nil => rfl
  | cons m rest ih => rw [writeIndentedMembers, ih, List.foldl_cons]

/-- The indented layout of a plain value spells it. -/
theorem Plain.appended_writeIndented {n : Nat} {v : Json} (h : Plain n v) (out : String)
    (level : Nat) : Appended out (.value v) (writeIndented out level v) := by
  induction h generalizing out level with
  | null => exact Spells.null.appended (by simp [writeIndented])
  | bool b =>
      cases b with
      | false => exact Spells.ofFalse.appended (by simp [writeIndented])
      | true => exact Spells.ofTrue.appended (by simp [writeIndented])
  | integer hlow hhigh =>
      exact (Spells.integer hlow hhigh).appended (by simp [writeIndented, numeralText])
  | string s => exact (Spells.string s).appended (by simp [writeIndented])
  | @array n items h ih =>
      cases items with
      | nil => exact Spells.emptyArray.appended (by simp [writeIndented])
      | cons v rest =>
          have hitem : ∀ w ∈ v :: rest, ∀ out, Appended out (.item w)
              (writeIndented (newLine out (level + 1)) (level + 1) w) :=
            fun w hw out => (ih w hw _ _).item (blank_newLine (level + 1)) (by simp)
          have hitems := appended_items
            (fun w hw out => hitem w (List.mem_cons_of_mem v hw) (out.push ','))
            (hitem v List.mem_cons_self (out.push '['))
          rw [writeIndented, writeIndentedItems_eq]
          exact hitems.array (blank_newLine level) (by simp)
  | @object n members h ih =>
      cases members with
      | nil => exact Spells.emptyObject.appended (by simp [writeIndented])
      | cons m rest =>
          have hmember : ∀ m' ∈ m :: rest, ∀ out, Appended out (.member m'.1 m'.2)
              (writeIndented (writeString (newLine out (level + 1)) m'.1 ++ ": ") (level + 1)
                m'.2) := by
            intro m' hm' out
            have hspace : Blank [' '] := by simp [Blank, isSpace]
            have hitem : Appended ((writeString (newLine out (level + 1)) m'.1).push ':')
                (.item m'.2) (writeIndented (writeString (newLine out (level + 1)) m'.1 ++ ": ")
                  (level + 1) m'.2) :=
              (ih m' hm' _ _).item hspace (by simp)
            exact hitem.member (blank_newLine (level + 1)) (by simp)
          have hmembers := appended_members
            (fun m' hm' out => hmember m' (List.mem_cons_of_mem m hm') (out.push ','))
            (hmember m List.mem_cons_self (out.push '\x7b'))
          rw [writeIndented, writeIndentedMembers_eq]
          exact hmembers.object (blank_newLine level) (by simp)

/-- Both layouts of a plain value spell it. -/
theorem Plain.spells {n : Nat} {v : Json} (h : Plain n v) :
    Spells v.compact.toList (.value v) ∧ Spells v.indented.toList (.value v) := by
  constructor
  · obtain ⟨s, hs, hcompact⟩ := h.appended_write ""
    rw [compact, hcompact]
    simpa using hs
  · obtain ⟨s, hs, hindented⟩ := h.appended_writeIndented "" 0
    rw [indented, hindented]
    simpa using hs

end Blocklist.Json
