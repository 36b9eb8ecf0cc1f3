import Blocklist.Cache
import Blocklist.Proofs.Text.Decimal
import Mathlib.Data.List.Flatten
import Mathlib.Data.List.Perm.Subperm

/-!
# Ids are handed out once

A sequence hands out ascending ids, so the records of compiled lists are told apart by their
numbers. Only the greatest id can be handed out twice, and a sequence that reached it stays there.

## Implementation notes

`IdSequence.Covers` says of ids in use that a sequence will not hand any of them out again. It
leaves out the greatest id, so it holds of every sequence whether or not it is used up.
-/

namespace Blocklist

namespace RuleId

theorem toNat_next (id : RuleId) : id.next.toNat = min (id.toNat + 1) last.toNat := by
  have hlt := id.toNat_lt
  have hlast : last.toNat = 4294967295 := rfl
  rw [next]
  split
  · rename_i h
    rw [h]
    omega
  · rename_i h
    have hne : id.toNat ≠ last.toNat := fun heq => h (UInt32.toNat_inj.mp heq)
    rw [UInt32.toNat_add, UInt32.toNat_one, Nat.mod_eq_of_lt (by omega)]
    omega

theorem le_last (id : RuleId) : id ≤ last := by
  have hlt := id.toNat_lt
  have hlast : last.toNat = 4294967295 := rfl
  rw [UInt32.le_iff_toNat_le]
  omega

/-- Only the greatest id is not below the next one. -/
theorem lt_next {id : RuleId} (h : id ≠ last) : id < id.next := by
  have hnext := toNat_next id
  have hle := UInt32.le_iff_toNat_le.mp id.le_last
  have hne : id.toNat ≠ last.toNat := fun heq => h (UInt32.toNat_inj.mp heq)
  rw [UInt32.lt_iff_toNat_lt]
  omega

theorem next_le_of_lt {id id' : RuleId} (h : id < id') : id.next ≤ id' := by
  have hnext := toNat_next id
  rw [UInt32.lt_iff_toNat_lt] at h
  rw [UInt32.le_iff_toNat_le]
  omega

theorem max_eq (a b : RuleId) : max a b = if a ≤ b then b else a :=
  rfl

instance : Std.LawfulOrderMax RuleId where
  max_le_iff a b c := by
    rw [max_eq]
    split <;> simp only [UInt32.le_iff_toNat_le] at * <;> omega
  max_eq_or a b := by
    rw [max_eq]
    split
    · exact .inr rfl
    · exact .inl rfl

/-- The number behind the last underscore is read back. -/
theorem ofTail?_append (front : List Char) (id : RuleId) :
    ofTail? (front ++ '_' :: Nat.toDigits 10 id.toNat) = some id := by
  have hdigits : ∀ c ∈ (Nat.toDigits 10 id.toNat).reverse, decide (c ≠ '_') = true := by
    intro c hc
    refine decide_eq_true fun heq => Nat.underscore_not_in_toDigits (n := id.toNat) ?_
    exact heq ▸ List.mem_reverse.mp hc
  have htail : ((front ++ '_' :: Nat.toDigits 10 id.toNat).reverse.takeWhile (· ≠ '_')).reverse =
      Nat.toDigits 10 id.toNat := by
    rw [List.reverse_append, List.reverse_cons, List.append_assoc,
      List.takeWhile_append_of_pos hdigits]
    simp
  have hle : id.toNat ≤ last.toNat := UInt32.le_iff_toNat_le.mp id.le_last
  rw [ofTail?, htail, Text.natUpTo?_toDigits hle, Option.map_some, UInt32.ofNat_toNat]

end RuleId

/-! ### What a sequence hands out -/

namespace IdSequence

/-- The ids that a sequence hands out next. -/
def taken (ids : IdSequence) : Nat → List RuleId
  | 0 => []
  | n + 1 => ids.next :: ids.advance.taken n

/-- The sequence after it has handed out some ids. -/
def skip (ids : IdSequence) : Nat → IdSequence
  | 0 => ids
  | n + 1 => ids.advance.skip n

theorem taken_add (ids : IdSequence) (m n : Nat) :
    ids.taken (m + n) = ids.taken m ++ (ids.skip m).taken n := by
  induction m generalizing ids with
  | zero => rw [Nat.zero_add, taken, List.nil_append, skip]
  | succ m ih => rw [Nat.succ_add, taken, ih, taken, List.cons_append, skip]

theorem skip_add (ids : IdSequence) (m n : Nat) : ids.skip (m + n) = (ids.skip m).skip n := by
  induction m generalizing ids with
  | zero => rw [Nat.zero_add, skip]
  | succ m ih => rw [Nat.succ_add, skip, ih, skip]

theorem toNat_advance (ids : IdSequence) :
    ids.advance.next.toNat = min (ids.next.toNat + 1) RuleId.last.toNat :=
  RuleId.toNat_next ids.next

theorem toNat_skip (ids : IdSequence) (n : Nat) :
    (ids.skip n).next.toNat = min (ids.next.toNat + n) RuleId.last.toNat := by
  induction n generalizing ids with
  | zero =>
      have hle := UInt32.le_iff_toNat_le.mp ids.next.le_last
      rw [skip]
      omega
  | succ n ih =>
      have hnext := ids.toNat_advance
      rw [skip, ih]
      omega

theorem next_le_advance (ids : IdSequence) : ids.next ≤ ids.advance.next := by
  have hnext := ids.toNat_advance
  have hle := UInt32.le_iff_toNat_le.mp ids.next.le_last
  rw [UInt32.le_iff_toNat_le]
  omega

theorem next_le_skip (ids : IdSequence) (n : Nat) : ids.next ≤ (ids.skip n).next := by
  induction n generalizing ids with
  | zero => exact UInt32.le_refl _
  | succ n ih => exact UInt32.le_trans ids.next_le_advance (ih ids.advance)

/-- A sequence that is used up stays so. -/
theorem eq_last_of_le {ids ids' : IdSequence} (hle : ids.next ≤ ids'.next)
    (h : ids.next = RuleId.last) : ids'.next = RuleId.last :=
  UInt32.le_antisymm ids'.next.le_last (h ▸ hle)

/-- What is handed out lies from the next id on, and below the next id afterwards. -/
theorem le_and_lt_of_mem_taken {ids : IdSequence} {n : Nat} {id : RuleId} (h : id ∈ ids.taken n) :
    ids.next ≤ id ∧ ((ids.skip n).next = RuleId.last ∨ id < (ids.skip n).next) := by
  induction n generalizing ids with
  | zero => exact absurd h List.not_mem_nil
  | succ n ih =>
      have hskip := ids.advance.next_le_skip n
      rcases List.mem_cons.mp h with rfl | h
      · refine ⟨UInt32.le_refl _, ?_⟩
        have hnext := ids.toNat_advance
        by_cases hlast : ids.advance.next = RuleId.last
        · exact .inl (eq_last_of_le hskip hlast)
        · refine .inr (UInt32.lt_of_lt_of_le (UInt32.lt_iff_toNat_lt.mpr ?_) hskip)
          have hne : ids.advance.next.toNat ≠ RuleId.last.toNat := fun heq =>
            hlast (UInt32.toNat_inj.mp heq)
          omega
      · obtain ⟨hle, hlt⟩ := ih h
        exact ⟨UInt32.le_trans ids.next_le_advance hle, hlt⟩

theorem nodup_taken (ids : IdSequence) (n : Nat) :
    ((ids.taken n).filter (· ≠ RuleId.last)).Nodup := by
  induction n generalizing ids with
  | zero => exact .nil
  | succ n ih =>
      rw [taken, List.filter_cons]
      split
      · rename_i hne
        refine List.nodup_cons.mpr ⟨fun hmem => ?_, ih _⟩
        have hle := (le_and_lt_of_mem_taken (List.mem_filter.mp hmem).1).1
        have hnext := ids.toNat_advance
        have hlast := UInt32.le_iff_toNat_le.mp ids.next.le_last
        have hne' : ids.next.toNat ≠ RuleId.last.toNat := fun heq =>
          (of_decide_eq_true hne) (UInt32.toNat_inj.mp heq)
        rw [UInt32.le_iff_toNat_le] at hle
        omega
      · exact ih _

/-- As long as there is room for them, ids that are handed out are distinct, the greatest one
included. -/
theorem nodup_taken_of_room {ids : IdSequence} {n : Nat} (h : ids.next.toNat + n ≤ 2 ^ 32) :
    (ids.taken n).Nodup := by
  induction n generalizing ids with
  | zero => exact .nil
  | succ n ih =>
      have hlast : RuleId.last.toNat = 4294967295 := rfl
      have hnext := ids.toNat_advance
      cases n with
      | zero => exact List.nodup_cons.mpr ⟨List.not_mem_nil, .nil⟩
      | succ n =>
          have hroom : ids.advance.next.toNat = ids.next.toNat + 1 := by omega
          refine List.nodup_cons.mpr ⟨fun hmem => ?_, ih (by omega)⟩
          have hle := UInt32.le_iff_toNat_le.mp (le_and_lt_of_mem_taken hmem).1
          omega

/-! ### Passing an id -/

theorem le_advancePast (ids : IdSequence) (top : RuleId) :
    ids.next ≤ (ids.advancePast top).next := by
  rw [advancePast]
  split
  · rename_i hle
    have hnext := RuleId.toNat_next top
    have hlast := UInt32.le_iff_toNat_le.mp top.le_last
    rw [UInt32.le_iff_toNat_le] at *
    dsimp only
    omega
  · exact UInt32.le_refl _

/-- A sequence passes every id but the greatest one. -/
theorem lt_advancePast (ids : IdSequence) {top : RuleId} (h : top ≠ RuleId.last) :
    top < (ids.advancePast top).next := by
  rw [advancePast]
  split
  · exact RuleId.lt_next h
  · rename_i hlt
    exact UInt32.not_le.mp hlt

/-- It leaves out no id that it need not leave out. -/
theorem advancePast_le {ids : IdSequence} {top bound : RuleId} (h : ids.next ≤ bound)
    (h' : top.next ≤ bound) : (ids.advancePast top).next ≤ bound := by
  rw [advancePast]
  split
  · exact h'
  · exact h

/-! ### Ids in use -/

/-- Ids in use are distinct, and a sequence hands none of them out again, each but for the greatest
one. -/
structure Covers (ids : IdSequence) (used : List RuleId) : Prop where
  distinct : (used.filter (· ≠ RuleId.last)).Nodup
  below : ids.next = RuleId.last ∨ ∀ id ∈ used, id < ids.next

theorem covers_nil (ids : IdSequence) : ids.Covers [] :=
  ⟨.nil, .inr (by simp)⟩

variable {ids ids' : IdSequence} {used used' : List RuleId}

theorem Covers.subperm (h : ids.Covers used) (hsub : used'.Subperm used) : ids.Covers used' := by
  refine ⟨?_, h.below.imp id fun hbelow id hid => hbelow id (hsub.subset hid)⟩
  obtain ⟨l, hperm, hsublist⟩ := hsub.filter (· ≠ RuleId.last)
  exact hperm.nodup_iff.mp (h.distinct.sublist hsublist)

theorem Covers.mono (h : ids.Covers used) (hle : ids.next ≤ ids'.next) : ids'.Covers used := by
  refine ⟨h.distinct, ?_⟩
  rcases h.below with hlast | hbelow
  · exact .inl (eq_last_of_le hle hlast)
  · exact .inr fun id hid => UInt32.lt_of_lt_of_le (hbelow id hid) hle

/-- Ids that are handed out come beside those in use. -/
theorem Covers.append_taken (h : ids.Covers used) (n : Nat) :
    (ids.skip n).Covers (used ++ ids.taken n) := by
  constructor
  · rw [List.filter_append]
    refine List.nodup_append.mpr ⟨h.distinct, ids.nodup_taken n, fun id hid id' hid' heq => ?_⟩
    obtain ⟨hused, hne⟩ := List.mem_filter.mp hid
    have hle : ids.next ≤ id := heq ▸ (le_and_lt_of_mem_taken (List.mem_filter.mp hid').1).1
    rcases h.below with hlast | hbelow
    · exact of_decide_eq_true hne (UInt32.le_antisymm id.le_last (hlast ▸ hle))
    · exact absurd hle (UInt32.not_le.mpr (hbelow id hused))
  · rcases (h.mono (ids.next_le_skip n)).below with hlast | hbelow
    · exact .inl hlast
    · by_cases hlast : (ids.skip n).next = RuleId.last
      · exact .inl hlast
      · right
        intro id hid
        rcases List.mem_append.mp hid with hid | hid
        · exact hbelow id hid
        · exact (le_and_lt_of_mem_taken hid).2.resolve_left hlast

/-- A sequence that passes the greatest id in use hands out none of those in use. -/
theorem covers_advancePast (hdistinct : (used.filter (· ≠ RuleId.last)).Nodup) {top : RuleId}
    (htop : ∀ id ∈ used, id ≤ top) : (ids.advancePast top).Covers used := by
  refine ⟨hdistinct, ?_⟩
  by_cases h : top = RuleId.last
  · left
    rw [h, advancePast, if_pos ids.next.le_last]
    rfl
  · exact .inr fun id hid => UInt32.lt_of_le_of_lt (htop id hid) (ids.lt_advancePast h)

/-- Before a sequence is used up the ids in use are distinct, and all are below the next one. -/
theorem Covers.nodup (h : ids.Covers used) (hroom : ids.next < RuleId.last) :
    used.Nodup ∧ ∀ id ∈ used, id < ids.next := by
  have hbelow := h.below.resolve_left fun hlast => UInt32.lt_irrefl _ (hlast ▸ hroom)
  have hself : used.filter (· ≠ RuleId.last) = used := by
    apply List.filter_eq_self.mpr
    intro id hid
    apply decide_eq_true
    intro heq
    exact UInt32.lt_irrefl _ (UInt32.lt_trans (heq ▸ hbelow id hid) hroom)
  exact ⟨hself ▸ h.distinct, hbelow⟩

end IdSequence

/-! ### Labelled records -/

namespace Record

/-- The number in the id of a record. -/
def number? : Record → Option RuleId
  | network rule => some rule.id
  | cosmetic rule => RuleId.ofTail? rule.id.toList
  | scriptlet call => RuleId.ofTail? call.id.toList

theorem toList_cosmetic (id : RuleId) :
    (s!"cosmetic_{id.toNat}").toList = "cosmetic".toList ++ '_' :: Nat.toDigits 10 id.toNat := by
  simp
  rfl

theorem toList_scriptlet (id : RuleId) :
    (s!"scriptlet_{id.toNat}").toList = "scriptlet".toList ++ '_' :: Nat.toDigits 10 id.toNat := by
  simp
  rfl

/-- A record has the number it was given. -/
theorem number?_ofDraft (listId : String) (id : RuleId) (draft : Filter.Draft) :
    (ofDraft listId id draft).number? = some id := by
  cases draft with
  | block body => rfl
  | allow body => rfl
  | cosmetic body =>
      rw [ofDraft, number?, Filter.CosmeticBody.withId, toList_cosmetic, RuleId.ofTail?_append]
  | scriptlet body =>
      rw [ofDraft, number?, Filter.ScriptletBody.withId, toList_scriptlet, RuleId.ofTail?_append]

/-- The ids of the network rules are the numbers of some of the records, in their order. -/
theorem network_ids_sublist (records : List Record) :
    ((records.filterMap network?).map (·.id)).Sublist (records.filterMap number?) := by
  induction records with
  | nil => exact .slnil
  | cons record rest ih =>
      cases record with
      | network rule => exact ih.cons_cons rule.id
      | cosmetic rule => exact ih.trans ((List.sublist_cons_self _ _).filterMap _)
      | scriptlet call => exact ih.trans ((List.sublist_cons_self _ _).filterMap _)

/-- Every record is of one kind. -/
theorem length_kinds (records : List Record) :
    (records.filterMap network?).length + (records.filterMap cosmetic?).length +
      (records.filterMap scriptlet?).length = records.length := by
  induction records with
  | nil => rfl
  | cons record rest ih =>
      cases record <;>
        simp only [List.filterMap_cons, network?, cosmetic?, scriptlet?, List.length_cons] <;>
        omega

/-- The numbers of records, kind by kind, are the numbers of all of them. -/
theorem numbers_perm (records : List Record) :
    ((records.filterMap network?).map (·.id) ++
        (records.filterMap cosmetic?).filterMap (RuleId.ofTail? ·.id.toList) ++
        (records.filterMap scriptlet?).filterMap (RuleId.ofTail? ·.id.toList)).Perm
      (records.filterMap number?) := by
  induction records with
  | nil => exact .nil
  | cons record rest ih =>
      cases record with
      | network rule => exact ih.cons rule.id
      | cosmetic rule =>
          have hcosmetic : (cosmetic rule).number? = RuleId.ofTail? rule.id.toList := rfl
          simp only [List.filterMap_cons, network?, cosmetic?, scriptlet?, hcosmetic]
          cases RuleId.ofTail? rule.id.toList with
          | none => exact ih
          | some id =>
              rw [List.append_assoc, List.cons_append]
              refine List.perm_middle.trans (List.Perm.cons id ?_)
              rwa [← List.append_assoc]
      | scriptlet call =>
          have hscriptlet : (scriptlet call).number? = RuleId.ofTail? call.id.toList := rfl
          simp only [List.filterMap_cons, network?, cosmetic?, scriptlet?, hscriptlet]
          cases RuleId.ofTail? call.id.toList with
          | none => exact ih
          | some id => exact List.perm_middle.trans (ih.cons id)

end Record

namespace IdSequence

/-- Give one more draft its id. -/
def labelNext (listId : String) (done : List Record × IdSequence) (draft : Filter.Draft) :
    List Record × IdSequence :=
  (Record.ofDraft listId done.2.next draft :: done.1, done.2.advance)

theorem label_eq (listId : String) (ids : IdSequence) (drafts : List Filter.Draft) :
    ids.label listId drafts =
      ((drafts.foldl (labelNext listId) ([], ids)).1.reverse,
        (drafts.foldl (labelNext listId) ([], ids)).2) :=
  rfl

theorem foldl_labelNext (listId : String) (drafts : List Filter.Draft) (done : List Record)
    (ids : IdSequence) :
    drafts.foldl (labelNext listId) (done, ids) =
      ((drafts.foldl (labelNext listId) ([], ids)).1 ++ done,
        (drafts.foldl (labelNext listId) ([], ids)).2) := by
  induction drafts generalizing done ids with
  | nil => rfl
  | cons draft rest ih =>
      simp only [List.foldl_cons, labelNext]
      rw [ih, ih [Record.ofDraft listId ids.next draft]]
      simp

/-- Records are labelled one after the other. -/
theorem label_cons (listId : String) (ids : IdSequence) (draft : Filter.Draft)
    (rest : List Filter.Draft) :
    ids.label listId (draft :: rest) =
      (Record.ofDraft listId ids.next draft :: (ids.advance.label listId rest).1,
        (ids.advance.label listId rest).2) := by
  rw [label_eq, label_eq, List.foldl_cons, labelNext, foldl_labelNext]
  simp

theorem label_snd (listId : String) (ids : IdSequence) (drafts : List Filter.Draft) :
    (ids.label listId drafts).2 = ids.skip drafts.length := by
  induction drafts generalizing ids with
  | nil => rfl
  | cons draft rest ih => rw [label_cons, ih, List.length_cons, skip]

theorem length_label (listId : String) (ids : IdSequence) (drafts : List Filter.Draft) :
    (ids.label listId drafts).1.length = drafts.length := by
  induction drafts generalizing ids with
  | nil => rfl
  | cons draft rest ih => rw [label_cons, List.length_cons, List.length_cons, ih]

/-- Labels run on from one part of the drafts to the next. -/
theorem label_append (listId : String) (ids : IdSequence) (front back : List Filter.Draft) :
    ids.label listId (front ++ back) =
      ((ids.label listId front).1 ++ ((ids.label listId front).2.label listId back).1,
        ((ids.label listId front).2.label listId back).2) := by
  induction front generalizing ids with
  | nil => rfl
  | cons draft rest ih => rw [List.cons_append, label_cons, ih, label_cons, List.cons_append]

/-- Labelled records have the numbers that the sequence hands out. -/
theorem numbers_label (listId : String) (ids : IdSequence) (drafts : List Filter.Draft) :
    (ids.label listId drafts).1.filterMap Record.number? = ids.taken drafts.length := by
  induction drafts generalizing ids with
  | nil => rfl
  | cons draft rest ih =>
      rw [label_cons, List.filterMap_cons, Record.number?_ofDraft]
      dsimp only
      rw [ih, List.length_cons, taken]

theorem exists_draft_of_mem_label {listId : String} {ids : IdSequence} {drafts : List Filter.Draft}
    {record : Record} (h : record ∈ (ids.label listId drafts).1) :
    ∃ id, ∃ draft ∈ drafts, record = Record.ofDraft listId id draft := by
  induction drafts generalizing ids with
  | nil => exact absurd h List.not_mem_nil
  | cons draft rest ih =>
      rw [label_cons] at h
      rcases List.mem_cons.mp h with rfl | h
      · exact ⟨ids.next, draft, List.mem_cons_self, rfl⟩
      · obtain ⟨id, draft, hdraft, hrecord⟩ := ih h
        exact ⟨id, draft, List.mem_cons_of_mem _ hdraft, hrecord⟩

end IdSequence

/-! ### Compiled texts -/

/-- The drafts of the records of a text, in the order of its lines. -/
def draftsOf (text : String) : List Filter.Draft :=
  (Filter.Reading.ofText text.toList).filterMap Filter.Reading.draft?

namespace Segment

/-- Every record of a segment has a number in its id. -/
structure Numbered (s : Segment) : Prop where
  cosmeticRules : ∀ rule ∈ s.cosmeticRules, ∃ id : RuleId, rule.id = s!"cosmetic_{id.toNat}"
  scriptlets : ∀ call ∈ s.scriptlets, ∃ id : RuleId, call.id = s!"scriptlet_{id.toNat}"

/-- The segment of a compiled text, from its labelled records. -/
theorem ofCompiled_eq (url : String) (etag : Option String) (ids : IdSequence)
    (listId text : String) :
    ofCompiled url etag (compileList ids listId text).list =
      let records := (ids.label listId (draftsOf text)).1
      { url, etag
        rules := records.filterMap Record.network?
        cosmeticRules := records.filterMap Record.cosmetic?
        scriptlets := records.filterMap Record.scriptlet?
        stats := LineStats.sum ((Filter.Reading.ofText text.toList).map Filter.Reading.stats) } :=
  rfl

/-- A compiled text takes one id for each of its records. -/
theorem ids_ofCompiled (url : String) (etag : Option String) (ids : IdSequence) (listId : String)
    (text : String) :
    (ofCompiled url etag (compileList ids listId text).list).ids.Perm
        (ids.taken (draftsOf text).length) ∧
      (compileList ids listId text).ids = ids.skip (draftsOf text).length := by
  constructor
  · rw [ofCompiled_eq, ← ids.numbers_label listId (draftsOf text)]
    exact Record.numbers_perm (ids.label listId (draftsOf text)).1
  · exact ids.label_snd listId (draftsOf text)

theorem numbered_ofCompiled (url : String) (etag : Option String) (ids : IdSequence)
    (listId : String) (text : String) :
    (ofCompiled url etag (compileList ids listId text).list).Numbered where
  cosmeticRules rule hrule := by
    obtain ⟨record, hrecord, hrule⟩ := List.mem_filterMap.mp hrule
    obtain ⟨id, draft, _, rfl⟩ := IdSequence.exists_draft_of_mem_label hrecord
    cases draft with
    | cosmetic body => exact ⟨id, Option.some.inj hrule ▸ rfl⟩
    | _ => cases hrule
  scriptlets call hcall := by
    obtain ⟨record, hrecord, hcall⟩ := List.mem_filterMap.mp hcall
    obtain ⟨id, draft, _, rfl⟩ := IdSequence.exists_draft_of_mem_label hrecord
    cases draft with
    | scriptlet body => exact ⟨id, Option.some.inj hcall ▸ rfl⟩
    | _ => cases hcall

end Segment

end Blocklist
