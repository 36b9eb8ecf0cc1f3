import Blocklist.Assembly
import Mathlib.Data.List.Induction
import Mathlib.Data.List.Perm.Basic
import Mathlib.Data.List.Nodup

/-!
# What an assembly keeps

The rules left of an offer have distinct ids, all come from the offer, and are the whole sorted
offer cut to the budget as soon as the ids of the offer are distinct. Then it does not matter in which
order the lists are offered.

## Implementation notes

The walk that keeps the first rule of each id is described by what it does with one more rule at the
end, so that every law of it is an induction from the end of the list.
-/

namespace Blocklist

namespace Rule

/-- One step of the walk that keeps the first rule of every id. -/
def keepFirst (walk : Std.HashSet RuleId × List Rule) (rule : Rule) :
    Std.HashSet RuleId × List Rule :=
  if walk.1.contains rule.id then walk else (walk.1.insert rule.id, rule :: walk.2)

theorem firstOfEachId_eq (rules : List Rule) :
    firstOfEachId rules = (rules.foldl keepFirst (∅, [])).2.reverse :=
  rfl

/-- The walk has seen the ids of the rules it passed. -/
theorem contains_foldl_keepFirst (rules : List Rule) (walk : Std.HashSet RuleId × List Rule)
    (id : RuleId) :
    (rules.foldl keepFirst walk).1.contains id = true ↔
      walk.1.contains id = true ∨ id ∈ rules.map (·.id) := by
  induction rules generalizing walk with
  | nil => simp
  | cons rule rest ih =>
      rw [List.foldl_cons, ih]
      by_cases h : walk.1.contains rule.id = true
      · rw [keepFirst, if_pos h, List.map_cons, List.mem_cons]
        constructor
        · exact Or.imp_right Or.inr
        · rintro (hid | rfl | hid)
          · exact .inl hid
          · exact .inl h
          · exact .inr hid
      · rw [keepFirst, if_neg h]
        simp only [Std.HashSet.contains_insert, Bool.or_eq_true, beq_iff_eq, List.map_cons,
          List.mem_cons, eq_comm (a := rule.id)]
        tauto

@[simp] theorem firstOfEachId_nil : firstOfEachId [] = [] :=
  rfl

/-- One more rule at the end stays if its id is new. -/
theorem firstOfEachId_concat (rules : List Rule) (rule : Rule) :
    firstOfEachId (rules ++ [rule]) =
      if rule.id ∈ rules.map (·.id) then firstOfEachId rules
      else firstOfEachId rules ++ [rule] := by
  have hseen := contains_foldl_keepFirst rules (∅, []) rule.id
  simp only [Std.HashSet.contains_empty, Bool.false_eq_true, false_or] at hseen
  simp only [firstOfEachId_eq, List.foldl_append, List.foldl_cons, List.foldl_nil]
  by_cases h : rule.id ∈ rules.map (·.id)
  · rw [if_pos h, keepFirst, if_pos (hseen.mpr h)]
  · rw [if_neg h, keepFirst, if_neg (mt hseen.mp h), List.reverse_cons]

theorem firstOfEachId_sublist (rules : List Rule) : (firstOfEachId rules).Sublist rules := by
  induction rules using List.reverseRecOn with
  | nil => simp
  | append_singleton rules rule ih =>
      rw [firstOfEachId_concat]
      split
      · exact ih.trans (List.sublist_append_left _ _)
      · exact ih.append_right _

/-- No two rules that stay have one id. -/
theorem nodup_firstOfEachId (rules : List Rule) : ((firstOfEachId rules).map (·.id)).Nodup := by
  induction rules using List.reverseRecOn with
  | nil => simp
  | append_singleton rules rule ih =>
      rw [firstOfEachId_concat]
      split
      · exact ih
      · rename_i hnew
        rw [List.map_append, List.map_singleton]
        refine List.nodup_append.mpr ⟨ih, by simp, ?_⟩
        intro id hid id' hid' heq
        rw [List.mem_singleton] at hid'
        subst hid' heq
        exact hnew (((firstOfEachId_sublist rules).map _).subset hid)

/-- Rules with distinct ids all stay. -/
theorem firstOfEachId_eq_self {rules : List Rule} (h : (rules.map (·.id)).Nodup) :
    firstOfEachId rules = rules := by
  induction rules using List.reverseRecOn with
  | nil => simp
  | append_singleton rules rule ih =>
      rw [List.map_append, List.map_singleton] at h
      obtain ⟨hrules, _, hdisj⟩ := List.nodup_append.mp h
      have hnew : rule.id ∉ rules.map (·.id) := fun hid => hdisj _ hid _ (by simp) rfl
      rw [firstOfEachId_concat, if_neg hnew, ih hrules]

theorem sorted_perm (rules : List Rule) : (sorted rules).Perm rules :=
  List.mergeSort_perm rules precedes

theorem nodup_sorted {rules : List Rule} (h : (rules.map (·.id)).Nodup) :
    ((sorted rules).map (·.id)).Nodup :=
  ((sorted_perm rules).map _).nodup_iff.mpr h

/-! ### The order of the engine -/

/-- A rule stands in front of another one: it has a greater priority, or the same one and a smaller
id. -/
def Before (a b : Rule) : Prop :=
  b.priority < a.priority ∨ a.priority = b.priority ∧ a.id < b.id

instance : DecidableRel Before :=
  fun a b => inferInstanceAs
    (Decidable (b.priority < a.priority ∨ a.priority = b.priority ∧ a.id < b.id))

theorem precedes_iff {a b : Rule} :
    precedes a b = true ↔ b.priority < a.priority ∨ a.priority = b.priority ∧ a.id ≤ b.id := by
  simp [precedes]

theorem precedes_trans {a b c : Rule} (hab : precedes a b = true) (hbc : precedes b c = true) :
    precedes a c = true := by
  rw [precedes_iff] at *
  simp only [UInt32.lt_iff_toNat_lt, UInt32.le_iff_toNat_le, ← UInt32.toNat_inj] at *
  omega

theorem precedes_total (a b : Rule) : (precedes a b || precedes b a) = true := by
  rw [Bool.or_eq_true, precedes_iff, precedes_iff]
  simp only [UInt32.lt_iff_toNat_lt, UInt32.le_iff_toNat_le, ← UInt32.toNat_inj]
  omega

theorem Before.asymm {a b : Rule} (h : a.Before b) : ¬ b.Before a := by
  simp only [Before, UInt32.lt_iff_toNat_lt, ← UInt32.toNat_inj] at *
  omega

/-- Sorted rules stand in the order of the engine. -/
theorem pairwise_precedes_sorted (rules : List Rule) :
    (sorted rules).Pairwise fun a b => precedes a b = true :=
  have htrans : ∀ a b c : Rule, precedes a b = true → precedes b c = true → precedes a c = true :=
    fun _ _ _ => precedes_trans
  List.pairwise_mergeSort htrans precedes_total rules

/-- Rules in the order of the engine that have distinct ids are ordered strictly. -/
theorem pairwise_before_of_precedes {rules : List Rule}
    (h : rules.Pairwise fun a b => precedes a b = true) (hids : (rules.map (·.id)).Nodup) :
    rules.Pairwise Before := by
  rw [List.Nodup, List.pairwise_map] at hids
  refine h.imp₂ (fun a b hab hne => ?_) hids
  rw [precedes_iff] at hab
  rw [Before]
  simp only [UInt32.lt_iff_toNat_lt, UInt32.le_iff_toNat_le, ne_eq, ← UInt32.toNat_inj] at *
  omega

/-- Rules with distinct ids are sorted strictly. -/
theorem pairwise_before_sorted {rules : List Rule} (h : (rules.map (·.id)).Nodup) :
    (sorted rules).Pairwise Before :=
  pairwise_before_of_precedes (pairwise_precedes_sorted rules) (nodup_sorted h)

/-- The order in which rules are offered does not matter. -/
theorem sorted_eq_of_perm {rules rules' : List Rule} (h : (rules.map (·.id)).Nodup)
    (hperm : rules.Perm rules') : sorted rules = sorted rules' := by
  have h' : (rules'.map (·.id)).Nodup := (hperm.map _).nodup_iff.mp h
  have hsorted : (sorted rules).Perm (sorted rules') :=
    (sorted_perm rules).trans (hperm.trans (sorted_perm rules').symm)
  exact List.Perm.eq_of_pairwise (fun a b _ _ hab hba => absurd hba hab.asymm)
    (pairwise_before_sorted h) (pairwise_before_sorted h') hsorted

/-- The rules that an assembly keeps of an offer. -/
def chosen (offered : List Rule) (budget : Nat) : List Rule :=
  (firstOfEachId (sorted offered)).take budget

theorem nodup_ids_chosen (offered : List Rule) (budget : Nat) :
    ((chosen offered budget).map (·.id)).Nodup :=
  (nodup_firstOfEachId _).sublist ((List.take_sublist _ _).map _)

end Rule

/-- An assembly chooses among the rules of all lists. -/
theorem assemble_fst (lists : List (List Rule)) (budget : Nat) :
    (assemble lists budget).1 = Rule.chosen lists.flatten budget :=
  rfl

/-- The rules of an assembly have distinct ids. -/
theorem nodup_assemble (lists : List (List Rule)) (budget : Nat) :
    ((assemble lists budget).1.map (·.id)).Nodup :=
  Rule.nodup_ids_chosen _ _

/-- An assembly keeps the budget. -/
theorem length_assemble_le (lists : List (List Rule)) (budget : Nat) :
    (assemble lists budget).1.length ≤ budget := by
  rw [assemble]
  exact List.length_take_le _ _

/-- An assembly makes no rules of its own. -/
theorem mem_of_mem_assemble {lists : List (List Rule)} {budget : Nat} {rule : Rule}
    (h : rule ∈ (assemble lists budget).1) : rule ∈ lists.flatten := by
  have hunique := List.mem_of_mem_take h
  exact (Rule.sorted_perm _).mem_iff.mp ((Rule.firstOfEachId_sublist _).subset hunique)

/-- Rules with distinct ids are only sorted and cut. -/
theorem assemble_of_nodup {lists : List (List Rule)} (h : (lists.flatten.map (·.id)).Nodup)
    (budget : Nat) :
    (assemble lists budget).1 = Rule.prioritized lists.flatten budget ∧
      (assemble lists budget).2.duplicateIds = 0 := by
  have hself := Rule.firstOfEachId_eq_self (Rule.nodup_sorted h)
  constructor
  · simp only [assemble, hself, Rule.prioritized]
  · simp only [assemble, hself, (Rule.sorted_perm _).length_eq, Nat.sub_self]

/-- Rules with distinct ids can be spread over lists in any way: they are sorted and cut, and all that
is dropped is over budget. -/
theorem assemble_eq_of_flatten_perm {lists lists' : List (List Rule)}
    (h : (lists.flatten.map (·.id)).Nodup) (hperm : lists'.flatten.Perm lists.flatten)
    (budget : Nat) :
    assemble lists' budget =
      ((Rule.sorted lists.flatten).take budget,
        { before := lists.flatten.length
          after := min lists.flatten.length budget
          duplicateIds := 0
          overBudget := lists.flatten.length - budget }) := by
  have h' : (lists'.flatten.map (·.id)).Nodup := (hperm.map _).nodup_iff.mpr h
  have hsorted : Rule.sorted lists'.flatten = Rule.sorted lists.flatten :=
    Rule.sorted_eq_of_perm h' hperm
  have hlength : (Rule.sorted lists.flatten).length = lists.flatten.length :=
    (Rule.sorted_perm _).length_eq
  rw [assemble, Rule.firstOfEachId_eq_self (Rule.nodup_sorted h'), hsorted]
  simp only [List.length_take, hlength, hperm.length_eq, Nat.sub_self, Prod.mk.injEq,
    AssemblyStats.mk.injEq, true_and]
  omega

/-- Lists whose rules have distinct ids can be offered in any order. -/
theorem assemble_eq_of_perm {lists lists' : List (List Rule)} (h : (lists.flatten.map (·.id)).Nodup)
    (hperm : lists'.Perm lists) (budget : Nat) :
    assemble lists' budget =
      ((Rule.sorted lists.flatten).take budget,
        { before := lists.flatten.length
          after := min lists.flatten.length budget
          duplicateIds := 0
          overBudget := lists.flatten.length - budget }) :=
  assemble_eq_of_flatten_perm h hperm.flatten budget

/-- Rules with distinct ids that fit are all taken. -/
theorem assemble_perm {lists : List (List Rule)} (h : (lists.flatten.map (·.id)).Nodup)
    {budget : Nat} (hfits : lists.flatten.length ≤ budget) :
    (assemble lists budget).1.Perm lists.flatten := by
  have hlength : (Rule.sorted lists.flatten).length ≤ budget := by
    rwa [(Rule.sorted_perm _).length_eq]
  rw [(assemble_of_nodup h budget).1, Rule.prioritized, List.take_of_length_le hlength]
  exact Rule.sorted_perm _

end Blocklist
