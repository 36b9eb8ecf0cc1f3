import Blocklist.Proofs.Assembly
import Mathlib.Data.Finset.Card

/-!
# The best rules of an offer

Of every id in an offer, an assembly looks at one rule: of those with the greatest priority the
earliest one. Of these best rules it keeps the first ones in the order of the engine, as many as the
budget allows.

## Implementation notes

`Best` and `ahead` speak of the offer as it is: which rule stands for an id, and which ids have a rule
in front of a given one. `mem_chosen_iff` says by them which rules are kept, so that what follows opens
neither the sort nor the walk over the sorted rules.
-/

namespace Blocklist

namespace Rule

variable {offered rules : List Rule} {a b rule : Rule}

/-- Whether a rule has the id and the priority of another one, so that only their places in an offer
set them apart. -/
def ties (a b : Rule) : Bool :=
  b.id == a.id && b.priority == a.priority

theorem ties_iff : ties a b = true ↔ b.id = a.id ∧ b.priority = a.priority := by
  simp [ties]

@[simp] theorem ties_self (a : Rule) : ties a a = true := by
  simp [ties]

/-- Rules that tie tie with the same rules. -/
theorem ties_congr (h : ties a b = true) : ties b = ties a := by
  obtain ⟨hid, hpriority⟩ := ties_iff.mp h
  funext c
  rw [ties, ties, hid, hpriority]

/-- A rule stands for its id in an offer. -/
structure Best (offered : List Rule) (rule : Rule) : Prop where
  /-- No rule with its id has a greater priority. -/
  priority_le : ∀ r ∈ offered, r.id = rule.id → r.priority ≤ rule.priority
  /-- It is the earliest of the rules with its id and its priority. -/
  first : offered.find? (ties rule) = some rule

theorem Best.mem (h : Best offered rule) : rule ∈ offered :=
  List.mem_of_find?_eq_some h.first

/-- One rule stands for an id. -/
theorem Best.unique (ha : Best offered a) (hb : Best offered b) (hid : a.id = b.id) : a = b := by
  have hpriority : a.priority = b.priority :=
    UInt32.le_antisymm (hb.priority_le a ha.mem hid) (ha.priority_le b hb.mem hid.symm)
  have hties : ties b = ties a := ties_congr (ties_iff.mpr ⟨hid.symm, hpriority.symm⟩)
  have hfirst := ha.first
  rw [← hties, hb.first] at hfirst
  exact (Option.some.inj hfirst).symm

/-! ### The first rule of every id -/

/-- A rule is kept exactly if it is the first one with its id. -/
theorem mem_firstOfEachId_iff :
    rule ∈ firstOfEachId rules ↔ rules.find? (·.id == rule.id) = some rule := by
  induction rules using List.reverseRecOn with
  | nil => simp
  | append_singleton rules last ih =>
      rw [firstOfEachId_concat, List.find?_append]
      by_cases hold : rule.id ∈ rules.map (·.id)
      · -- The first rule with this id stands among the earlier ones.
        have hsome : (rules.find? (·.id == rule.id)).isSome = true := by
          simpa [List.find?_isSome] using hold
        obtain ⟨first, hfirst⟩ := Option.isSome_iff_exists.mp hsome
        rw [hfirst, Option.some_or, ← hfirst, ← ih]
        split
        · rfl
        · rename_i hnew
          rw [List.mem_append, List.mem_singleton, or_iff_left]
          rintro rfl
          exact hnew hold
      · have hnone : rules.find? (·.id == rule.id) = none := by
          rw [List.find?_eq_none]
          intro r hr hid
          exact hold (List.mem_map.mpr ⟨r, hr, by simpa using hid⟩)
        have hmem : rule ∉ firstOfEachId rules := fun h =>
          hold (List.mem_map_of_mem ((firstOfEachId_sublist rules).subset h))
        rw [hnone, Option.none_or, List.find?_singleton]
        split
        · rename_i hlast
          have hne : last.id ≠ rule.id := fun hid => hold (hid ▸ hlast)
          simp [hmem, hne]
        · rw [List.mem_append, List.mem_singleton, or_iff_right hmem]
          by_cases hid : last.id = rule.id
          · simp [hid, eq_comm]
          · have hne : rule ≠ last := fun h => hid (h ▸ rfl)
            simp [hid, hne]

/-! ### What the sort leaves in place -/

/-- Rules that tie keep their order. -/
theorem filter_ties_sorted (offered : List Rule) (rule : Rule) :
    (sorted offered).filter (ties rule) = offered.filter (ties rule) := by
  have htrans : ∀ a b c : Rule, precedes a b = true → precedes b c = true → precedes a c = true :=
    fun _ _ _ => precedes_trans
  have hpairwise : (offered.filter (ties rule)).Pairwise fun a b => precedes a b = true := by
    refine List.pairwise_of_forall_mem_list fun a ha b hb => ?_
    obtain ⟨hid, hpriority⟩ := ties_iff.mp (List.mem_filter.mp ha).2
    obtain ⟨hid', hpriority'⟩ := ties_iff.mp (List.mem_filter.mp hb).2
    rw [precedes_iff, hid, hid', hpriority, hpriority']
    exact .inr ⟨rfl, UInt32.le_refl _⟩
  have hsublist : (offered.filter (ties rule)).Sublist (sorted offered) :=
    List.sublist_mergeSort htrans precedes_total hpairwise List.filter_sublist
  have hties : (offered.filter (ties rule)).Sublist ((sorted offered).filter (ties rule)) := by
    have hfilter := hsublist.filter (ties rule)
    simpa only [List.filter_filter, Bool.and_self] using hfilter
  exact (hties.eq_of_length (((sorted_perm offered).filter _).length_eq.symm)).symm

theorem find?_ties_sorted (offered : List Rule) (rule : Rule) :
    (sorted offered).find? (ties rule) = offered.find? (ties rule) := by
  rw [← List.head?_filter, filter_ties_sorted, List.head?_filter]

/-- The first rule with an id in the order of the engine stands for its id. -/
theorem best_of_find?_sorted (h : (sorted offered).find? (·.id == rule.id) = some rule) :
    Best offered rule := by
  obtain ⟨-, front, rest, hsorted, hfront⟩ := List.find?_eq_some_iff_append.mp h
  constructor
  · intro r hr hid
    have hmem : r ∈ front ++ rule :: rest := hsorted ▸ (sorted_perm offered).mem_iff.mpr hr
    rcases List.mem_append.mp hmem with hr | hr
    · exact absurd hid (by simpa using hfront r hr)
    · rcases List.mem_cons.mp hr with rfl | hr
      · exact UInt32.le_refl _
      · have hpairwise := pairwise_precedes_sorted offered
        rw [hsorted, List.pairwise_append, List.pairwise_cons] at hpairwise
        have hprecedes := precedes_iff.mp (hpairwise.2.1.1 r hr)
        simp only [UInt32.lt_iff_toNat_lt, UInt32.le_iff_toNat_le, ← UInt32.toNat_inj] at *
        omega
  · rw [← find?_ties_sorted, List.find?_eq_some_iff_append]
    refine ⟨ties_self rule, front, rest, hsorted, fun r hr => ?_⟩
    have hid := hfront r hr
    simp only [Bool.not_eq_true', beq_eq_false_iff_ne] at hid
    simp [ties, hid]

/-- Some rule stands for every id in an offer. -/
theorem exists_best (h : rule ∈ offered) : ∃ best, Best offered best ∧ best.id = rule.id := by
  have hsome : ((sorted offered).find? (·.id == rule.id)).isSome = true := by
    rw [List.find?_isSome]
    exact ⟨rule, (sorted_perm offered).mem_iff.mpr h, by simp⟩
  obtain ⟨best, hbest⟩ := Option.isSome_iff_exists.mp hsome
  have hid : best.id = rule.id := by simpa using List.find?_some hbest
  exact ⟨best, best_of_find?_sorted (hid ▸ hbest), hid⟩

/-- Before the budget cuts, exactly the rules that stand for their ids are kept. -/
theorem mem_firstOfEachId_sorted_iff :
    rule ∈ firstOfEachId (sorted offered) ↔ Best offered rule := by
  rw [mem_firstOfEachId_iff]
  refine ⟨best_of_find?_sorted, fun h => ?_⟩
  have hsome : ((sorted offered).find? (·.id == rule.id)).isSome = true := by
    rw [List.find?_isSome]
    exact ⟨rule, (sorted_perm offered).mem_iff.mpr h.mem, by simp⟩
  obtain ⟨best, hbest⟩ := Option.isSome_iff_exists.mp hsome
  have hid : best.id = rule.id := by simpa using List.find?_some hbest
  rw [hbest, (best_of_find?_sorted (hid ▸ hbest)).unique h hid]

/-! ### What the budget leaves -/

/-- The ids in an offer that have a rule in front of a given one. -/
def ahead (offered : List Rule) (rule : Rule) : Finset RuleId :=
  ((offered.filter fun r => r.Before rule).map (·.id)).toFinset

theorem mem_ahead_iff {id : RuleId} :
    id ∈ ahead offered rule ↔ ∃ r ∈ offered, r.Before rule ∧ r.id = id := by
  simp [ahead, and_assoc]

/-- The best rules of an offer are strictly ordered. -/
theorem pairwise_before_firstOfEachId_sorted (offered : List Rule) :
    (firstOfEachId (sorted offered)).Pairwise Before :=
  pairwise_before_of_precedes
    ((pairwise_precedes_sorted offered).sublist (firstOfEachId_sublist _)) (nodup_firstOfEachId _)

theorem pairwise_before_chosen (offered : List Rule) (budget : Nat) :
    (chosen offered budget).Pairwise Before :=
  (pairwise_before_firstOfEachId_sorted offered).sublist (List.take_sublist _ _)

theorem best_of_mem_chosen {budget : Nat} (h : rule ∈ chosen offered budget) :
    Best offered rule :=
  mem_firstOfEachId_sorted_iff.mp (List.mem_of_mem_take h)

/-- A rule that stands for its id is left out only behind as many rules as the budget allows. -/
theorem crowded_out {budget : Nat} (hbest : Best offered rule) (h : rule ∉ chosen offered budget) :
    (chosen offered budget).length = budget ∧ ∀ r ∈ chosen offered budget, r.Before rule := by
  have hmem := mem_firstOfEachId_sorted_iff.mpr hbest
  rw [← List.take_append_drop budget (firstOfEachId (sorted offered)), List.mem_append] at hmem
  have hdrop := hmem.resolve_left h
  constructor
  · have hpos := List.length_pos_of_mem hdrop
    rw [List.length_drop] at hpos
    rw [chosen, List.length_take]
    omega
  · have hpairwise := pairwise_before_firstOfEachId_sorted offered
    rw [← List.take_append_drop budget (firstOfEachId (sorted offered)),
      List.pairwise_append] at hpairwise
    exact fun r hr => hpairwise.2.2 r hr rule hdrop

/-- Rules with distinct ids that stand in front of a rule have their ids ahead of it. -/
theorem length_le_card_ahead (hids : (rules.map (·.id)).Nodup) (hmem : ∀ r ∈ rules, r ∈ offered)
    (hbefore : ∀ r ∈ rules, r.Before rule) : rules.length ≤ (ahead offered rule).card := by
  have hsubset : (rules.map (·.id)).toFinset ⊆ ahead offered rule := by
    intro id hid
    obtain ⟨r, hr, rfl⟩ := List.mem_map.mp (List.mem_toFinset.mp hid)
    exact mem_ahead_iff.mpr ⟨r, hmem r hr, hbefore r hr, rfl⟩
  calc
    rules.length = (rules.map (·.id)).toFinset.card := by
      rw [List.toFinset_card_of_nodup hids, List.length_map]
    _ ≤ (ahead offered rule).card := Finset.card_le_card hsubset

/-- The rule that stands for an id comes as early as any rule with the id. -/
theorem Best.before {best r : Rule} (h : Best offered best) (hr : r ∈ offered) (hid : best.id = r.id)
    (hbefore : r.Before rule) : best.Before rule := by
  have hpriority := h.priority_le r hr hid.symm
  rw [Before] at *
  rw [hid]
  simp only [UInt32.lt_iff_toNat_lt, UInt32.le_iff_toNat_le, ← UInt32.toNat_inj] at *
  omega

theorem Before.trans {c : Rule} (hab : a.Before b) (hbc : b.Before c) : a.Before c := by
  rw [Before] at *
  simp only [UInt32.lt_iff_toNat_lt, ← UInt32.toNat_inj] at *
  omega

/-- As many ids are ahead of a best rule as best rules stand in front of it. -/
theorem card_ahead {front rest : List Rule}
    (h : firstOfEachId (sorted offered) = front ++ rule :: rest) :
    (ahead offered rule).card = front.length := by
  have hpairwise := pairwise_before_firstOfEachId_sorted offered
  have hids := nodup_firstOfEachId (sorted offered)
  rw [h, List.pairwise_append, List.pairwise_cons] at hpairwise
  rw [h, List.map_append] at hids
  obtain ⟨-, ⟨hrest, -⟩, hfront⟩ := hpairwise
  have hset : ahead offered rule = (front.map (·.id)).toFinset := by
    ext id
    rw [mem_ahead_iff, List.mem_toFinset, List.mem_map]
    constructor
    · rintro ⟨r, hr, hbefore, rfl⟩
      obtain ⟨best, hbest, hid⟩ := exists_best hr
      have hbefore' := hbest.before hr hid hbefore
      have hmem := mem_firstOfEachId_sorted_iff.mpr hbest
      rw [h, List.mem_append, List.mem_cons] at hmem
      rcases hmem with hmem | rfl | hmem
      · exact ⟨best, hmem, hid⟩
      · exact absurd hbefore' hbefore'.asymm
      · exact absurd (hrest best hmem) hbefore'.asymm
    · rintro ⟨r, hr, rfl⟩
      have hmem : r ∈ firstOfEachId (sorted offered) := h ▸ List.mem_append_left _ hr
      exact ⟨r, (mem_firstOfEachId_sorted_iff.mp hmem).mem, hfront r hr rule List.mem_cons_self, rfl⟩
  rw [hset, List.toFinset_card_of_nodup (List.nodup_append.mp hids).1, List.length_map]

/-- A rule is kept exactly if it stands for its id and fewer ids are ahead of it than the budget
allows. -/
theorem mem_chosen_iff {budget : Nat} :
    rule ∈ chosen offered budget ↔ Best offered rule ∧ (ahead offered rule).card < budget := by
  constructor
  · intro h
    have hbest := best_of_mem_chosen h
    obtain ⟨front, rest, hsplit⟩ := List.append_of_mem (mem_firstOfEachId_sorted_iff.mpr hbest)
    refine ⟨hbest, ?_⟩
    rw [card_ahead hsplit]
    by_contra hcut
    have hids := nodup_firstOfEachId (sorted offered)
    rw [chosen, hsplit, List.take_append_of_le_length (by omega)] at h
    rw [hsplit, List.map_append, List.map_cons] at hids
    exact (List.nodup_append.mp hids).2.2 rule.id
      (List.mem_map_of_mem (List.mem_of_mem_take h)) rule.id List.mem_cons_self rfl
  · rintro ⟨hbest, hcard⟩
    by_contra hout
    obtain ⟨hlength, hbefore⟩ := crowded_out hbest hout
    have hle := length_le_card_ahead (nodup_ids_chosen offered budget)
      (fun r hr => (best_of_mem_chosen hr).mem) hbefore
    omega

/-- There are as many best rules as ids in the offer. -/
theorem length_firstOfEachId_sorted (offered : List Rule) :
    (firstOfEachId (sorted offered)).length = (offered.map (·.id)).toFinset.card := by
  have hset : (offered.map (·.id)).toFinset =
      ((firstOfEachId (sorted offered)).map (·.id)).toFinset := by
    ext id
    simp only [List.mem_toFinset, List.mem_map]
    constructor
    · rintro ⟨r, hr, rfl⟩
      obtain ⟨best, hbest, hid⟩ := exists_best hr
      exact ⟨best, mem_firstOfEachId_sorted_iff.mpr hbest, hid⟩
    · rintro ⟨best, hbest, rfl⟩
      exact ⟨best, (mem_firstOfEachId_sorted_iff.mp hbest).mem, rfl⟩
  rw [hset, List.toFinset_card_of_nodup (nodup_firstOfEachId _), List.length_map]

end Rule

/-- **What an assembly keeps.** Whatever lists are offered, with whatever ids: the kept rules are
strictly ordered, the greater priority first and then the smaller id, and no two have one id. Each has
the greatest priority of all offered rules with its id, and is the earliest of those. Where all rules
of an id are left out, the one that stands for it comes after every kept rule, and the budget is used
up. As many rules are kept as there are ids, up to the budget, and the counts add up. -/
theorem assemble_keeps_best (lists : List (List Rule)) (budget : Nat) :
    let offered := lists.flatten
    let ids := (offered.map (·.id)).toFinset
    let kept := (assemble lists budget).1
    let stats := (assemble lists budget).2
    (kept.Pairwise Rule.Before ∧ (kept.map (·.id)).Nodup) ∧
    (∀ rule ∈ kept, Rule.Best offered rule) ∧
    (∀ id ∈ ids, id ∉ kept.map (·.id) →
      kept.length = budget ∧
        ∃ best, Rule.Best offered best ∧ best.id = id ∧ ∀ rule ∈ kept, rule.Before best) ∧
    kept.length = min budget ids.card ∧
    stats.before = offered.length ∧ stats.after = kept.length ∧
    stats.before = stats.after + stats.duplicateIds + stats.overBudget ∧
    stats.duplicateIds + ids.card = offered.length := by
  intro offered ids kept stats
  have hunique : (Rule.firstOfEachId (Rule.sorted offered)).length = ids.card :=
    Rule.length_firstOfEachId_sorted offered
  have hlength : kept.length = min budget ids.card := by
    rw [← hunique]
    exact List.length_take
  have hle : ids.card ≤ offered.length := by
    rw [← hunique, ← (Rule.sorted_perm offered).length_eq]
    exact (Rule.firstOfEachId_sublist _).length_le
  have hduplicates : stats.duplicateIds = offered.length - ids.card := by
    rw [← hunique]
    rfl
  have hover : stats.overBudget = ids.card - kept.length := by
    rw [← hunique]
    rfl
  have hbefore : stats.before = offered.length := rfl
  have hafter : stats.after = kept.length := rfl
  refine ⟨⟨Rule.pairwise_before_chosen _ _, Rule.nodup_ids_chosen _ _⟩,
    fun rule hrule => Rule.best_of_mem_chosen hrule, fun id hid hout => ?_, hlength, hbefore, hafter,
    by omega, by omega⟩
  obtain ⟨r, hr, rfl⟩ := List.mem_map.mp (List.mem_toFinset.mp hid)
  obtain ⟨best, hbest, hid⟩ := Rule.exists_best hr
  have hcut : best ∉ kept := fun hmem => hout (hid ▸ List.mem_map_of_mem hmem)
  obtain ⟨hfull, hbefore⟩ := Rule.crowded_out hbest hcut
  exact ⟨hfull, best, hbest, hid, hbefore⟩

end Blocklist
