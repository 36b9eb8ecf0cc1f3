import Blocklist.Proofs.BestRules

/-!
# Assembly in stages

Rules may be assembled group by group, and what is kept of the groups once more, with the budget of the
whole: the same rules are kept as when all are assembled at once. A rule that its group cuts off has a
full budget of rules in front of it there, with as many ids, and so has no place in the whole.

## Implementation notes

One group at a time is replaced by what is kept of it, with the rest of the offer around it
(`chosen_replace`); `chosen_flatten` is the induction over the groups.
-/

namespace Blocklist

namespace Rule

variable {front part back offered : List Rule} {rule : Rule} {budget : Nat}

/-- Of rules with distinct ids, each one is the only one that ties with itself. -/
theorem find?_ties_of_mem {rules : List Rule} (hids : (rules.map (·.id)).Nodup) (h : rule ∈ rules) :
    rules.find? (ties rule) = some rule := by
  have hsome : (rules.find? (ties rule)).isSome = true := by
    rw [List.find?_isSome]
    exact ⟨rule, h, ties_self rule⟩
  obtain ⟨r, hr⟩ := Option.isSome_iff_exists.mp hsome
  have hid : r.id = rule.id := (ties_iff.mp (List.find?_some hr)).1
  rw [hr, List.inj_on_of_nodup_map hids (List.mem_of_find?_eq_some hr) h hid]

theorem mem_of_mem_chosen (h : rule ∈ chosen offered budget) : rule ∈ offered :=
  (best_of_mem_chosen h).mem

/-- No rule is added to an offer when a part of it is replaced by what is kept of it. -/
theorem mem_of_mem_replaced (h : rule ∈ front ++ chosen part budget ++ back) :
    rule ∈ front ++ part ++ back := by
  simp only [List.mem_append] at h ⊢
  exact h.imp_left (Or.imp_right mem_of_mem_chosen)

theorem mem_replaced (h : rule ∈ chosen part budget) :
    rule ∈ front ++ chosen part budget ++ back :=
  List.mem_append_left _ (List.mem_append_right _ h)

theorem ahead_mono {offered' : List Rule} (h : ∀ r ∈ offered, r ∈ offered') :
    ahead offered rule ⊆ ahead offered' rule := by
  intro id hid
  obtain ⟨r, hr, hbefore, rfl⟩ := mem_ahead_iff.mp hid
  exact mem_ahead_iff.mpr ⟨r, h r hr, hbefore, rfl⟩

/-- A best rule of a part is kept of it if it comes no later than a rule that fewer ids are ahead of
than the budget allows: what would crowd it out is in the whole offer too. -/
theorem mem_chosen_of_card_ahead {r : Rule} (hbest : Best part r)
    (hmem : ∀ c ∈ chosen part budget, c ∈ offered) (hbefore : ∀ c : Rule, c.Before r → c.Before rule)
    (hcard : (ahead offered rule).card < budget) : r ∈ chosen part budget := by
  by_contra hout
  obtain ⟨hlength, hfront⟩ := crowded_out hbest hout
  have hle := length_le_card_ahead (nodup_ids_chosen part budget) hmem fun c hc =>
    hbefore c (hfront c hc)
  omega

/-- A rule of which no greater priority is in the whole offer, and which fewer ids are ahead of than
the budget allows, finds the rule it ties with in a part also among what is kept of the part. -/
theorem find?_ties_chosen (hpriority : ∀ r ∈ part, r.id = rule.id → r.priority ≤ rule.priority)
    (hmem : ∀ c ∈ chosen part budget, c ∈ offered) (hcard : (ahead offered rule).card < budget) :
    (chosen part budget).find? (ties rule) = part.find? (ties rule) := by
  cases hfind : part.find? (ties rule) with
  | none =>
      rw [List.find?_eq_none] at hfind ⊢
      exact fun r hr => hfind r (mem_of_mem_chosen hr)
  | some r =>
      have hties := List.find?_some hfind
      obtain ⟨hid, heq⟩ := ties_iff.mp hties
      have hbest : Best part r :=
        ⟨fun r' hr' hid' => heq ▸ hpriority r' hr' (hid'.trans hid), by rwa [ties_congr hties]⟩
      have hbefore : ∀ c : Rule, c.Before r → c.Before rule := fun c hc => by
        rwa [Before, hid, heq] at hc
      have hkept := mem_chosen_of_card_ahead hbest hmem hbefore hcard
      rw [← ties_congr hties]
      exact find?_ties_of_mem (nodup_ids_chosen part budget) hkept

/-- So it stands for its id in the one offer if it does in the other. -/
theorem find?_ties_replaced
    (hpriority : ∀ r ∈ front ++ part ++ back, r.id = rule.id → r.priority ≤ rule.priority)
    (hmem : ∀ c ∈ chosen part budget, c ∈ offered) (hcard : (ahead offered rule).card < budget) :
    (front ++ chosen part budget ++ back).find? (ties rule) =
      (front ++ part ++ back).find? (ties rule) := by
  have hpart : ∀ r ∈ part, r.id = rule.id → r.priority ≤ rule.priority := fun r hr =>
    hpriority r (List.mem_append_left _ (List.mem_append_right _ hr))
  simp only [List.find?_append, find?_ties_chosen hpart hmem hcard]

/-- The ids ahead of a rule in the whole offer are ahead of it also once a part is replaced by what is
kept of it, unless they are too many. -/
theorem ahead_subset_replaced
    (hcard : (ahead (front ++ chosen part budget ++ back) rule).card < budget) :
    ahead (front ++ part ++ back) rule ⊆ ahead (front ++ chosen part budget ++ back) rule := by
  intro id hid
  obtain ⟨r, hr, hbefore, rfl⟩ := mem_ahead_iff.mp hid
  simp only [List.mem_append] at hr
  obtain (hr | hr) | hr := hr
  · exact mem_ahead_iff.mpr ⟨r, by simp [hr], hbefore, rfl⟩
  · obtain ⟨best, hbest, hid⟩ := exists_best hr
    have hbest' := hbest.before hr hid hbefore
    have hkept := mem_chosen_of_card_ahead hbest (fun c => mem_replaced)
      (fun c hc => hc.trans hbest') hcard
    exact mem_ahead_iff.mpr ⟨best, mem_replaced hkept, hbest', hid⟩
  · exact mem_ahead_iff.mpr ⟨r, by simp [hr], hbefore, rfl⟩

/-- The same rules are kept of an offer when a part of it is replaced by what is kept of the part. -/
theorem mem_chosen_replace_iff :
    rule ∈ chosen (front ++ chosen part budget ++ back) budget ↔
      rule ∈ chosen (front ++ part ++ back) budget := by
  simp only [mem_chosen_iff]
  constructor
  · rintro ⟨hbest, hcard⟩
    have hahead := ahead_subset_replaced hcard
    have hpriority : ∀ r ∈ front ++ part ++ back, r.id = rule.id → r.priority ≤ rule.priority := by
      intro r hr hid
      by_contra hgreater
      have hbefore : r.Before rule := .inl (UInt32.not_le.mp hgreater)
      -- A greater priority would be seen in the replaced offer too.
      obtain ⟨r', hr', hbefore', hid'⟩ :=
        mem_ahead_iff.mp (hahead (mem_ahead_iff.mpr ⟨r, hr, hbefore, rfl⟩))
      have hle := hbest.priority_le r' hr' (hid'.trans hid)
      rw [Before] at hbefore'
      simp only [UInt32.lt_iff_toNat_lt, UInt32.le_iff_toNat_le, ← UInt32.toNat_inj] at *
      omega
    refine ⟨⟨hpriority, ?_⟩, (Finset.card_le_card hahead).trans_lt hcard⟩
    rw [← find?_ties_replaced hpriority (fun c => mem_replaced) hcard]
    exact hbest.first
  · rintro ⟨hbest, hcard⟩
    have hmem : ∀ c ∈ chosen part budget, c ∈ front ++ part ++ back := fun c hc =>
      mem_of_mem_replaced (mem_replaced hc)
    refine ⟨⟨fun r hr => hbest.priority_le r (mem_of_mem_replaced hr), ?_⟩, ?_⟩
    · rw [find?_ties_replaced hbest.priority_le hmem hcard]
      exact hbest.first
    · exact (Finset.card_le_card (ahead_mono fun r hr => mem_of_mem_replaced hr)).trans_lt hcard

/-- Kept rules are determined by their members, for their order is strict. -/
theorem chosen_eq_of_mem_iff {offered' : List Rule} {budget' : Nat}
    (h : ∀ r, r ∈ chosen offered budget ↔ r ∈ chosen offered' budget') :
    chosen offered budget = chosen offered' budget' := by
  have hperm : (chosen offered budget).Perm (chosen offered' budget') :=
    (List.perm_ext_iff_of_nodup (nodup_ids_chosen _ _).of_map (nodup_ids_chosen _ _).of_map).mpr h
  exact List.Perm.eq_of_pairwise (fun a b _ _ hab hba => absurd hba hab.asymm)
    (pairwise_before_chosen _ _) (pairwise_before_chosen _ _) hperm

theorem chosen_replace (front part back : List Rule) (budget : Nat) :
    chosen (front ++ chosen part budget ++ back) budget = chosen (front ++ part ++ back) budget :=
  chosen_eq_of_mem_iff fun _ => mem_chosen_replace_iff

/-- The same rules are kept of what is kept of several parts as of the parts themselves. -/
theorem chosen_flatten (front : List Rule) (parts : List (List Rule)) (budget : Nat) :
    chosen (front ++ (parts.map fun part => chosen part budget).flatten) budget =
      chosen (front ++ parts.flatten) budget := by
  induction parts generalizing front with
  | nil => rfl
  | cons part rest ih =>
      calc
        _ = chosen ((front ++ chosen part budget) ++
              (rest.map fun part => chosen part budget).flatten) budget := by
          rw [List.map_cons, List.flatten_cons, List.append_assoc]
        _ = chosen (front ++ chosen part budget ++ rest.flatten) budget := ih _
        _ = chosen (front ++ part ++ rest.flatten) budget := chosen_replace _ _ _ _
        _ = _ := by rw [List.flatten_cons, List.append_assoc]

end Rule

/-- **Assembly in stages.** However lists are grouped, assembling every group and then what is kept of
the groups, in their order and with the same budget, keeps the same rules as assembling all lists at
once; an assembled set that is assembled again stays as it is. -/
theorem staged_assembly (budget : Nat) :
    (∀ groups : List (List (List Rule)),
      (assemble (groups.map fun lists => (assemble lists budget).1) budget).1 =
        (assemble groups.flatten budget).1) ∧
    ∀ lists : List (List Rule),
      (assemble [(assemble lists budget).1] budget).1 = (assemble lists budget).1 := by
  constructor
  · intro groups
    have hstaged := Rule.chosen_flatten [] (groups.map List.flatten) budget
    simp only [List.nil_append, List.map_map] at hstaged
    rw [assemble_fst, assemble_fst, List.flatten_flatten]
    exact hstaged
  · intro lists
    have hagain := Rule.chosen_replace [] lists.flatten [] budget
    simp only [List.nil_append, List.append_nil] at hagain
    rw [assemble_fst, assemble_fst, List.flatten_singleton]
    exact hagain

end Blocklist
