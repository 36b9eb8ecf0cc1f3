import Blocklist.Proofs.BestRules
import Mathlib.Data.List.Permutation

/-!
# The arrangement of an offer

As long as ids are distinct, the order of the engine tells any two rules apart, so it makes no
difference how rules are spread over lists and in which order they come: an assembly keeps the same
ones, sorts them as a plain sort does, and a smaller budget only cuts off more of its end. Where ids
repeat, a plain sort leaves rules that tie as they came, and so there is one way to sort.

## Implementation notes

That rules which tie stay as they came is said of all of them at once: for every rule, those that tie
with it are the same list before and after (`Arranges.stable`).
-/

namespace Blocklist

namespace Rule

variable {rules arranged arranged' : List Rule} {a b : Rule}

theorem precedes_iff_not_before : precedes a b = true ↔ ¬ b.Before a := by
  rw [precedes_iff, Before]
  simp only [UInt32.lt_iff_toNat_lt, UInt32.le_iff_toNat_le, ← UInt32.toNat_inj]
  omega

/-- Rules that the order of the engine does not tell apart tie. -/
theorem ties_of_not_before (hab : ¬ a.Before b) (hba : ¬ b.Before a) : ties a b = true := by
  rw [ties_iff]
  simp only [Before, UInt32.lt_iff_toNat_lt, ← UInt32.toNat_inj] at *
  omega

/-- A list has the rules of another one, in the order of the engine, and those that tie as they
came. -/
structure Arranges (rules arranged : List Rule) : Prop where
  perm : arranged.Perm rules
  /-- No rule stands behind one that it is to stand in front of. -/
  ordered : arranged.Pairwise fun a b => ¬ b.Before a
  stable : ∀ rule, arranged.filter (ties rule) = rules.filter (ties rule)

theorem arranges_sorted (rules : List Rule) : Arranges rules (sorted rules) where
  perm := sorted_perm rules
  ordered := (pairwise_precedes_sorted rules).imp precedes_iff_not_before.mp
  stable := filter_ties_sorted rules

/-- Two ordered lists of the same rules begin with rules that tie. -/
theorem ties_head {xs ys : List Rule} (hperm : (a :: xs).Perm (b :: ys))
    (hx : (a :: xs).Pairwise fun a b => ¬ b.Before a)
    (hy : (b :: ys).Pairwise fun a b => ¬ b.Before a) : ties a b = true := by
  have ha : a ∈ b :: ys := hperm.mem_iff.mp List.mem_cons_self
  have hb : b ∈ a :: xs := hperm.mem_iff.mpr List.mem_cons_self
  rcases List.mem_cons.mp ha with rfl | ha
  · exact ties_self a
  · rcases List.mem_cons.mp hb with rfl | hb
    · exact ties_self b
    · exact ties_of_not_before ((List.pairwise_cons.mp hy).1 a ha) ((List.pairwise_cons.mp hx).1 b hb)

/-- Two ordered lists of the same rules, with those that tie in one order, are the same list. -/
theorem eq_of_ordered {xs ys : List Rule} (hperm : xs.Perm ys)
    (hx : xs.Pairwise fun a b => ¬ b.Before a) (hy : ys.Pairwise fun a b => ¬ b.Before a)
    (hties : ∀ rule, xs.filter (ties rule) = ys.filter (ties rule)) : xs = ys := by
  induction xs generalizing ys with
  | nil => exact hperm.nil_eq
  | cons x xs ih =>
      cases ys with
      | nil => exact absurd hperm.symm.nil_eq (List.cons_ne_nil x xs).symm
      | cons y ys =>
          have hhead := hties x
          rw [List.filter_cons_of_pos (ties_self x),
            List.filter_cons_of_pos (ties_head hperm hx hy)] at hhead
          obtain rfl : x = y := (List.cons.inj hhead).1
          have hrest : ∀ rule, xs.filter (ties rule) = ys.filter (ties rule) := by
            intro rule
            have hrule := hties rule
            by_cases hx : ties rule x = true
            · rw [List.filter_cons_of_pos hx, List.filter_cons_of_pos hx] at hrule
              exact (List.cons.inj hrule).2
            · rwa [List.filter_cons_of_neg hx, List.filter_cons_of_neg hx] at hrule
          rw [ih hperm.cons_inv hx.of_cons hy.of_cons hrest]

/-- There is one way to arrange rules. -/
theorem Arranges.unique (h : Arranges rules arranged) (h' : Arranges rules arranged') :
    arranged = arranged' :=
  eq_of_ordered (h.perm.trans h'.perm.symm) h.ordered h'.ordered fun rule =>
    (h.stable rule).trans (h'.stable rule).symm

end Rule

/-- **The arrangement of an offer.** Rules with distinct ids, however they are spread over lists and
ordered, are assembled to the same set with the same counts. It is what a plain sort of them keeps, and
the beginning of what is kept with any greater budget. A plain sort keeps the beginning of the one
arrangement of its rules, whatever their ids: as many as there are, or as the budget allows. -/
theorem assembly_ignores_arrangement :
    (∀ (lists lists' : List (List Rule)) (budget : Nat),
      (lists.flatten.map (·.id)).Nodup → lists'.flatten.Perm lists.flatten →
        assemble lists' budget = assemble lists budget ∧
          (assemble lists budget).1 = Rule.prioritized lists.flatten budget ∧
          ∀ budget', budget ≤ budget' → (assemble lists budget).1 <+: (assemble lists budget').1) ∧
    ∀ (rules : List Rule) (budget : Nat),
      (∃ arranged, Rule.Arranges rules arranged) ∧
        ∀ arranged, Rule.Arranges rules arranged →
          Rule.prioritized rules budget = arranged.take (min budget rules.length) := by
  constructor
  · intro lists lists' budget hids hperm
    have hself := assemble_eq_of_flatten_perm hids (List.Perm.refl _)
    refine ⟨?_, (assemble_of_nodup hids budget).1, fun budget' hle => ?_⟩
    · rw [assemble_eq_of_flatten_perm hids hperm, hself]
    · rw [hself, hself]
      exact List.take_prefix_take_left hle
  · intro rules budget
    refine ⟨⟨_, Rule.arranges_sorted rules⟩, fun arranged harranged => ?_⟩
    have hlength : arranged.length = rules.length := harranged.perm.length_eq
    rw [Rule.prioritized, (Rule.arranges_sorted rules).unique harranged, ← hlength,
      ← List.take_take, List.take_length]

/-- Three rules in two arrangements, two of them of equal priority, and two rules that tie. -/
theorem assembly_ignores_arrangement_sample :
    let rule (id : RuleId) (priority : UInt32) : Rule := { (default : Rule) with id, priority }
    let lists := [[rule 3 1, rule 1 1], [rule 2 100]]
    let lists' := [[rule 2 100], [], [rule 1 1, rule 3 1]]
    let allowing : Rule := { rule 1 1 with action := ⟨.allow⟩ }
    (lists.flatten.map (·.id)).Nodup ∧ lists'.flatten.Perm lists.flatten ∧
      assemble lists' 2 = assemble lists 2 ∧ (assemble lists 2).1 = [rule 2 100, rule 1 1] ∧
      (assemble lists 2).1 <+: (assemble lists 3).1 ∧
      Rule.prioritized [rule 2 1, allowing, rule 1 1] 2 = [allowing, rule 1 1] := by
  intro rule lists lists' allowing
  have hids : (lists.flatten.map (·.id)).Nodup := by decide
  have hperm : lists'.flatten.Perm lists.flatten := by decide
  obtain ⟨hdistinct, hplain⟩ := assembly_ignores_arrangement
  obtain ⟨hsame, hsorted, hprefix⟩ := hdistinct lists lists' 2 hids hperm
  have harranges : Rule.Arranges [rule 2 1, allowing, rule 1 1] [allowing, rule 1 1, rule 2 1] := by
    have hsorted : Rule.sorted [rule 2 1, allowing, rule 1 1] = [allowing, rule 1 1, rule 2 1] := by
      cbv
    exact hsorted ▸ Rule.arranges_sorted _
  refine ⟨hids, hperm, hsame, ?_, hprefix 3 (by decide), ?_⟩
  · rw [hsorted]
    cbv
  · rw [(hplain _ 2).2 _ harranges]
    rfl

end Blocklist
