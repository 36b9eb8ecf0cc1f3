import Blocklist.Filter.Line
import Mathlib.Algebra.BigOperators.Group.List.Basic

/-!
# Lines counted one by one

The counts of a list are those of its lines, each line under one counter. A counter has 64 bits, so
it stands at the number of its lines up to multiples of `2 ^ 64`, and at that number itself as long
as there are fewer lines.

## Implementation notes

A tally is a number of any size for each counter. What holds of tallies is arithmetic of natural
numbers, and `LineStats.ofTally` carries it over to the counts.
-/

namespace Blocklist

/-- The counters of lines. -/
inductive Counter where
  | comments
  | networkRules
  | exceptions
  | cosmeticRules
  | scriptlets
  | invalid
  deriving DecidableEq, Repr

namespace LineStats

/-! ### Sums of counts -/

theorem add_eq (a b : LineStats) : a + b = a.add b :=
  rfl

theorem zero_add (a : LineStats) : zero + a = a := by
  simp [add_eq, add, zero]

theorem add_zero (a : LineStats) : a + zero = a := by
  simp [add_eq, add, zero]

theorem add_assoc (a b c : LineStats) : a + b + c = a + (b + c) := by
  simp [add_eq, add, UInt64.add_assoc]

instance : Std.Associative (fun a b : LineStats => a + b) :=
  ⟨add_assoc⟩

theorem sum_nil : sum [] = zero :=
  rfl

theorem sum_cons (s : LineStats) (rest : List LineStats) : sum (s :: rest) = s + sum rest :=
  calc
    sum (s :: rest) = rest.foldl (· + ·) (zero + s) := rfl
    _ = rest.foldl (· + ·) (s + zero) := by rw [zero_add, add_zero]
    _ = s + sum rest := List.foldl_assoc

theorem sum_append (front back : List LineStats) : sum (front ++ back) = sum front + sum back := by
  induction front with
  | nil => rw [List.nil_append, sum_nil, zero_add]
  | cons s rest ih => rw [List.cons_append, sum_cons, sum_cons, ih, add_assoc]

theorem classified_add (a b : LineStats) : (a + b).classified = a.classified + b.classified := by
  simp only [add_eq, classified, add]
  ac_rfl

/-! ### Tallies -/

/-- The counts of lines that are as many for each counter as a tally says. -/
def ofTally (n : Counter → Nat) : LineStats where
  total := .ofNat (n .networkRules + n .cosmeticRules + n .scriptlets + n .exceptions + n .invalid)
  networkRules := .ofNat (n .networkRules)
  cosmeticRules := .ofNat (n .cosmeticRules)
  scriptlets := .ofNat (n .scriptlets)
  exceptions := .ofNat (n .exceptions)
  comments := .ofNat (n .comments)
  invalid := .ofNat (n .invalid)

/-- The counts of one line under a counter. -/
def one (counter : Counter) : LineStats :=
  ofTally fun k => if k = counter then 1 else 0

theorem ofTally_add (m n : Counter → Nat) : ofTally (m + n) = ofTally m + ofTally n := by
  simp only [add_eq, add, ofTally, Pi.add_apply, mk.injEq, ← UInt64.ofNat_add, and_true]
  apply congrArg UInt64.ofNat
  omega

/-- The counters of records and of rejected lines come to the total. -/
theorem classified_ofTally (n : Counter → Nat) : (ofTally n).classified = (ofTally n).total := by
  simp only [classified, ofTally, UInt64.ofNat_add]

/-- Before the counters run over, each stands at its tally and none of their sums runs over. -/
theorem toNat_ofTally {n : Counter → Nat}
    (h : n .comments + (n .networkRules + n .cosmeticRules + n .scriptlets + n .exceptions +
      n .invalid) < UInt64.size) :
    (ofTally n).total.toNat =
        n .networkRules + n .cosmeticRules + n .scriptlets + n .exceptions + n .invalid ∧
      (ofTally n).networkRules.toNat = n .networkRules ∧
      (ofTally n).cosmeticRules.toNat = n .cosmeticRules ∧
      (ofTally n).scriptlets.toNat = n .scriptlets ∧
      (ofTally n).exceptions.toNat = n .exceptions ∧
      (ofTally n).comments.toNat = n .comments ∧
      (ofTally n).invalid.toNat = n .invalid := by
  have hsmall : ∀ m : Nat, m < UInt64.size → (UInt64.ofNat m).toNat = m := fun m hm =>
    UInt64.toNat_ofNat_of_lt' hm
  refine ⟨hsmall _ ?_, hsmall _ ?_, hsmall _ ?_, hsmall _ ?_, hsmall _ ?_, hsmall _ ?_,
    hsmall _ ?_⟩ <;> omega

end LineStats

namespace Filter.Reading

/-- The counter of a line, by what it gives. A blank line has none. -/
def counter? : Reading → Option Counter
  | .blank => none
  | .comment => some .comments
  | .record (.block _) => some .networkRules
  | .record (.allow _) => some .exceptions
  | .record (.cosmetic _) => some .cosmeticRules
  | .record (.scriptlet _) => some .scriptlets
  | .rejected _ _ => some .invalid

/-- The lines under each counter. -/
def tally (readings : List Reading) (counter : Counter) : Nat :=
  readings.countP fun reading => reading.counter? = some counter

theorem tally_append (front back : List Reading) :
    tally (front ++ back) = tally front + tally back := by
  funext counter
  exact List.countP_append

theorem tally_cons (reading : Reading) (rest : List Reading) :
    tally (reading :: rest) = tally [reading] + tally rest :=
  tally_append [reading] rest

/-- The lines under all counters are the lines that are not blank. -/
theorem sum_tally (readings : List Reading) :
    tally readings .comments + (tally readings .networkRules + tally readings .cosmeticRules +
        tally readings .scriptlets + tally readings .exceptions + tally readings .invalid) =
      readings.countP fun reading => reading ≠ .blank := by
  induction readings with
  | nil => rfl
  | cons reading rest ih =>
      rw [tally_cons, List.countP_cons, ← ih]
      simp only [Pi.add_apply]
      obtain _ | _ | (_ | _ | _ | _) | _ := reading <;> simp [tally, counter?] <;> omega

end Filter.Reading

end Blocklist
