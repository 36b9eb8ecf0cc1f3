import Blocklist.Proofs.Catalogue
import Blocklist.Proofs.CommandLoop
import Mathlib.Data.List.Basic

/-!
# A run of a schedule merges cycles and commands

What a schedule does up to its end is, in the order of time, one cycle at each multiple of its period
and each command that was sent, no more and no less. An answer is that of the session which all earlier
cycles and commands have left, and after the end every command is refused.

## Implementation notes

`Merges` says which cycles and commands a run consists of without running anything, and `Merges.unique`
that it leaves no choice. `mergedFrom` is the list that the loop works through, deed by deed; a run from
a later clock is the end of a run, which is what the inductions are on.

Two commands may not come at one time, and neither a command nor the end when a cycle is due. Handles may
be cloned and given up at any time, the last one even at the time of the command that was sent before.
`RunsAs` is what such a part of a run comes to, and is composed of waiting and one deed after the other.
-/

namespace Blocklist

namespace Scheduler

/-- What a schedule works through. -/
inductive Work where
  /-- The timer fires. -/
  | cycle
  /-- A command was sent. -/
  | sent (command : Command)
  deriving DecidableEq, Repr

/-- The work of a timed command. -/
def workOf (c : Nat × Command) : Nat × Work :=
  (c.1, .sent c.2)

variable {w : Type}

section Perform

variable [KeyValueStore w] [FilteringEngine w]

/-- Do a work in a session. -/
def Work.perform (s : Session w) (servers : Servers) : Work → Session w
  | .cycle => s.cycle false servers
  | .sent command => (command.carryOut s servers).2

/-- Do timed works one after the other. -/
def perform (s : Session w) (servers : Nat → Servers) (works : List (Nat × Work)) : Session w :=
  works.foldl (fun s work => work.2.perform s (servers work.1)) s

theorem perform_append {s : Session w} {servers : Nat → Servers} {works works' : List (Nat × Work)} :
    perform s servers (works ++ works') = perform (perform s servers works) servers works' :=
  List.foldl_append

/-- The answers to timed commands: to one that is a work, that of the session which all earlier works
have left, and to any other one a refusal. -/
def answersTo (s : Session w) (servers : Nat → Servers) (works : List (Nat × Work))
    (commands : List (Nat × Command)) : List (Nat × Answer) :=
  commands.map fun c =>
    (c.1,
      if workOf c ∈ works then
        (c.2.carryOut (perform s servers (works.filter (·.1 < c.1))) (servers c.1)).1
      else c.2.refusal)

end Perform

/-! ### The end of a schedule -/

/-- The commands among timed deeds. -/
def sent (deeds : List (Nat × Deed)) : List (Nat × Command) :=
  deeds.flatMap fun d => d.2.sentAt d.1

/-- Whether a deed ends the schedule: it is a shutdown, or the last handle is given up. -/
def Deed.ends (handles : Nat) : Deed → Bool
  | .send command => command = .shutdown
  | .clone => false
  | .drop => handles - 1 = 0

/-- When deeds end the schedule, if they do. -/
def endOf? (handles : Nat) : List (Nat × Deed) → Option Nat
  | [] => none
  | (time, deed) :: rest =>
    if deed.ends handles then some time else endOf? (deed.handlesAfter handles) rest

/-- The commands among timed deeds that are sent before the end of the schedule. -/
def sentInTime (handles : Nat) : List (Nat × Deed) → List (Nat × Command)
  | [] => []
  | (time, deed) :: rest =>
    if deed.ends handles then [] else deed.sentAt time ++ sentInTime (deed.handlesAfter handles) rest

/-- A time is before the end of a schedule, if there is one. -/
def IsBefore (time : Nat) (last? : Option Nat) : Prop :=
  ∀ last ∈ last?, time < last

/-- Works are those of a schedule up to a time: in the order of time, each cycle that is due before the
end, and each of some commands. -/
structure Merges (period horizon : Nat) (last? : Option Nat) (commands : List (Nat × Command))
    (works : List (Nat × Work)) : Prop where
  ordered : works.Pairwise (·.1 < ·.1)
  cycle_mem : ∀ time,
    (time, .cycle) ∈ works ↔ IsDue period time ∧ time ≤ horizon ∧ IsBefore time last?
  sent_mem : ∀ time command, (time, .sent command) ∈ works ↔ (time, command) ∈ commands

/-- Timed deeds up to a horizon, in the order of time. Two commands do not come at one time, and
neither a command nor the end of the schedule when a cycle is due. -/
structure Timed (period horizon handles : Nat) (deeds : List (Nat × Deed)) : Prop where
  ordered : deeds.Pairwise (·.1 ≤ ·.1)
  within : ∀ d ∈ deeds, d.1 ≤ horizon
  alone : (sent deeds).Pairwise (·.1 < ·.1)
  sent_apart : ∀ c ∈ sent deeds, ¬ IsDue period c.1
  end_apart : ∀ last ∈ endOf? handles deeds, ¬ IsDue period last

/-- Works in the order of time, one at a time, are known by their members. -/
theorem eq_of_mem_iff {works works' : List (Nat × Work)} (h : works.Pairwise (·.1 < ·.1))
    (h' : works'.Pairwise (·.1 < ·.1)) (hmem : ∀ work, work ∈ works ↔ work ∈ works') :
    works = works' := by
  have hnodup : ∀ {works : List (Nat × Work)}, works.Pairwise (·.1 < ·.1) → works.Nodup :=
    fun hworks => hworks.imp fun hlt heq => absurd (heq ▸ hlt) (Nat.lt_irrefl _)
  have hperm : works.Perm works' :=
    (List.perm_ext_iff_of_nodup (hnodup h) (hnodup h')).mpr hmem
  exact List.Perm.eq_of_pairwise (fun a b _ _ hab hba => absurd hba (Nat.lt_asymm hab)) h h' hperm

/-- There is one list of works that a schedule consists of. -/
theorem Merges.unique {period horizon : Nat} {last? : Option Nat} {commands : List (Nat × Command)}
    {works works' : List (Nat × Work)} (h : Merges period horizon last? commands works)
    (h' : Merges period horizon last? commands works') : works = works' := by
  refine eq_of_mem_iff h.ordered h'.ordered fun ⟨time, work⟩ => ?_
  cases work with
  | cycle => rw [h.cycle_mem, h'.cycle_mem]
  | sent command => rw [h.sent_mem, h'.sent_mem]

section Deeds

variable {period horizon handles time : Nat} {deed : Deed} {rest deeds : List (Nat × Deed)}
  {c : Nat × Command}

theorem mem_sentAt_iff : c ∈ deed.sentAt time ↔ c.1 = time ∧ .send c.2 = deed := by
  cases deed <;> simp [Deed.sentAt, Prod.ext_iff]

theorem mem_sent_iff : c ∈ sent deeds ↔ (c.1, .send c.2) ∈ deeds := by
  rw [sent, List.mem_flatMap]
  constructor
  · rintro ⟨⟨time, deed⟩, hmem, hsent⟩
    obtain ⟨htime, hdeed⟩ := mem_sentAt_iff.mp hsent
    exact htime ▸ hdeed ▸ hmem
  · exact fun hmem => ⟨_, hmem, mem_sentAt_iff.mpr ⟨rfl, rfl⟩⟩

theorem sent_cons (time : Nat) (deed : Deed) (rest : List (Nat × Deed)) :
    sent ((time, deed) :: rest) = deed.sentAt time ++ sent rest :=
  List.flatMap_cons

theorem sentInTime_sublist (handles : Nat) (deeds : List (Nat × Deed)) :
    (sentInTime handles deeds).Sublist (sent deeds) := by
  induction deeds generalizing handles with
  | nil => exact List.nil_sublist _
  | cons d rest ih =>
      rw [sentInTime, sent_cons]
      split
      · exact List.nil_sublist _
      · exact (List.Sublist.refl _).append (ih _)

/-- The end is the time of a deed. -/
theorem exists_mem_of_endOf? {last : Nat} (h : endOf? handles deeds = some last) :
    ∃ deed, (last, deed) ∈ deeds := by
  induction deeds generalizing handles with
  | nil => cases h
  | cons d rest ih =>
      obtain ⟨time, deed⟩ := d
      rw [endOf?] at h
      split at h
      · cases h
        exact ⟨deed, List.mem_cons_self⟩
      · obtain ⟨deed', hdeed'⟩ := ih h
        exact ⟨deed', List.mem_cons_of_mem _ hdeed'⟩

/-- A cycle that is due up to a time when none is, is due before it. -/
theorem IsDue.lt_of_le {due : Nat} (h : IsDue period due) (htime : ¬ IsDue period time)
    (hle : due ≤ time) : due < time :=
  Nat.lt_of_le_of_ne hle fun heq => htime (heq ▸ h)

namespace Timed

theorem head_le (h : Timed period horizon handles ((time, deed) :: rest)) :
    ∀ d ∈ rest, time ≤ d.1 :=
  (List.pairwise_cons.mp h.ordered).1

theorem tail (h : Timed period horizon handles ((time, deed) :: rest))
    (hends : ¬ deed.ends handles = true) :
    Timed period horizon (deed.handlesAfter handles) rest where
  ordered := (List.pairwise_cons.mp h.ordered).2
  within d hd := h.within d (List.mem_cons_of_mem _ hd)
  alone := by
    have halone := h.alone
    rw [sent_cons] at halone
    exact (List.pairwise_append.mp halone).2.1
  sent_apart c hc := h.sent_apart c (by rw [sent_cons]; exact List.mem_append_right _ hc)
  end_apart := by
    have hend := h.end_apart
    rwa [endOf?, if_neg hends] at hend

/-- A command comes after a command that was sent before it. -/
theorem head_lt (h : Timed period horizon handles ((time, deed) :: rest)) {c' : Nat × Command}
    (hc : c ∈ deed.sentAt time) (hc' : c' ∈ sent rest) : c.1 < c'.1 := by
  have halone := h.alone
  rw [sent_cons] at halone
  exact (List.pairwise_append.mp halone).2.2 c hc c' hc'

theorem sentAt_apart (h : Timed period horizon handles ((time, deed) :: rest))
    (hc : c ∈ deed.sentAt time) : ¬ IsDue period time := by
  have hapart := h.sent_apart c (by rw [sent_cons]; exact List.mem_append_left _ hc)
  rwa [(mem_sentAt_iff.mp hc).1] at hapart

/-- A cycle that is due up to a time is due before the end that a later deed brings. -/
theorem isBefore (h : Timed period horizon handles deeds) (hle : ∀ d ∈ deeds, time ≤ d.1) {due : Nat}
    (hdue : IsDue period due) (htime : due ≤ time) : IsBefore due (endOf? handles deeds) := by
  intro last hlast
  obtain ⟨deed, hdeed⟩ := exists_mem_of_endOf? hlast
  exact hdue.lt_of_le (h.end_apart last hlast) (Nat.le_trans htime (hle _ hdeed))

/-- A cycle that is due up to a time is due before any later command. -/
theorem lt_sent (h : Timed period horizon handles deeds) (hle : ∀ d ∈ deeds, time ≤ d.1) {due : Nat}
    (hdue : IsDue period due) (htime : due ≤ time) (hc : c ∈ sent deeds) : due < c.1 :=
  hdue.lt_of_le (h.sent_apart c hc) (Nat.le_trans htime (hle _ (mem_sent_iff.mp hc)))

end Timed

end Deeds

/-! ### The list of works -/

/-- The cycles after one time and up to another one. -/
def cyclesIn (period clock time : Nat) : List (Nat × Work) :=
  (dueTimes period clock (time - clock)).map fun time => (time, .cycle)

/-- The works from a time on, with so many handles at that time. -/
def mergedFrom (period horizon handles clock : Nat) : List (Nat × Deed) → List (Nat × Work)
  | [] => cyclesIn period clock horizon
  | (time, deed) :: rest =>
    cyclesIn period clock time ++
      if deed.ends handles then []
      else
        (deed.sentAt time).map workOf ++
          mergedFrom period horizon (deed.handlesAfter handles) time rest

section Merged

variable {period horizon handles clock time : Nat} {deed : Deed} {rest deeds : List (Nat × Deed)}

theorem mem_cyclesIn_iff (hperiod : 0 < period) (hclock : clock ≤ time) {t : Nat} {work : Work} :
    (t, work) ∈ cyclesIn period clock time ↔
      work = .cycle ∧ clock < t ∧ t ≤ time ∧ IsDue period t := by
  rw [← mem_dueTimes_iff hperiod hclock, cyclesIn, List.mem_map]
  constructor
  · rintro ⟨t', ht', heq⟩
    obtain ⟨rfl, rfl⟩ := Prod.mk.inj heq
    exact ⟨rfl, ht'⟩
  · rintro ⟨rfl, ht⟩
    exact ⟨t, ht, rfl⟩

theorem pairwise_cyclesIn (hperiod : 0 < period) (clock time : Nat) :
    (cyclesIn period clock time).Pairwise (·.1 < ·.1) :=
  List.pairwise_map.mpr (pairwise_dueTimes hperiod _ _)

@[simp] theorem sent_mem_cyclesIn {t : Nat} {command : Command} :
    (t, .sent command) ∉ cyclesIn period clock time := by
  simp [cyclesIn]

@[simp] theorem cycle_mem_map_workOf {t : Nat} {commands : List (Nat × Command)} :
    (t, .cycle) ∉ commands.map workOf := by
  simp [workOf]

@[simp] theorem sent_mem_map_workOf {t : Nat} {command : Command} {commands : List (Nat × Command)} :
    (t, .sent command) ∈ commands.map workOf ↔ (t, command) ∈ commands := by
  simp [workOf]

/-- The commands in the list are those that are sent before the end. -/
theorem sent_mem_mergedFrom {t : Nat} {command : Command} :
    (t, .sent command) ∈ mergedFrom period horizon handles clock deeds ↔
      (t, command) ∈ sentInTime handles deeds := by
  induction deeds generalizing handles clock with
  | nil => simp [mergedFrom, sentInTime]
  | cons d rest ih =>
      rw [mergedFrom, sentInTime]
      split
      · simp
      · simp [ih]

/-- The cycles in the list are those that are due before the end. -/
theorem cycle_mem_mergedFrom (hperiod : 0 < period) (h : Timed period horizon handles deeds)
    (hclock : ∀ d ∈ deeds, clock ≤ d.1) (hend : clock ≤ horizon) {t : Nat} :
    (t, .cycle) ∈ mergedFrom period horizon handles clock deeds ↔
      clock < t ∧ t ≤ horizon ∧ IsDue period t ∧ IsBefore t (endOf? handles deeds) := by
  induction deeds generalizing handles clock with
  | nil => simp [mergedFrom, mem_cyclesIn_iff hperiod hend, endOf?, IsBefore]
  | cons d rest ih =>
      obtain ⟨time, deed⟩ := d
      have htime : clock ≤ time := hclock _ List.mem_cons_self
      have hwithin : time ≤ horizon := h.within _ List.mem_cons_self
      have hlast := h.end_apart
      rw [endOf?] at hlast
      rw [mergedFrom, endOf?, List.mem_append, mem_cyclesIn_iff hperiod htime]
      split
      · next hends =>
        -- The deed ends the schedule, so what comes later is not before the end.
        rw [if_pos hends] at hlast
        simp only [List.not_mem_nil, or_false, true_and, IsBefore, Option.mem_some_iff, forall_eq']
        constructor
        · rintro ⟨hlt, hle, hdue⟩
          exact ⟨hlt, Nat.le_trans hle hwithin, hdue, hdue.lt_of_le (hlast time rfl) hle⟩
        · rintro ⟨hlt, -, hdue, hbefore⟩
          exact ⟨hlt, Nat.le_of_lt hbefore, hdue⟩
      · next hends =>
        have htail := h.tail hends
        rw [List.mem_append, ih htail h.head_le hwithin]
        simp only [true_and, cycle_mem_map_workOf, false_or]
        constructor
        · rintro (⟨hlt, hle, hdue⟩ | ⟨hlt, hle, hdue, hbefore⟩)
          · exact ⟨hlt, Nat.le_trans hle hwithin, hdue, htail.isBefore h.head_le hdue hle⟩
          · exact ⟨Nat.lt_of_le_of_lt htime hlt, hle, hdue, hbefore⟩
        · rintro ⟨hlt, hle, hdue, hbefore⟩
          rcases Nat.lt_or_ge time t with hlater | hearlier
          · exact .inr ⟨hlater, hle, hdue, hbefore⟩
          · exact .inl ⟨hlt, hearlier, hdue⟩

/-- A work from a time on is later than that time, or one of the commands that come. -/
theorem lt_or_mem_of_mem_mergedFrom (hperiod : 0 < period) (h : Timed period horizon handles deeds)
    (hclock : ∀ d ∈ deeds, clock ≤ d.1) (hend : clock ≤ horizon) {work : Nat × Work}
    (hwork : work ∈ mergedFrom period horizon handles clock deeds) :
    clock < work.1 ∨ ∃ c ∈ sent deeds, work = workOf c := by
  obtain ⟨t, work⟩ := work
  cases work with
  | cycle => exact .inl ((cycle_mem_mergedFrom hperiod h hclock hend).mp hwork).1
  | sent command =>
      have hmem := (sentInTime_sublist handles deeds).mem (sent_mem_mergedFrom.mp hwork)
      exact .inr ⟨(t, command), hmem, rfl⟩

/-- The works after a command come later. -/
theorem lt_of_mem_mergedFrom (hperiod : 0 < period)
    (h : Timed period horizon handles ((time, deed) :: rest)) (hends : ¬ deed.ends handles = true)
    {c : Nat × Command} (hc : c ∈ deed.sentAt time) {work : Nat × Work}
    (hwork : work ∈ mergedFrom period horizon (deed.handlesAfter handles) time rest) :
    time < work.1 := by
  have hwithin : time ≤ horizon := h.within _ List.mem_cons_self
  rcases lt_or_mem_of_mem_mergedFrom hperiod (h.tail hends) h.head_le hwithin hwork with
    hlt | ⟨c', hc', rfl⟩
  · exact hlt
  · exact (mem_sentAt_iff.mp hc).1 ▸ h.head_lt hc hc'

/-- A cycle up to a time comes before any work from then on. -/
theorem cycle_lt_of_mem_mergedFrom (hperiod : 0 < period) (h : Timed period horizon handles deeds)
    (hle : ∀ d ∈ deeds, time ≤ d.1) (hwithin : time ≤ horizon) {due : Nat} (hdue : IsDue period due)
    (htime : due ≤ time) {work : Nat × Work}
    (hwork : work ∈ mergedFrom period horizon handles time deeds) : due < work.1 := by
  rcases lt_or_mem_of_mem_mergedFrom hperiod h hle hwithin hwork with hlt | ⟨c, hc, rfl⟩
  · exact Nat.lt_of_le_of_lt htime hlt
  · exact h.lt_sent hle hdue htime hc

/-- The works from a time on come in the order of time. -/
theorem pairwise_mergedFrom (hperiod : 0 < period) (h : Timed period horizon handles deeds)
    (hclock : ∀ d ∈ deeds, clock ≤ d.1) :
    (mergedFrom period horizon handles clock deeds).Pairwise (·.1 < ·.1) := by
  induction deeds generalizing handles clock with
  | nil => exact pairwise_cyclesIn hperiod _ _
  | cons d rest ih =>
      obtain ⟨time, deed⟩ := d
      rw [mergedFrom]
      split
      · rw [List.append_nil]
        exact pairwise_cyclesIn hperiod _ _
      · next hends =>
        have htail := h.tail hends
        have hcommand : ((deed.sentAt time).map workOf ++
            mergedFrom period horizon (deed.handlesAfter handles) time rest).Pairwise (·.1 < ·.1) := by
          refine List.pairwise_append.mpr ⟨?_, ih htail h.head_le, fun a ha b hb => ?_⟩
          · cases deed <;> simp [Deed.sentAt]
          · obtain ⟨c, hc, rfl⟩ := List.mem_map.mp ha
            exact (mem_sentAt_iff.mp hc).1 ▸ lt_of_mem_mergedFrom hperiod h hends hc hb
        refine List.pairwise_append.mpr ⟨pairwise_cyclesIn hperiod _ _, hcommand, fun a ha b hb => ?_⟩
        obtain ⟨-, -, hle, hdue⟩ :=
          (mem_cyclesIn_iff hperiod (hclock _ List.mem_cons_self)).mp ha
        rcases List.mem_append.mp hb with hb | hb
        · obtain ⟨c, hc, rfl⟩ := List.mem_map.mp hb
          exact (mem_sentAt_iff.mp hc).1 ▸ hdue.lt_of_le (h.sentAt_apart hc) hle
        · exact cycle_lt_of_mem_mergedFrom hperiod htail h.head_le (h.within _ List.mem_cons_self)
            hdue hle hb

/-- The list from the start is that of the works up to the horizon. -/
theorem merges_mergedFrom (hperiod : 0 < period) (h : Timed period horizon handles deeds) :
    Merges period horizon (endOf? handles deeds) (sentInTime handles deeds)
      (mergedFrom period horizon handles 0 deeds) where
  ordered := pairwise_mergedFrom hperiod h fun _ _ => Nat.zero_le _
  cycle_mem t := by
    rw [cycle_mem_mergedFrom hperiod h (fun _ _ => Nat.zero_le _) (Nat.zero_le _)]
    exact ⟨fun ⟨_, hle, hdue, hbefore⟩ => ⟨hdue, hle, hbefore⟩,
      fun ⟨hdue, hle, hbefore⟩ => ⟨hdue.1, hle, hdue, hbefore⟩⟩
  sent_mem _ _ := sent_mem_mergedFrom

/-- The cycles among the works are as many as periods have passed until the end. -/
theorem Merges.countP_cycle (hperiod : 0 < period) (h : Timed period horizon handles deeds)
    {commands : List (Nat × Command)} {works : List (Nat × Work)}
    (hworks : Merges period horizon (endOf? handles deeds) commands works) :
    works.countP (·.2 = .cycle) = (endOf? handles deeds).getD horizon / period := by
  have hcycles : works.filter (·.2 = .cycle) =
      cyclesIn period 0 ((endOf? handles deeds).getD horizon) := by
    refine eq_of_mem_iff (hworks.ordered.filter _) (pairwise_cyclesIn hperiod _ _) fun ⟨t, work⟩ => ?_
    rw [List.mem_filter, mem_cyclesIn_iff hperiod (Nat.zero_le _)]
    have hiff (hdue : IsDue period t) : t ≤ horizon ∧ IsBefore t (endOf? handles deeds) ↔
        t ≤ (endOf? handles deeds).getD horizon := by
      cases hlast : endOf? handles deeds with
      | none => simp [IsBefore]
      | some last =>
          obtain ⟨deed, hdeed⟩ := exists_mem_of_endOf? hlast
          have hwithin : last ≤ horizon := h.within _ hdeed
          simp only [IsBefore, Option.mem_some_iff, forall_eq', Option.getD_some]
          exact ⟨fun hboth => Nat.le_of_lt hboth.2, fun hle =>
            ⟨Nat.le_trans hle hwithin, hdue.lt_of_le (h.end_apart last hlast) hle⟩⟩
    constructor
    · rintro ⟨hmem, hcycle⟩
      obtain rfl : work = .cycle := of_decide_eq_true hcycle
      obtain ⟨hdue, hboth⟩ := (hworks.cycle_mem t).mp hmem
      exact ⟨rfl, hdue.1, (hiff hdue).mp hboth, hdue⟩
    · rintro ⟨rfl, -, hle, hdue⟩
      exact ⟨(hworks.cycle_mem t).mpr ⟨hdue, (hiff hdue).mpr hle⟩, decide_eq_true rfl⟩
  rw [List.countP_eq_length_filter, hcycles]
  simp [cyclesIn, dueTimes]

end Merged

/-! ### The loop works through the list -/

section Answers

variable [KeyValueStore w] [FilteringEngine w] {s : Session w} {servers : Nat → Servers}
  {works : List (Nat × Work)} {commands : List (Nat × Command)}

/-- Commands that are no works are refused. -/
theorem answersTo_of_not_mem (h : ∀ c ∈ commands, workOf c ∉ works) :
    answersTo s servers works commands = commands.map fun c => (c.1, c.2.refusal) :=
  List.map_congr_left fun c hc => by rw [if_neg (h c hc)]

/-- Works before all commands may be done first. -/
theorem answersTo_append {front : List (Nat × Work)}
    (h : ∀ c ∈ commands, ∀ work ∈ front, work.1 < c.1) :
    answersTo s servers (front ++ works) commands =
      answersTo (perform s servers front) servers works commands := by
  refine List.map_congr_left fun c hc => ?_
  have hnot : workOf c ∉ front := fun hmem => Nat.lt_irrefl _ (h c hc _ hmem)
  have hfront : front.filter (·.1 < c.1) = front :=
    List.filter_eq_self.mpr fun work hwork => decide_eq_true (h c hc work hwork)
  simp only [List.mem_append, hnot, false_or, List.filter_append, hfront, perform_append]

/-- The command of the first work is answered by the session itself. -/
theorem answersTo_head {time : Nat} {deed : Deed}
    (h : ∀ c ∈ deed.sentAt time, ∀ work ∈ works, c.1 < work.1) :
    answersTo s servers ((deed.sentAt time).map workOf ++ works) (deed.sentAt time) =
      (deed.sentAt time).map fun c => (c.1, (c.2.carryOut s (servers time)).1) := by
  cases deed with
  | send command =>
      have hlater : ∀ work ∈ works, time < work.1 := h _ List.mem_cons_self
      have hnone : works.filter (·.1 < time) = [] :=
        List.filter_eq_nil_iff.mpr fun work hwork => by simp [Nat.le_of_lt (hlater work hwork)]
      simp [answersTo, Deed.sentAt, workOf, hnone, perform]
  | clone => rfl
  | drop => rfl

end Answers

theorem cycleAt_eq_perform [KeyValueStore w] [FilteringEngine w] (s : Session w)
    (servers : Nat → Servers) (period clock time : Nat) :
    cycleAt s servers (dueTimes period clock (time - clock)) =
      perform s servers (cyclesIn period clock time) := by
  rw [cycleAt, perform, cyclesIn, List.foldl_map]
  rfl

namespace Loop

variable [KeyValueStore w] [FilteringEngine w] {l : Loop w} {horizon : Nat}

/-- A deed that ends the schedule does nothing else; if it is a command, it is answered as one that
nobody takes. -/
theorem take_of_ends (hrunning : l.running = true) {deed : Deed} (hends : deed.ends l.handles = true)
    (time : Nat) (servers : Servers) :
    ((l.take deed servers).1.map fun a => (time, a)).toList =
        (deed.sentAt time).map (fun c => (c.1, c.2.refusal)) ∧
      (l.take deed servers).2.session = l.session.tell [.schedulerStopped] ∧
      (l.take deed servers).2.running = false := by
  cases deed with
  | send command =>
      obtain rfl : command = .shutdown := by simpa [Deed.ends] using hends
      rw [take, hrunning]
      exact ⟨rfl, rfl, rfl⟩
  | clone => cases hends
  | drop =>
      have hlast : l.handles - 1 = 0 := by simpa [Deed.ends] using hends
      simp only [take, hrunning, hlast, and_self, if_true]
      exact ⟨rfl, rfl, rfl⟩

/-- Any other deed leaves the loop running, and is a work if it is a command. -/
theorem take_of_not_ends (hrunning : l.running = true) {deed : Deed}
    (hends : ¬ deed.ends l.handles = true) (time : Nat) (servers : Nat → Servers) :
    ((l.take deed (servers time)).1.map fun a => (time, a)).toList =
        (deed.sentAt time).map (fun c => (c.1, (c.2.carryOut l.session (servers time)).1)) ∧
      (l.take deed (servers time)).2.session =
        perform l.session servers ((deed.sentAt time).map workOf) ∧
      (l.take deed (servers time)).2.running = true ∧
      (l.take deed (servers time)).2.deadline = l.deadline := by
  cases deed with
  | send command =>
      have hcommand : command ≠ .shutdown := by simpa [Deed.ends] using hends
      simp only [take, hrunning, if_true, if_neg hcommand]
      exact ⟨rfl, rfl, trivial, trivial⟩
  | clone => exact ⟨rfl, rfl, hrunning, rfl⟩
  | drop =>
      have hlast : ¬ l.handles - 1 = 0 := by simpa [Deed.ends] using hends
      simp only [take, hrunning, hlast, and_false, if_false]
      exact ⟨rfl, rfl, trivial, trivial⟩

/-- A loop that was left refuses a command. -/
theorem take_of_stopped (hrunning : l.running = false) (deed : Deed) (time : Nat) (servers : Servers) :
    ((l.take deed servers).1.map fun a => (time, a)).toList =
        (deed.sentAt time).map (fun c => (c.1, c.2.refusal)) ∧
      (∃ notices, (∀ e ∈ notices, e = .alreadyStopped) ∧
        (l.take deed servers).2.session = l.session.tell notices) ∧
      (l.take deed servers).2.running = false := by
  have hnone : l.session = l.session.tell [] := by simp [Session.tell]
  cases deed with
  | send command =>
      rw [take, if_neg (by simp [hrunning])]
      refine ⟨rfl, ⟨_, fun e he => ?_, rfl⟩, hrunning⟩
      split at he
      · exact List.mem_singleton.mp he
      · cases he
  | clone => exact ⟨rfl, ⟨[], List.forall_mem_nil _, hnone⟩, hrunning⟩
  | drop =>
      simp only [take, hrunning, Bool.false_eq_true, false_and, if_false]
      exact ⟨rfl, ⟨[], List.forall_mem_nil _, hnone⟩, trivial⟩

/-- Nothing is done by a loop that was left, and every command is refused. -/
theorem run_of_stopped (hrunning : l.running = false) (horizon : Nat) (servers : Nat → Servers)
    (deeds : List (Nat × Deed)) :
    (l.run horizon servers deeds).1 = (sent deeds).map (fun c => (c.1, c.2.refusal)) ∧
      (∃ notices, (∀ e ∈ notices, e = .alreadyStopped) ∧
        (l.run horizon servers deeds).2.session = l.session.tell notices) ∧
      (l.run horizon servers deeds).2.running = false := by
  induction deeds generalizing l with
  | nil =>
      rw [run, waitUntil_of_stopped hrunning]
      exact ⟨rfl, ⟨[], List.forall_mem_nil _, by simp [Session.tell]⟩, hrunning⟩
  | cons d rest ih =>
      obtain ⟨time, deed⟩ := d
      obtain ⟨hanswer, ⟨notices, hnotices, hsession⟩, hstill⟩ :=
        take_of_stopped hrunning deed time (servers time)
      obtain ⟨hanswers, ⟨notices', hnotices', hsession'⟩, hlast⟩ := ih hstill
      simp only [run, waitUntil_of_stopped hrunning]
      refine ⟨?_, ⟨notices ++ notices', fun e he => ?_, ?_⟩, hlast⟩
      · rw [hanswer, hanswers, sent_cons, List.map_append]
      · exact (List.mem_append.mp he).elim (hnotices e) (hnotices' e)
      · rw [hsession', hsession]
        simp [Session.tell]

/-- A run comes to some works up to an end: it answers by them and leaves what they leave, and then only
gives notices. -/
structure RunsAs (l : Loop w) (horizon : Nat) (servers : Nat → Servers) (deeds : List (Nat × Deed))
    (works : List (Nat × Work)) (last? : Option Nat) : Prop where
  answers : (l.run horizon servers deeds).1 = answersTo l.session servers works (sent deeds)
  session : ∃ notices, (∀ e ∈ notices, e = .schedulerStopped ∨ e = .alreadyStopped) ∧
    (l.run horizon servers deeds).2.session = (perform l.session servers works).tell notices
  running : (l.run horizon servers deeds).2.running = last?.isNone

namespace RunsAs

variable {servers : Nat → Servers} {time : Nat} {deed : Deed} {rest : List (Nat × Deed)}
  {works : List (Nat × Work)} {last? : Option Nat}

/-- A deed that ends the schedule leaves nothing to be done. -/
theorem of_ends (hrunning : l.running = true) (hwait : l.waitUntil time servers = l)
    (hends : deed.ends l.handles = true) :
    l.RunsAs horizon servers ((time, deed) :: rest) [] (some time) := by
  obtain ⟨hanswer, hsession, hstopped⟩ := take_of_ends hrunning hends time (servers time)
  obtain ⟨hanswers, ⟨notices, hnotices, hlast⟩, hstill⟩ :=
    run_of_stopped hstopped horizon servers rest
  refine ⟨?_, ⟨.schedulerStopped :: notices, fun e he => ?_, ?_⟩, ?_⟩
  · simp only [run, hwait]
    rw [answersTo_of_not_mem fun _ _ => List.not_mem_nil, sent_cons, List.map_append, hanswer, hanswers]
  · exact (List.mem_cons.mp he).imp id (hnotices e)
  · simp only [run, hwait]
    rw [hlast, hsession]
    simp [Session.tell, perform]
  · simp only [run, hwait]
    exact hstill

/-- Any other deed is a work if it is a command, and the run goes on. -/
theorem of_not_ends (hrunning : l.running = true) (hwait : l.waitUntil time servers = l)
    (hends : ¬ deed.ends l.handles = true)
    (h : (l.take deed (servers time)).2.RunsAs horizon servers rest works last?)
    (hfirst : ∀ c ∈ deed.sentAt time, ∀ work ∈ works, c.1 < work.1)
    (hrest : ∀ c ∈ sent rest, ∀ work ∈ (deed.sentAt time).map workOf, work.1 < c.1) :
    l.RunsAs horizon servers ((time, deed) :: rest) ((deed.sentAt time).map workOf ++ works)
      last? := by
  obtain ⟨hanswer, hsession, -, -⟩ := take_of_not_ends hrunning hends time servers
  obtain ⟨hanswers, ⟨notices, hnotices, hlast⟩, hstill⟩ := h
  rw [hsession] at hanswers hlast
  refine ⟨?_, ⟨notices, hnotices, ?_⟩, ?_⟩
  · simp only [run, hwait]
    rw [hanswer, hanswers, ← answersTo_append hrest, ← answersTo_head hfirst, answersTo, answersTo,
      answersTo, sent_cons, List.map_append]
  · simp only [run, hwait]
    rw [hlast, perform_append]
  · simp only [run, hwait]
    exact hstill

/-- Works that come before all commands are done while the loop waits for the first deed. -/
theorem of_wait {waited : Loop w} (hwait : l.waitUntil time servers = waited)
    (hagain : waited.waitUntil time servers = waited) {front : List (Nat × Work)}
    (hfront : waited.session = perform l.session servers front)
    (h : waited.RunsAs horizon servers ((time, deed) :: rest) works last?)
    (hbefore : ∀ c ∈ sent ((time, deed) :: rest), ∀ work ∈ front, work.1 < c.1) :
    l.RunsAs horizon servers ((time, deed) :: rest) (front ++ works) last? := by
  have hrun : l.run horizon servers ((time, deed) :: rest) =
      waited.run horizon servers ((time, deed) :: rest) := by
    simp only [run, hwait, hagain]
  obtain ⟨hanswers, hlast, hstill⟩ := h
  rw [hfront, ← answersTo_append hbefore] at hanswers
  rw [hfront, ← perform_append] at hlast
  rw [← hrun] at hanswers hlast hstill
  exact ⟨hanswers, hlast, hstill⟩

end RunsAs

/-- A running loop works through its list of works from a time on. -/
theorem runsAs_mergedFrom (hrunning : l.running = true) (hperiod : 0 < l.period) {clock : Nat}
    (hdeadline : l.deadline = nextDue l.period clock) {deeds : List (Nat × Deed)}
    (h : Timed l.period horizon l.handles deeds) (hclock : ∀ d ∈ deeds, clock ≤ d.1)
    (hend : clock ≤ horizon) (servers : Nat → Servers) :
    l.RunsAs horizon servers deeds (mergedFrom l.period horizon l.handles clock deeds)
      (endOf? l.handles deeds) := by
  induction deeds generalizing l clock with
  | nil =>
      have hrun : l.run horizon servers [] = ([], l.waitUntil horizon servers) := rfl
      rw [waitUntil_eq hrunning hperiod hdeadline hend, cycleAt_eq_perform] at hrun
      refine ⟨by rw [hrun]; rfl, ⟨[], List.forall_mem_nil _, ?_⟩, by rw [hrun]; exact hrunning⟩
      rw [hrun]
      simp [Session.tell, mergedFrom]
  | cons d rest ih =>
      obtain ⟨time, deed⟩ := d
      have htime : clock ≤ time := hclock _ List.mem_cons_self
      have hwithin : time ≤ horizon := h.within _ List.mem_cons_self
      have hwait := waitUntil_eq hrunning hperiod hdeadline htime servers
      rw [cycleAt_eq_perform] at hwait
      generalize hwaited : ({ l with
        session := perform l.session servers (cyclesIn l.period clock time)
        deadline := nextDue l.period time } : Loop w) = waited at hwait
      obtain ⟨hsession, hsame, hnext, hhandles, hstill⟩ : waited.session =
          perform l.session servers (cyclesIn l.period clock time) ∧ waited.period = l.period ∧
          waited.deadline = nextDue l.period time ∧ waited.handles = l.handles ∧
          waited.running = true := by
        rw [← hwaited]
        exact ⟨rfl, rfl, rfl, rfl, hrunning⟩
      have hagain : waited.waitUntil time servers = waited := by
        have hlater := lt_nextDue hperiod time
        rw [waitUntil, if_neg (by omega)]
      refine .of_wait hwait hagain hsession ?_ fun c hc work hwork => ?_
      · rw [← hsame] at hperiod hnext h ⊢
        rw [← hhandles] at h ⊢
        rw [endOf?]
        by_cases hends : deed.ends waited.handles = true
        · rw [if_pos hends, if_pos hends]
          exact .of_ends hstill hagain hends
        · rw [if_neg hends, if_neg hends]
          obtain ⟨-, -, hgoes, hdeadline'⟩ := take_of_not_ends hstill hends time servers
          obtain ⟨hperiod', hhandles'⟩ := waited.take_frame deed (servers time)
          have htimer : (waited.take deed (servers time)).2.deadline =
              nextDue (waited.take deed (servers time)).2.period time := by
            rw [hdeadline', hperiod', hnext]
          have htaken := ih hgoes (hperiod' ▸ hperiod) htimer
            (by rw [hperiod', hhandles']; exact h.tail hends) h.head_le hwithin
          rw [hperiod', hhandles'] at htaken
          refine .of_not_ends hstill hagain hends htaken (fun c hc work hwork => ?_)
            fun c hc work hwork => ?_
          · exact (mem_sentAt_iff.mp hc).1 ▸ lt_of_mem_mergedFrom hperiod h hends hc hwork
          · obtain ⟨c', hc', rfl⟩ := List.mem_map.mp hwork
            exact h.head_lt hc' hc
      · obtain ⟨-, -, hle, hdue⟩ := (mem_cyclesIn_iff hperiod htime).mp hwork
        refine h.lt_sent (fun d hd => ?_) hdue hle hc
        exact (List.mem_cons.mp hd).elim (fun heq => heq ▸ Nat.le_refl _) (h.head_le d)

end Loop

/-- What a schedule does until a time is the merge of the cycles and the commands before its end, in the
order of time: it answers each command by the session that all earlier works have left, and hands back
the session that the last of them has left. So does `Scheduler` by a clock that counts seconds. -/
theorem run_is_merge [KeyValueStore w] [FilteringEngine w] (session : Session w)
    {unit period horizon : Nat} (hperiod : 0 < period) {deeds : List (Nat × Deed)}
    (h : Timed period horizon 1 deeds) (servers : Nat → Servers) :
    let last? := endOf? 1 deeds
    let started := session.tell [.schedulerStarted (period / unit)]
    let result := (Loop.start session unit period).run horizon servers deeds
    (∃ works, Merges period horizon last? (sentInTime 1 deeds) works ∧
      works.countP (·.2 = .cycle) = last?.getD horizon / period ∧
      result.1 = answersTo started servers works (sent deeds) ∧
      ∃ notices, (∀ e ∈ notices, e = .schedulerStopped ∨ e = .alreadyStopped) ∧
        result.2.session = (perform started servers works).tell notices) ∧
    result.2.running = last?.isNone ∧
    (unit = 1 →
      let result' := (start session period).follow 1 horizon servers deeds
      result'.1 = result.1 ∧ result'.2.session = result.2.session ∧
        result'.2.running = result.2.running) := by
  have hfirst : ∀ d ∈ deeds, 0 ≤ d.1 := fun _ _ => Nat.zero_le _
  have hdeadline : (Loop.start session unit period).deadline = nextDue period 0 :=
    (nextDue_zero period).symm
  obtain ⟨hanswers, hleft, hrunning⟩ := Loop.runsAs_mergedFrom (l := .start session unit period) rfl
    hperiod hdeadline h hfirst (Nat.zero_le _) servers
  have hmerges := merges_mergedFrom hperiod h
  refine ⟨⟨_, hmerges, hmerges.countP_cycle hperiod h, hanswers, hleft⟩, hrunning, ?_⟩
  rintro rfl
  obtain ⟨hsame, hagrees⟩ := follow_eq_run (agrees_start session period) hperiod h.ordered hfirst
    h.within (Nat.zero_le _) servers
  exact ⟨hsame, hagrees.session, hagrees.running⟩

/-- A second handle is made at the time of a cycle, and one of the two is given up together with the
shutdown. -/
theorem run_is_merge_sample :
    let session : Session (Backend MemoryStore MemoryEngine) :=
      .ofRegistry (.ofManifest .sample default) ⟨.empty, .withLimit 30000⟩
    let deeds := [(3, .send .status), (10, .clone), (14, .send (.toggle (.category "core") false)),
      (23, .send (.refresh true)), (25, .send .shutdown), (25, .drop), (27, .send .status)]
    let works := [(3, .sent .status), (10, .cycle), (14, .sent (.toggle (.category "core") false)),
      (20, .cycle), (23, .sent (.refresh true))]
    let servers : Nat → Servers := fun _ => .uniform (fun _ => .ok .notModified) default
    let result := (Loop.start session 1 10).run 40 servers deeds
    Timed 10 40 1 deeds ∧
      result.1 = answersTo (session.tell [.schedulerStarted 10]) servers works (sent deeds) ∧
      result.1.getLast? = some (27, .status none) ∧ result.2.running = false := by
  intro session deeds works servers result
  have htimed : Timed 10 40 1 deeds :=
    ⟨by decide, by decide, by decide, by decide, by decide⟩
  obtain ⟨⟨works', hmerges, -, hanswers, -⟩, hrunning, -⟩ :=
    @run_is_merge _ _ _ session 1 10 40 (by decide) deeds htimed servers
  have hworks : Merges 10 40 (endOf? 1 deeds) (sentInTime 1 deeds) works := by
    refine ⟨by decide, fun time => ?_, fun time command => ?_⟩
    · have hlast : endOf? 1 deeds = some 25 := rfl
      simp only [works, hlast, IsBefore, IsDue, List.mem_cons, Prod.mk.injEq, reduceCtorEq, and_true,
        and_false, List.not_mem_nil, or_false, false_or, Option.mem_some_iff, forall_eq']
      omega
    · have hsent : sentInTime 1 deeds = [(3, .status), (14, .toggle (.category "core") false),
          (23, .refresh true)] := rfl
      simp [works, hsent]
  obtain rfl := hmerges.unique hworks
  refine ⟨htimed, hanswers, ?_, hrunning⟩
  rw [show result.1 = _ from hanswers]
  rfl

end Scheduler

end Blocklist
