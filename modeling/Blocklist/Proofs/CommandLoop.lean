import Blocklist.Scheduler
import Mathlib.Data.Nat.Basic

/-!
# The loop of a schedule

A schedule is a loop around a timer and a channel: it waits for what comes first, the next firing of the
timer or the next command, and ends at a shutdown or when every handle of the channel is gone. The timer
is set one period after the start, and again one period after each of its firings; a command does not
touch it.

`Scheduler.elapse` counts the multiples of the period that were passed, and `Scheduler.deliver` takes
one command. `follow_eq_run` says that by them a scheduler does what the loop does.

## Implementation notes

Time is counted in units of a clock, however fine, so a period need not be a whole number of seconds;
`Scheduler` is the loop on a clock that counts seconds. Commands and cycles take no time, so the timer
is never late. `Loop.waitUntil` is the loop as long as nothing comes out of the channel.
-/

namespace Blocklist

namespace Scheduler

/-! ### Times of cycles -/

section Times

variable {period clock time : Nat}

/-- A cycle is due at every positive multiple of the period. -/
def IsDue (period time : Nat) : Prop :=
  0 < time ∧ period ∣ time

instance (period time : Nat) : Decidable (IsDue period time) :=
  inferInstanceAs (Decidable (0 < time ∧ period ∣ time))

/-- The first multiple of a period after a time. -/
def nextDue (period clock : Nat) : Nat :=
  (clock / period + 1) * period

@[simp] theorem nextDue_zero (period : Nat) : nextDue period 0 = period := by
  simp [nextDue]

theorem lt_nextDue (hperiod : 0 < period) (clock : Nat) : clock < nextDue period clock := by
  rw [nextDue, Nat.mul_comm]
  exact Nat.lt_mul_div_succ clock hperiod

theorem nextDue_div (hperiod : 0 < period) (clock : Nat) :
    nextDue period clock / period = clock / period + 1 :=
  Nat.mul_div_cancel _ hperiod

/-- Multiples of a period are one period apart. -/
theorem nextDue_nextDue (hperiod : 0 < period) (clock : Nat) :
    nextDue period (nextDue period clock) = nextDue period clock + period := by
  rw [nextDue, nextDue_div hperiod, Nat.succ_mul, nextDue]

theorem div_eq_of_lt_nextDue (hperiod : 0 < period) (hclock : clock ≤ time)
    (htime : time < nextDue period clock) : time / period = clock / period := by
  have hle : clock / period ≤ time / period := Nat.div_le_div_right hclock
  have hlt : time / period < clock / period + 1 := (Nat.div_lt_iff_lt_mul hperiod).mpr htime
  omega

theorem dueTimes_eq_nil (hperiod : 0 < period) (hclock : clock ≤ time)
    (htime : time < nextDue period clock) : dueTimes period clock (time - clock) = [] := by
  rw [dueTimes, Nat.add_sub_cancel' hclock, div_eq_of_lt_nextDue hperiod hclock htime,
    Nat.sub_self]
  rfl

/-- The first time that falls due is the next multiple of the period. -/
theorem dueTimes_eq_cons (hperiod : 0 < period) (htime : nextDue period clock ≤ time) :
    dueTimes period clock (time - clock) =
      nextDue period clock ::
        dueTimes period (nextDue period clock) (time - nextDue period clock) := by
  have hclock : clock ≤ time := Nat.le_trans (Nat.le_of_lt (lt_nextDue hperiod clock)) htime
  have hpassed : clock / period + 1 ≤ time / period := (Nat.le_div_iff_mul_le hperiod).mpr htime
  obtain ⟨count, hcount⟩ := Nat.exists_eq_add_of_le hpassed
  have hall : time / period - clock / period = count + 1 := by omega
  have hrest : time / period - (clock / period + 1) = count := by omega
  simp only [dueTimes, Nat.add_sub_cancel' hclock, Nat.add_sub_cancel' htime, hall, hrest,
    nextDue_div hperiod, List.range_succ_eq_map, List.map_cons, List.map_map]
  congr 1
  refine List.map_congr_left fun i _ => ?_
  simp only [Function.comp_apply, Nat.succ_eq_add_one]
  congr 1
  omega

/-- Exactly the cycles that were due in between fall due. -/
theorem mem_dueTimes_iff (hperiod : 0 < period) {t : Nat} (hclock : clock ≤ time) :
    t ∈ dueTimes period clock (time - clock) ↔ clock < t ∧ t ≤ time ∧ IsDue period t := by
  rw [dueTimes, Nat.add_sub_cancel' hclock, List.mem_map]
  constructor
  · rintro ⟨i, hi, rfl⟩
    rw [List.mem_range] at hi
    have hlt : clock < (clock / period + 1 + i) * period :=
      Nat.lt_of_lt_of_le (lt_nextDue hperiod clock) (Nat.mul_le_mul_right _ (by omega))
    have hle : (clock / period + 1 + i) * period ≤ time :=
      (Nat.le_div_iff_mul_le hperiod).mp (by omega)
    exact ⟨hlt, hle, Nat.zero_lt_of_lt hlt, Nat.dvd_mul_left _ _⟩
  · rintro ⟨hlt, hle, -, k, rfl⟩
    rw [Nat.mul_comm] at hlt hle ⊢
    have hpassed : clock / period < k := (Nat.div_lt_iff_lt_mul hperiod).mpr hlt
    have hcoming : k ≤ time / period := (Nat.le_div_iff_mul_le hperiod).mpr hle
    exact ⟨k - clock / period - 1, List.mem_range.mpr (by omega), by congr 1; omega⟩

theorem pairwise_dueTimes (hperiod : 0 < period) (clock secs : Nat) :
    (dueTimes period clock secs).Pairwise (· < ·) := by
  rw [dueTimes, List.pairwise_map]
  refine List.pairwise_lt_range.imp fun hlt => ?_
  exact Nat.mul_lt_mul_of_pos_right (by omega) hperiod

end Times

/-! ### The loop -/

/-- What the holder of a handle does. -/
inductive Deed where
  | send (command : Command)
  /-- Make another handle. -/
  | clone
  /-- Give up a handle. -/
  | drop
  deriving DecidableEq, Repr

/-- The command that a deed sends at a time, if it sends one. -/
def Deed.sentAt (time : Nat) : Deed → List (Nat × Command)
  | .send command => [(time, command)]
  | _ => []

/-- The number of handles after a deed. -/
def Deed.handlesAfter (handles : Nat) : Deed → Nat
  | .send _ => handles
  | .clone => handles + 1
  | .drop => handles - 1

/-- The answer to a command that nobody takes. -/
def Command.refusal : Command → Answer
  | .refresh _ => .refresh false
  | .toggle _ _ => .toggle none
  | .status => .status none
  | .shutdown => .shutdown

variable {w : Type}

/-- Carry out a command in a session. A shutdown does nothing to it. -/
def Command.carryOut [KeyValueStore w] [FilteringEngine w] (s : Session w) (servers : Servers) :
    Command → Answer × Session w
  | .refresh force => (.refresh true, (s.tell [.refreshRequested force]).cycle force servers)
  | .toggle target enabled =>
    let (count, s) := s.toggle target enabled
    (.toggle (some count), s)
  | .status => (.status (some s.registry.status), s)
  | .shutdown => (.shutdown, s)

/-- A session with a timer and a channel. -/
structure Loop (w : Type) where
  session : Session w
  /-- The time from one firing of the timer to the next one. -/
  period : Nat
  /-- When the timer fires next. -/
  deadline : Nat
  /-- The number of handles there are. -/
  handles : Nat
  running : Bool

namespace Loop

/-- Leave the loop. -/
def stop (l : Loop w) : Loop w :=
  { l with session := l.session.tell [.schedulerStopped], running := false }

/-- Enter the loop with one handle, by a clock that counts so many units a second. -/
def start (session : Session w) (unit period : Nat) : Loop w :=
  ⟨session.tell [.schedulerStarted (period / unit)], period, period, 1, true⟩

variable [KeyValueStore w] [FilteringEngine w]

/-- The timer fires: run a cycle, and set the timer again. -/
def fire (l : Loop w) (servers : Servers) : Loop w :=
  { l with session := l.session.cycle false servers, deadline := l.deadline + l.period }

/-- Wait up to a time for the channel, in vain. -/
def waitUntil (l : Loop w) (time : Nat) (servers : Nat → Servers) : Loop w :=
  if l.running ∧ 0 < l.period ∧ l.deadline ≤ time then
    (l.fire (servers l.deadline)).waitUntil time servers
  else l
termination_by time + 1 - l.deadline
decreasing_by simp only [fire]; omega

/-- Take what the holder of a handle does, and answer if it is a command. -/
def take (l : Loop w) (deed : Deed) (servers : Servers) : Option Answer × Loop w :=
  match deed with
  | .send command =>
    if l.running then
      let (answer, session) := command.carryOut l.session servers
      let l := { l with session }
      (some answer, if command = .shutdown then l.stop else l)
    else
      let events := if command = .shutdown then [.alreadyStopped] else []
      (some command.refusal, { l with session := l.session.tell events })
  | .clone => (none, { l with handles := l.handles + 1 })
  | .drop =>
    let l := { l with handles := l.handles - 1 }
    (none, if l.running ∧ l.handles = 0 then l.stop else l)

/-- Run through timed deeds, and on up to a time, with the answers to the commands. -/
def run (l : Loop w) (horizon : Nat) (servers : Nat → Servers) :
    List (Nat × Deed) → List (Nat × Answer) × Loop w
  | [] => ([], l.waitUntil horizon servers)
  | (time, deed) :: rest =>
    let (answer, l) := (l.waitUntil time servers).take deed (servers time)
    let (answers, l) := l.run horizon servers rest
    ((answer.map fun a => (time, a)).toList ++ answers, l)

end Loop

/-- Let a scheduler run through timed deeds, with so many handles at first. -/
def follow [KeyValueStore w] [FilteringEngine w] (s : Scheduler w) (handles horizon : Nat)
    (servers : Nat → Servers) : List (Nat × Deed) → List (Nat × Answer) × Scheduler w
  | [] => ([], s.elapse (horizon - s.clock) servers)
  | (time, deed) :: rest =>
    let s := s.elapse (time - s.clock) servers
    match deed with
    | .send command =>
      let (answer, s) := s.deliver command (servers time)
      let (answers, s) := s.follow handles horizon servers rest
      ((time, answer) :: answers, s)
    | .clone => s.follow (handles + 1) horizon servers rest
    | .drop =>
      let s := if handles - 1 = 0 then s.stop else s
      s.follow (handles - 1) horizon servers rest

/-! ### Waiting -/

section Waiting

variable [KeyValueStore w] [FilteringEngine w]

/-- The cycles of some times, one after the other. -/
def cycleAt (session : Session w) (servers : Nat → Servers) (times : List Nat) : Session w :=
  times.foldl (fun session time => session.cycle false (servers time)) session

/-- Waiting leaves all but the session and the timer alone. -/
theorem Loop.waitUntil_frame (l : Loop w) (time : Nat) (servers : Nat → Servers) :
    (l.waitUntil time servers).period = l.period ∧
      (l.waitUntil time servers).handles = l.handles ∧
      (l.waitUntil time servers).running = l.running := by
  fun_induction waitUntil l time servers with
  | case1 l _ ih => exact ih
  | case2 l _ => exact ⟨rfl, rfl, rfl⟩

/-- A deed changes the number of handles, and nothing else but the session and the run. -/
theorem Loop.take_frame (l : Loop w) (deed : Deed) (servers : Servers) :
    (l.take deed servers).2.period = l.period ∧
      (l.take deed servers).2.handles = deed.handlesAfter l.handles := by
  cases deed with
  | send command =>
      simp only [take]
      split
      · split <;> exact ⟨rfl, rfl⟩
      · exact ⟨rfl, rfl⟩
  | clone => exact ⟨rfl, rfl⟩
  | drop =>
      simp only [take]
      split <;> exact ⟨rfl, rfl⟩

theorem Loop.waitUntil_of_stopped {l : Loop w} (h : l.running = false) (time : Nat)
    (servers : Nat → Servers) : l.waitUntil time servers = l := by
  rw [waitUntil, if_neg (by simp [h])]

/-- While a loop waits, it runs the cycles that fall due, and the timer is set to the next multiple of
the period ever after. -/
theorem Loop.waitUntil_eq {l : Loop w} (hrunning : l.running = true) (hperiod : 0 < l.period)
    {clock time : Nat} (hdeadline : l.deadline = nextDue l.period clock) (hclock : clock ≤ time)
    (servers : Nat → Servers) :
    l.waitUntil time servers =
      { l with
        session := cycleAt l.session servers (dueTimes l.period clock (time - clock))
        deadline := nextDue l.period time } := by
  -- The induction is on the number of firings up to the time.
  obtain ⟨count, hcount⟩ : ∃ count, time / l.period - clock / l.period = count := ⟨_, rfl⟩
  induction count generalizing l clock with
  | zero =>
      have hdiv : time / l.period = clock / l.period :=
        Nat.le_antisymm (Nat.sub_eq_zero_iff_le.mp hcount) (Nat.div_le_div_right hclock)
      have hnext : nextDue l.period time = nextDue l.period clock := by
        rw [nextDue, hdiv, nextDue]
      have hlt : time < nextDue l.period clock := hnext ▸ lt_nextDue hperiod time
      rw [waitUntil, if_neg (by omega), dueTimes_eq_nil hperiod hclock hlt, hnext, ← hdeadline]
      rfl
  | succ count ih =>
      have hpassed : clock / l.period + 1 ≤ time / l.period := by omega
      have htime : nextDue l.period clock ≤ time := (Nat.le_div_iff_mul_le hperiod).mp hpassed
      rw [waitUntil, if_pos ⟨hrunning, hperiod, by omega⟩, dueTimes_eq_cons hperiod htime]
      have hcount' : time / l.period - nextDue l.period clock / l.period = count := by
        rw [nextDue_div hperiod]
        omega
      have hdeadline' : (l.fire (servers l.deadline)).deadline =
          nextDue l.period (nextDue l.period clock) := by
        rw [nextDue_nextDue hperiod, ← hdeadline]
        rfl
      have hfired := ih (l := l.fire (servers l.deadline)) hrunning hperiod hdeadline' htime hcount'
      rw [hfired, hdeadline]
      rfl

end Waiting

/-! ### The scheduler and the loop -/

theorem clock_stop (s : Scheduler w) : s.stop.clock = s.clock := by
  rw [stop]
  split <;> rfl

section Deliver

variable [KeyValueStore w] [FilteringEngine w] {s : Scheduler w}

/-- A scheduler that runs carries a command out, and stops at a shutdown. -/
theorem deliver_of_running (h : s.running = true) (command : Command) (servers : Servers) :
    s.deliver command servers =
      ((command.carryOut s.session servers).1,
        if command = .shutdown then
          ({ s with session := (command.carryOut s.session servers).2 } : Scheduler w).stop
        else { s with session := (command.carryOut s.session servers).2 }) := by
  obtain ⟨session, periodSecs, clock, running⟩ := s
  obtain rfl : running = true := h
  cases command <;> rfl

/-- A scheduler that has stopped refuses a command. -/
theorem deliver_of_stopped (h : s.running = false) (command : Command) (servers : Servers) :
    s.deliver command servers =
      (command.refusal,
        { s with
          session := s.session.tell (if command = .shutdown then [.alreadyStopped] else []) }) := by
  obtain ⟨session, periodSecs, clock, running⟩ := s
  obtain rfl : running = false := h
  cases command <;> simp [deliver, Command.refusal, Session.tell]

theorem clock_deliver (s : Scheduler w) (command : Command) (servers : Servers) :
    (s.deliver command servers).2.clock = s.clock := by
  cases hrunning : s.running with
  | true =>
      rw [deliver_of_running hrunning]
      dsimp only
      split
      · exact clock_stop _
      · rfl
  | false => rw [deliver_of_stopped hrunning]

end Deliver

/-- A scheduler is where a loop is: what it counts from its clock is what the timer of the loop is set
to. -/
structure Agrees (s : Scheduler w) (l : Loop w) : Prop where
  session : s.session = l.session
  period : s.periodSecs = l.period
  running : s.running = l.running
  deadline : l.running = true → l.deadline = nextDue l.period s.clock

/-- They agree from the start, by a clock that counts seconds. -/
theorem agrees_start (session : Session w) (period : Nat) :
    (start session period).Agrees (.start session 1 period) := by
  rw [start, Loop.start, Nat.div_one]
  exact ⟨rfl, rfl, rfl, fun _ => (nextDue_zero period).symm⟩

namespace Agrees

variable {s : Scheduler w} {l : Loop w}

theorem stop (h : s.Agrees l) (hrunning : l.running = true) : s.stop.Agrees l.stop := by
  rw [Scheduler.stop, if_pos (h.running.trans hrunning), Loop.stop, ← h.session]
  exact ⟨rfl, h.period, rfl, fun hstopped => by cases hstopped⟩

variable [KeyValueStore w] [FilteringEngine w]

/-- They agree after a time in which nothing comes. -/
theorem elapse (h : s.Agrees l) (hperiod : 0 < l.period) {time : Nat} (hclock : s.clock ≤ time)
    (servers : Nat → Servers) :
    (s.elapse (time - s.clock) servers).Agrees (l.waitUntil time servers) ∧
      (s.elapse (time - s.clock) servers).clock = time := by
  refine ⟨?_, Nat.add_sub_cancel' hclock⟩
  cases hrunning : l.running with
  | false =>
      rw [Scheduler.elapse, h.running, hrunning, Loop.waitUntil_of_stopped hrunning]
      exact ⟨h.session, h.period, hrunning.symm, fun hl => by cases hrunning.symm.trans hl⟩
  | true =>
      rw [Scheduler.elapse, h.running, hrunning,
        Loop.waitUntil_eq hrunning hperiod (h.deadline hrunning) hclock, h.session, h.period]
      refine ⟨rfl, rfl, hrunning.symm, fun _ => ?_⟩
      dsimp only
      rw [Nat.add_sub_cancel' hclock]

/-- They answer a command the same and agree after it. -/
theorem deliver (h : s.Agrees l) (command : Command) (servers : Servers) :
    (l.take (.send command) servers).1 = some (s.deliver command servers).1 ∧
      (s.deliver command servers).2.Agrees (l.take (.send command) servers).2 := by
  rw [Loop.take]
  dsimp only
  cases hrunning : l.running with
  | true =>
      rw [deliver_of_running (h.running.trans hrunning), h.session, if_pos rfl]
      refine ⟨rfl, ?_⟩
      dsimp only
      have hdone : ({ s with session := (command.carryOut l.session servers).2 } : Scheduler w).Agrees
          { l with session := (command.carryOut l.session servers).2 } :=
        ⟨rfl, h.period, h.running, h.deadline⟩
      split
      · exact hrunning ▸ hdone.stop hrunning
      · exact hrunning ▸ hdone
  | false =>
      rw [deliver_of_stopped (h.running.trans hrunning), h.session, if_neg Bool.false_ne_true]
      exact ⟨rfl, rfl, h.period, h.running.trans hrunning, fun hl => by cases hl⟩

/-- They agree after a handle was given up. -/
theorem drop (h : s.Agrees l) (servers : Servers) :
    (if l.handles - 1 = 0 then s.stop else s).Agrees (l.take .drop servers).2 := by
  rw [Loop.take]
  dsimp only
  cases hrunning : l.running with
  | true =>
      have hless : s.Agrees { l with handles := l.handles - 1 } :=
        ⟨h.session, h.period, h.running, h.deadline⟩
      by_cases hlast : l.handles - 1 = 0
      · rw [if_pos hlast, if_pos ⟨rfl, hlast⟩]
        exact hless.stop hrunning
      · rw [if_neg hlast, if_neg fun hboth => hlast hboth.2]
        exact hrunning ▸ hless
  | false =>
      have hs : s.stop = s := by rw [Scheduler.stop, if_neg (by simp [h.running, hrunning])]
      rw [hs, ite_self, if_neg (by simp)]
      exact ⟨h.session, h.period, h.running.trans hrunning, fun hl => by cases hl⟩

end Agrees

variable [KeyValueStore w] [FilteringEngine w]

/-- A scheduler does what the loop does: it gives the same answers and ends in the same session. -/
theorem follow_eq_run {s : Scheduler w} {l : Loop w} (h : s.Agrees l) (hperiod : 0 < l.period)
    {deeds : List (Nat × Deed)} (hordered : deeds.Pairwise (·.1 ≤ ·.1)) {horizon : Nat}
    (hclock : ∀ d ∈ deeds, s.clock ≤ d.1) (hhorizon : ∀ d ∈ deeds, d.1 ≤ horizon)
    (hend : s.clock ≤ horizon) (servers : Nat → Servers) :
    (s.follow l.handles horizon servers deeds).1 = (l.run horizon servers deeds).1 ∧
      (s.follow l.handles horizon servers deeds).2.Agrees (l.run horizon servers deeds).2 := by
  induction deeds generalizing s l with
  | nil => exact ⟨rfl, (h.elapse hperiod hend servers).1⟩
  | cons d rest ih =>
      obtain ⟨time, deed⟩ := d
      obtain ⟨hfirst, hrest⟩ := List.pairwise_cons.mp hordered
      obtain ⟨hwait, htime⟩ := h.elapse hperiod (hclock _ List.mem_cons_self) servers
      have hhorizon' : ∀ d ∈ rest, d.1 ≤ horizon := fun d hd =>
        hhorizon d (List.mem_cons_of_mem _ hd)
      have hend' : time ≤ horizon := hhorizon _ List.mem_cons_self
      have hnext {s' : Scheduler w} {l' : Loop w} (h' : s'.Agrees l') (hperiod' : l'.period = l.period)
          (hclock' : s'.clock = time) := ih h' (hperiod'.symm ▸ hperiod) hrest
            (fun d hd => hclock'.symm ▸ hfirst d hd) hhorizon' (hclock'.symm ▸ hend')
      obtain ⟨hwaited, hhandles, -⟩ := l.waitUntil_frame time servers
      obtain ⟨htaken, hleft⟩ := (l.waitUntil time servers).take_frame deed (servers time)
      simp only [follow, Loop.run]
      cases deed with
      | send command =>
          obtain ⟨hanswer, hagrees⟩ := hwait.deliver command (servers time)
          obtain ⟨hanswers, hlast⟩ := hnext hagrees (htaken.trans hwaited)
            ((clock_deliver _ command (servers time)).trans htime)
          rw [hleft, Deed.handlesAfter, hhandles] at hanswers hlast
          rw [hanswer]
          exact ⟨congrArg _ hanswers, hlast⟩
      | clone =>
          have hagrees : (s.elapse (time - s.clock) servers).Agrees
              ((l.waitUntil time servers).take .clone (servers time)).2 :=
            ⟨hwait.session, hwait.period, hwait.running, hwait.deadline⟩
          have hlast := hnext hagrees (htaken.trans hwaited) htime
          rwa [hleft, Deed.handlesAfter, hhandles] at hlast
      | drop =>
          have hlast := hnext (hwait.drop (servers time)) (htaken.trans hwaited)
            (by split <;> simp [clock_stop, htime])
          rwa [hleft, Deed.handlesAfter, hhandles] at hlast

end Scheduler

end Blocklist
