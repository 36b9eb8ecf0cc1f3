import Blocklist.Session

/-!
# Refreshing on a schedule

A session that refreshes itself at every multiple of a period, and takes commands in between. It runs
until it is told to stop or nobody is left to command it; then it takes no command any more.

## Implementation notes

Time is counted in seconds from the start, and an operation takes none. `elapse` runs the cycles that
fall due up to the new time, so a run is a sequence of `elapse` and `deliver`.
-/

namespace Blocklist

/-- What a scheduler is told. -/
inductive Scheduler.Command where
  /-- Refresh at once, and download everything if `force` says so. -/
  | refresh (force : Bool)
  | toggle (target : ToggleTarget) (enabled : Bool)
  | status
  | shutdown
  deriving DecidableEq, Repr, Inhabited

/-- What a scheduler answers; nothing but a refusal once it has stopped. -/
inductive Scheduler.Answer where
  /-- Whether a refresh is made. -/
  | refresh (accepted : Bool)
  /-- The number of lists covered. -/
  | toggle (count : Option Nat)
  | status (status : Option RegistryStatus)
  | shutdown

/-- A session on a schedule. -/
structure Scheduler (w : Type) where
  session : Session w
  /-- The seconds between two cycles. -/
  periodSecs : Nat
  /-- The seconds since the start. -/
  clock : Nat
  running : Bool

namespace Scheduler

variable {w : Type}

/-- Start a schedule. The first cycle comes after one period. -/
def start (session : Session w) (periodSecs : Nat) : Scheduler w :=
  ⟨session.tell [.schedulerStarted periodSecs], periodSecs, 0, true⟩

/-- The times of the cycles that fall due after `clock`, up to `secs` later. -/
def dueTimes (periodSecs clock secs : Nat) : List Nat :=
  let passed := clock / periodSecs
  (List.range ((clock + secs) / periodSecs - passed)).map fun i => (passed + 1 + i) * periodSecs

/-- Stop a schedule that runs. -/
def stop (s : Scheduler w) : Scheduler w :=
  if s.running then { s with session := s.session.tell [.schedulerStopped], running := false }
  else s

variable [KeyValueStore w] [FilteringEngine w]

/-- Let time pass, and run the cycles that fall due. `servers` answer by the time of the cycle. -/
def elapse (s : Scheduler w) (secs : Nat) (servers : Nat → Servers) : Scheduler w :=
  let session :=
    if s.running then
      (dueTimes s.periodSecs s.clock secs).foldl (fun session time => session.cycle false (servers time))
        s.session
    else s.session
  { s with session, clock := s.clock + secs }

/-- Carry out a command at once. -/
def deliver (s : Scheduler w) (command : Command) (servers : Servers) : Answer × Scheduler w :=
  match command, s.running with
  | .refresh force, true =>
    (.refresh true,
      { s with session := (s.session.tell [.refreshRequested force]).cycle force servers })
  | .refresh _, false => (.refresh false, s)
  | .toggle target enabled, true =>
    let (count, session) := s.session.toggle target enabled
    (.toggle (some count), { s with session })
  | .toggle _ _, false => (.toggle none, s)
  | .status, true => (.status (some s.session.registry.status), s)
  | .status, false => (.status none, s)
  | .shutdown, true => (.shutdown, s.stop)
  | .shutdown, false => (.shutdown, { s with session := s.session.tell [.alreadyStopped] })

end Scheduler

end Blocklist
