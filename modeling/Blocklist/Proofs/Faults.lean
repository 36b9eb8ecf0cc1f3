import Blocklist.Engine
import Blocklist.Store

/-!
# Calls that fail on schedule

A store or an engine whose calls fail at times that a schedule fixes in advance. A call that fails
changes nothing. As the schedule is any function of the number of the call, what holds of every
schedule holds of every pattern of failures, also of one that hits the second call of an operation
and spares the first.
-/

namespace Blocklist

/-- A device some of whose calls fail. -/
structure Faulty (δ ε : Type) where
  device : δ
  /-- The error of the call with a number, if that call fails. -/
  fault : Nat → Option ε
  /-- The number of calls so far. -/
  calls : Nat

namespace Faulty

variable {δ ε α : Type}

/-- Call the device, unless the call is one that fails. -/
def call (s : Faulty δ ε) (run : δ → Except ε α × δ) : Except ε α × Faulty δ ε :=
  match s.fault s.calls with
  | some error => (.error error, { s with calls := s.calls + 1 })
  | none =>
    let (result, device) := run s.device
    (result, { s with device, calls := s.calls + 1 })

instance [KeyValueStore δ] : KeyValueStore (Faulty δ StoreError) where
  get key s := s.call (KeyValueStore.get key)
  set items s := s.call (KeyValueStore.set items)

instance [FilteringEngine δ] : FilteringEngine (Faulty δ EngineError) where
  ruleIds s := s.call FilteringEngine.ruleIds
  update update s := s.call (FilteringEngine.update update)

/-- A device whose calls all reach it. -/
def sound (device : δ) : Faulty δ ε :=
  ⟨device, fun _ => none, 0⟩

/-- The same device after some calls that did not change it. -/
def passed (s : Faulty δ ε) (calls : Nat) : Faulty δ ε :=
  { s with calls := s.calls + calls }

theorem call_of_fault {s : Faulty δ ε} {error : ε} (h : s.fault s.calls = some error)
    (run : δ → Except ε α × δ) : s.call run = (.error error, s.passed 1) := by
  simp only [call, h, passed]

theorem call_of_sound {s : Faulty δ ε} (h : s.fault s.calls = none) (run : δ → Except ε α × δ) :
    s.call run = ((run s.device).1, { s.passed 1 with device := (run s.device).2 }) := by
  simp only [call, h, passed]

end Faulty

/-- A store some of whose reads fail, and none of whose writes. -/
structure ReadFaulty (δ : Type) extends Faulty δ StoreError

namespace ReadFaulty

variable {δ : Type}

instance [KeyValueStore δ] : KeyValueStore (ReadFaulty δ) where
  get key s :=
    let (result, s) := KeyValueStore.get key s.toFaulty
    (result, ⟨s⟩)
  set items s :=
    let (result, device) := KeyValueStore.set items s.device
    (result, ⟨{ s.toFaulty with device }⟩)

end ReadFaulty

/-- A store some of whose writes fail, and none of whose reads. The schedule is by the number of the
write. -/
structure WriteFaulty (δ : Type) extends Faulty δ StoreError

namespace WriteFaulty

variable {δ : Type}

instance [KeyValueStore δ] : KeyValueStore (WriteFaulty δ) where
  get key s :=
    let (result, device) := KeyValueStore.get key s.device
    (result, ⟨{ s.toFaulty with device }⟩)
  set items s :=
    let (result, s) := KeyValueStore.set items s.toFaulty
    (result, ⟨s⟩)

end WriteFaulty

end Blocklist
