import Blocklist.Proofs.Operation

/-!
# What operations answer and request

An operation answers by the registry as it finds it after its reading. Nothing else goes into an
answer but what the reading came to, what the engine made of the assembled rules and, for an
explicit save, what the store made of the state. What is requested is decided by the registry alone.
-/

namespace Blocklist

namespace Refresh

/-- The summary of a refresh. -/
def summary (refresh : Refresh) (appliedRules : Option Nat) : RefreshSummary :=
  ⟨refresh.count .updated, refresh.count .notModified, refresh.count .failed, appliedRules⟩

end Refresh

namespace Session

namespace Operation

/-- What an operation requests with a registry after its reading. -/
def requests (r : Registry) : Operation → List Request
  | .start servers => (r.refreshEnabled false servers).requests
  | .refreshAll force servers => (r.refreshEnabled force servers).requests
  | .refreshList id force servers => ((r.refreshList? id force servers).map (·.requests)).getD []
  | _ => []

/-- What an operation answers with a registry after its reading: by the number of flags `read` from
the store, what the engine `applied` of the rules, and the outcome `saved` of saving. -/
def answer (r : Registry) (read : Except StoreError Nat) (applied : Option AssemblyStats)
    (saved : Except StoreError Unit) : Operation → Answer
  | .start servers =>
    .refreshed ((r.refreshEnabled false servers).summary (applied.map (·.after)))
  | .load => .stored (read.map fun _ => ())
  | .save => .stored saved
  | .adoptFlags => .adopted read
  | .refreshAll force servers =>
    .refreshed ((r.refreshEnabled force servers).summary (applied.map (·.after)))
  | .refreshList id force servers =>
    .found (((r.refreshList? id force servers).map (·.count .failed == 0)).getD false)
  | .toggleList id _ => .found (r.list? id).isSome
  | .toggleCategory category _ => .covered (r.listsIn category).length
  | .toggle (.list id) _ => .covered (r.list? id).isSome.toNat
  | .toggle (.category category) _ => .covered (r.listsIn category).length
  | .applyRules => .applied applied
  | .cosmeticRules host => .cosmeticRules (r.cosmeticRulesFor host)
  | .scriptlets host => .scriptlets (r.scriptletsFor host)
  | .status => .status r.status

end Operation

/-- What a reading comes to: the number of flags taken over, where it is for flags alone. -/
def readingResult {w : Type} [KeyValueStore w] (s : Session w) : Reading → Except StoreError Nat
  | .nothing => .ok 0
  | .flags => s.adoptFlags.1
  | .state => s.load.1.map fun _ => 0

/-- What an engine makes of the rules of a registry. -/
def applied {w : Type} [FilteringEngine w] (r : Registry) (world : w) : Option AssemblyStats :=
  (installRules r.ruleSlices r.budget world).1.toOption

section Steps

variable {w : Type} (s : Session w)

@[simp] theorem requests_tell (events : List Event) : (s.tell events).requests = s.requests :=
  rfl

@[simp] theorem requests_withRefresh (refresh : Refresh) :
    (s.withRefresh refresh).requests = s.requests ++ refresh.requests :=
  rfl

theorem applyRules_fst [FilteringEngine w] :
    s.applyRules.1 = applied s.registry s.world ∧ s.applyRules.2.requests = s.requests := by
  rw [applyRules, applied]
  split <;> rename_i h <;> simp [h, Except.toOption]

variable [KeyValueStore w]

@[simp] theorem requests_persist : s.persist.requests = s.requests := by
  rw [persist]
  split <;> rename_i h <;> simpa [save] using congrArg (·.2.requests) h.symm

@[simp] theorem requests_load : s.load.2.requests = s.requests := by
  rw [load]
  split <;> simp

@[simp] theorem requests_adoptFlags : s.adoptFlags.2.requests = s.requests := by
  rw [adoptFlags]
  split <;> simp

@[simp] theorem requests_afterReading (reading : Reading) :
    (s.afterReading reading).requests = s.requests := by
  cases reading with
  | nothing => rfl
  | flags => exact s.requests_adoptFlags
  | state => exact s.requests_load

variable [FilteringEngine w]

@[simp] theorem applyAndPersist_fst : s.applyAndPersist.1 = applied s.registry s.world :=
  s.applyRules_fst.1

@[simp] theorem requests_applyAndPersist : s.applyAndPersist.2.requests = s.requests := by
  simp [applyAndPersist, s.applyRules_fst.2]

end Steps

section Operations

variable {w : Type} [KeyValueStore w] [FilteringEngine w] (s : Session w)

theorem refreshAll_fst (force : Bool) (servers : Servers) :
    let refresh := s.registry.refreshEnabled force servers
    (s.refreshAll force servers).1 =
        refresh.summary ((applied refresh.registry s.world).map (·.after)) ∧
      (s.refreshAll force servers).2.requests = s.requests ++ refresh.requests := by
  simp [refreshAll, Refresh.summary]

theorem start_fst (servers : Servers) :
    (s.start servers).1 = (s.load.2.refreshAll false servers).1 ∧
      (s.start servers).2.requests = (s.load.2.refreshAll false servers).2.requests := by
  rw [start]
  split <;> rename_i h <;> simp [h, refreshAll_fst]

theorem refreshList_fst (id : String) (force : Bool) (servers : Servers) :
    (s.refreshList id force servers).1 =
        ((s.registry.refreshList? id force servers).map (·.count .failed == 0)).getD false ∧
      (s.refreshList id force servers).2.requests =
        s.requests ++ ((s.registry.refreshList? id force servers).map (·.requests)).getD [] := by
  rw [refreshList]
  cases s.registry.refreshList? id force servers <;> simp

theorem toggleList_fst (id : String) (enabled : Bool) :
    (s.toggleList id enabled).1 = (s.registry.list? id).isSome ∧
      (s.toggleList id enabled).2.requests = s.requests := by
  rw [toggleList]
  cases s.registry.list? id <;> simp

theorem toggleCategory_fst (category : String) (enabled : Bool) :
    (s.toggleCategory category enabled).1 = (s.registry.listsIn category).length ∧
      (s.toggleCategory category enabled).2.requests = s.requests := by
  by_cases h : s.registry.listsIn category = [] <;> simp [toggleCategory, h]

/-- What an operation answers and requests. -/
theorem perform_eq (op : Operation) :
    let r := (s.afterReading op.reading).registry
    let world := (s.afterReading op.reading).world
    (s.perform op).1 =
        op.answer r (s.readingResult op.reading) (applied (op.change r) world)
          (SavedState.write r.savedState world).1 ∧
      (s.after op).requests = s.requests ++ op.requests r := by
  cases op with
  | start servers =>
      obtain ⟨hanswer, hrequests⟩ := s.start_fst servers
      obtain ⟨hanswer', hrequests'⟩ := s.load.2.refreshAll_fst false servers
      refine ⟨congrArg Answer.refreshed (hanswer.trans hanswer'), ?_⟩
      exact (hrequests.trans hrequests').trans (by rw [requests_load]; rfl)
  | load =>
      have hload : s.load.1 = (s.load.1.map fun _ => 0).map fun _ => () := by
        generalize s.load.1 = result
        cases result <;> rfl
      exact ⟨congrArg Answer.stored hload, by simp [after, perform, Operation.requests]⟩
  | save => exact ⟨rfl, (List.append_nil _).symm⟩
  | adoptFlags => exact ⟨rfl, by simp [after, perform, Operation.requests]⟩
  | refreshAll force servers =>
      obtain ⟨hanswer, hrequests⟩ := s.refreshAll_fst force servers
      exact ⟨congrArg Answer.refreshed hanswer, hrequests⟩
  | refreshList id force servers =>
      obtain ⟨hanswer, hrequests⟩ := s.refreshList_fst id force servers
      exact ⟨congrArg Answer.found hanswer, hrequests⟩
  | toggleList id enabled =>
      obtain ⟨hanswer, hrequests⟩ := s.toggleList_fst id enabled
      exact ⟨congrArg Answer.found hanswer, hrequests.trans (List.append_nil _).symm⟩
  | toggleCategory category enabled =>
      obtain ⟨hanswer, hrequests⟩ := s.toggleCategory_fst category enabled
      exact ⟨congrArg Answer.covered hanswer, hrequests.trans (List.append_nil _).symm⟩
  | toggle target enabled =>
      cases target with
      | list id =>
          obtain ⟨hanswer, hrequests⟩ := s.toggleList_fst id enabled
          exact ⟨congrArg (fun found : Bool => Answer.covered found.toNat) hanswer,
            hrequests.trans (List.append_nil _).symm⟩
      | category category =>
          obtain ⟨hanswer, hrequests⟩ := s.toggleCategory_fst category enabled
          exact ⟨congrArg Answer.covered hanswer, hrequests.trans (List.append_nil _).symm⟩
  | applyRules =>
      obtain ⟨hanswer, hrequests⟩ := s.applyRules_fst
      exact ⟨congrArg Answer.applied hanswer, hrequests.trans (List.append_nil _).symm⟩
  | cosmeticRules host => exact ⟨rfl, (List.append_nil _).symm⟩
  | scriptlets host => exact ⟨rfl, (List.append_nil _).symm⟩
  | status => exact ⟨rfl, (List.append_nil _).symm⟩

end Operations

end Session

end Blocklist
