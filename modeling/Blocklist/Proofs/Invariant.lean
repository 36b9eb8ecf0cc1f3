import Blocklist.Proofs.Operation
import Mathlib.Data.List.Forall2

/-!
# What runs preserve

A property of registries that every change of a registry keeps holds after every run of operations.
It goes with a property of saved states, since a registry takes over what some registry saved
before, and with one of stores, since what is read depends on what the store keeps.

## Implementation notes

`Fleet` is several registries that share a store and an engine; each step is an operation of one of
them, or a new registry. A run of one registry is the case of a fleet of one.
-/

namespace Blocklist

/-- A property of registries, and one of saved states, that every change keeps. Refreshes count as
far as their servers are allowed. -/
structure Registry.Invariant (allowed : Servers → Prop) (I : Registry → Prop)
    (J : SavedState → Prop) : Prop where
  restored : ∀ {r state}, I r → J state → I (r.restored state)
  withFlags : ∀ {r} metadata, I r → I (r.withFlags metadata)
  refresh : ∀ {r} chosen force {servers}, allowed servers → I r →
    I (r.refresh chosen force servers).registry
  withList : ∀ {r} id enabled, I r → I (r.withList id enabled)
  withCategory : ∀ {r} category enabled, I r → I (r.withCategory category enabled)
  savedState : ∀ {r}, I r → J r.savedState

/-- A property of stores that reading and saving keep, and that what is read goes with. -/
structure StoreInvariant {σ : Type} [KeyValueStore σ] (K : σ → Prop) (J : SavedState → Prop) :
    Prop where
  read : ∀ {store}, K store → K (SavedState.read store).2
  state : ∀ {store state}, K store → (SavedState.read store).1 = .ok state → J state
  readMetadata : ∀ {store}, K store → K (SavedState.readMetadata store).2
  write : ∀ {store state}, K store → J state → K (SavedState.write state store).2

/-- Nothing is asked of a store. -/
theorem StoreInvariant.trivial {σ : Type} [KeyValueStore σ] :
    StoreInvariant (fun _ : σ => True) fun _ => True :=
  ⟨fun _ => .intro, fun _ _ => .intro, fun _ => .intro, fun _ _ => .intro⟩

namespace Session

/-- The servers that an operation asks. -/
def Operation.servers? : Operation → Option Servers
  | .start servers | .refreshAll _ servers | .refreshList _ _ servers => some servers
  | _ => none

variable {allowed : Servers → Prop} {I : Registry → Prop} {J : SavedState → Prop}

/-- The change that an operation makes keeps an invariant. -/
theorem change_invariant (hI : Registry.Invariant allowed I J) {r : Registry} {op : Operation}
    (hop : ∀ servers ∈ op.servers?, allowed servers) (hr : I r) : I (op.change r) := by
  cases op with
  | start servers => exact hI.refresh _ _ (hop _ rfl) hr
  | refreshAll force servers => exact hI.refresh _ _ (hop _ rfl) hr
  | refreshList id force servers =>
      simp only [Operation.change, Registry.refreshList?]
      cases r.lists.findIdx? (·.id == id) with
      | none => exact hr
      | some place => exact hI.refresh _ _ (hop _ rfl) hr
  | toggleList id enabled => exact hI.withList _ _ hr
  | toggleCategory category enabled => exact hI.withCategory _ _ hr
  | toggle target enabled =>
      cases target with
      | list id => exact hI.withList _ _ hr
      | category category => exact hI.withCategory _ _ hr
  | load => exact hr
  | save => exact hr
  | adoptFlags => exact hr
  | applyRules => exact hr
  | cosmeticRules host => exact hr
  | scriptlets host => exact hr
  | status => exact hr

section Store

variable {σ ε : Type} [KeyValueStore σ] [FilteringEngine ε] {K : σ → Prop}

omit [FilteringEngine ε] in
/-- Reading keeps the invariants of registry and store. -/
theorem afterReading_invariant (hI : Registry.Invariant allowed I J) (hK : StoreInvariant K J)
    {s : Session (Backend σ ε)} (reading : Reading) (hr : I s.registry) (hs : K s.world.store) :
    I (s.afterReading reading).registry ∧ K (s.afterReading reading).world.store := by
  cases reading with
  | nothing => exact ⟨hr, hs⟩
  | flags =>
      simp only [afterReading, registry_adoptFlags, world_adoptFlags, Backend.readMetadata_eq]
      refine ⟨?_, hK.readMetadata hs⟩
      split
      · exact hI.withFlags _ hr
      · exact hr
  | state =>
      simp only [afterReading, registry_load, world_load, Backend.read_eq]
      refine ⟨?_, hK.read hs⟩
      split
      · rename_i state hstate
        exact hI.restored hr (hK.state hs hstate)
      · exact hr

/-- An operation keeps the invariants of registry and store. -/
theorem after_invariant (hI : Registry.Invariant allowed I J) (hK : StoreInvariant K J)
    {s : Session (Backend σ ε)} {op : Operation} (hop : ∀ servers ∈ op.servers?, allowed servers)
    (hr : I s.registry) (hs : K s.world.store) :
    I (s.after op).registry ∧ K (s.after op).world.store := by
  obtain ⟨hr', hs'⟩ := afterReading_invariant hI hK op.reading hr hs
  have hchanged : I (s.after op).registry := by
    rw [(s.after_eq op).1]
    exact change_invariant hI hop hr'
  refine ⟨hchanged, ?_⟩
  rw [store_after]
  split
  · exact hK.write hs' (hI.savedState hchanged)
  · exact hs'

/-- A run of operations keeps the invariants of registry and store. -/
theorem run_invariant (hI : Registry.Invariant allowed I J) (hK : StoreInvariant K J)
    {s : Session (Backend σ ε)} {ops : List Operation}
    (hops : ∀ op ∈ ops, ∀ servers ∈ op.servers?, allowed servers)
    (hr : I s.registry) (hs : K s.world.store) :
    I (s.run ops).registry ∧ K (s.run ops).world.store := by
  induction ops generalizing s with
  | nil => exact ⟨hr, hs⟩
  | cons op ops ih =>
      obtain ⟨hr', hs'⟩ := after_invariant hI hK (hops op List.mem_cons_self) hr hs
      exact ih (fun op hop => hops op (List.mem_cons_of_mem _ hop)) hr' hs'

end Store

end Session

/-! ### Several registries -/

/-- Registries that share a store and an engine. -/
structure Fleet (w : Type) where
  registries : List Registry
  world : w

namespace Fleet

/-- What happens to a fleet: a registry opens with settings of its own, or the registry at a place
carries out an operation. -/
inductive Step where
  | opening (settings : Settings)
  | operation (place : Nat) (op : Session.Operation)

/-- The servers that a step asks. -/
def Step.servers? : Step → Option Servers
  | .opening _ => none
  | .operation _ op => op.servers?

/-- The settings that a step opens a registry with. -/
def Step.opened? : Step → Option Settings
  | .opening settings => some settings
  | .operation _ _ => none

/-- The settings of the registries that open in a run, in their order. -/
def openings (steps : List Step) : List Settings :=
  steps.filterMap Step.opened?

variable {w : Type} [KeyValueStore w] [FilteringEngine w]

/-- The fleet after a step. Nothing happens at a place without a registry. -/
def after (manifest : Manifest) (f : Fleet w) : Step → Fleet w
  | .opening settings =>
    { f with registries := f.registries ++ [.ofManifest manifest settings] }
  | .operation place op =>
    match f.registries[place]? with
    | none => f
    | some r =>
      let s := (Session.ofRegistry r f.world).after op
      ⟨f.registries.set place s.registry, s.world⟩

/-- The fleet after a run of steps, from a world that no registry has touched. -/
def run (manifest : Manifest) (world : w) (steps : List Step) : Fleet w :=
  steps.foldl (after manifest) ⟨[], world⟩

end Fleet

/-- Members that are related pair by pair stay so when one is replaced by another that is related. -/
theorem forall₂_set {α β : Type} {R : α → β → Prop} {as : List α} {bs : List β}
    (h : List.Forall₂ R as bs) {place : Nat} {b : β}
    (hb : ∀ a, as[place]? = some a → R a b) : List.Forall₂ R as (bs.set place b) := by
  induction h generalizing place with
  | nil => exact .nil
  | cons hfirst hrest ih =>
      cases place with
      | zero => exact .cons (hb _ rfl) hrest
      | succ place => exact .cons hfirst (ih hb)

/-- At a place of one list stands what is related to the member at that place of the other one. -/
theorem exists_getElem?_of_forall₂ {α β : Type} {R : α → β → Prop} {as : List α} {bs : List β}
    (h : List.Forall₂ R as bs) {place : Nat} {b : β} (hb : bs[place]? = some b) :
    ∃ a, as[place]? = some a ∧ R a b := by
  induction h generalizing place with
  | nil => cases hb
  | cons hfirst _ ih =>
      cases place with
      | zero => exact ⟨_, rfl, Option.some.inj hb ▸ hfirst⟩
      | succ place => exact ih hb

namespace Fleet

variable {allowed : Servers → Prop} {I : Settings → Registry → Prop} {J : SavedState → Prop}
variable {σ ε : Type} [KeyValueStore σ] [FilteringEngine ε] {K : σ → Prop}

/-- A step keeps the invariants of all registries, each with its settings, and of the store. -/
theorem after_invariant (hI : ∀ settings, Registry.Invariant allowed (I settings) J)
    (hK : StoreInvariant K J) {manifest : Manifest}
    (hopen : ∀ settings, I settings (.ofManifest manifest settings)) {f : Fleet (Backend σ ε)}
    {step : Step} (hstep : ∀ servers ∈ step.servers?, allowed servers) {opened : List Settings}
    (hf : List.Forall₂ I opened f.registries ∧ K f.world.store) :
    List.Forall₂ I (opened ++ step.opened?.toList) (f.after manifest step).registries ∧
      K (f.after manifest step).world.store := by
  obtain ⟨hr, hs⟩ := hf
  cases step with
  | opening settings => exact ⟨List.rel_append hr (.cons (hopen settings) .nil), hs⟩
  | operation place op =>
      simp only [after, Step.opened?, Option.toList_none, List.append_nil]
      cases hplace : f.registries[place]? with
      | none => exact ⟨hr, hs⟩
      | some r =>
          obtain ⟨settings, hsettings, hI'⟩ := exists_getElem?_of_forall₂ hr hplace
          have hsession := Session.after_invariant (s := Session.ofRegistry r f.world) (hI settings)
            hK hstep hI' hs
          refine ⟨forall₂_set hr fun settings' hsettings' => ?_, hsession.2⟩
          rw [← Option.some.inj (hsettings.symm.trans hsettings')]
          exact hsession.1

/-- Every registry of a fleet has an invariant after every run, with the settings that it opened
with, and so has the store. -/
theorem run_invariant_openings (hI : ∀ settings, Registry.Invariant allowed (I settings) J)
    (hK : StoreInvariant K J) {manifest : Manifest}
    (hopen : ∀ settings, I settings (.ofManifest manifest settings)) {world : Backend σ ε}
    (hworld : K world.store) {steps : List Step}
    (hsteps : ∀ step ∈ steps, ∀ servers ∈ step.servers?, allowed servers) :
    List.Forall₂ I (openings steps) (run manifest world steps).registries ∧
      K (run manifest world steps).world.store := by
  suffices h : ∀ (opened : List Settings) (f : Fleet (Backend σ ε)),
      List.Forall₂ I opened f.registries ∧ K f.world.store →
      List.Forall₂ I (opened ++ openings steps) (steps.foldl (after manifest) f).registries ∧
        K (steps.foldl (after manifest) f).world.store from
    h [] ⟨[], world⟩ ⟨.nil, hworld⟩
  induction steps with
  | nil => exact fun opened f hf => (List.append_nil opened).symm ▸ hf
  | cons step steps ih =>
      intro opened f hf
      have hopened : opened ++ openings (step :: steps) =
          opened ++ step.opened?.toList ++ openings steps := by
        cases step with
        | opening settings => exact (List.append_assoc opened [settings] (openings steps)).symm
        | operation place op =>
            rw [Step.opened?, Option.toList_none, List.append_nil, openings, openings,
              List.filterMap_cons_none rfl]
      rw [hopened]
      exact ih (fun step hmem => hsteps step (List.mem_cons_of_mem _ hmem)) _ _
        (after_invariant hI hK hopen (hsteps step List.mem_cons_self) hf)

/-- Every registry of a fleet has an invariant after every run, and so has the store. -/
theorem run_invariant {I : Registry → Prop} (hI : Registry.Invariant allowed I J)
    (hK : StoreInvariant K J) {manifest : Manifest}
    (hopen : ∀ settings, I (.ofManifest manifest settings)) {world : Backend σ ε}
    (hworld : K world.store) {steps : List Step}
    (hsteps : ∀ step ∈ steps, ∀ servers ∈ step.servers?, allowed servers) :
    (∀ r ∈ (run manifest world steps).registries, I r) ∧
      K (run manifest world steps).world.store := by
  obtain ⟨hr, hs⟩ := run_invariant_openings (I := fun _ => I) (fun _ => hI) hK hopen hworld hsteps
  refine ⟨fun r hmem => ?_, hs⟩
  obtain ⟨place, hplace⟩ := List.mem_iff_getElem?.mp hmem
  obtain ⟨_, _, hI'⟩ := exists_getElem?_of_forall₂ hr hplace
  exact hI'

end Fleet

end Blocklist
