import Blocklist.Proofs.SharedStore
import Blocklist.Scheduler

/-!
# Toggles by others while a schedule runs

Other processes load the state from the store of a scheduler, toggle, and save. A cycle of the
scheduler takes over the stored flags before it saves its own ones, so a foreign toggle takes effect
there. A toggle that the scheduler carries out itself saves all of its flags without taking over
any, so it undoes what others toggled since the last cycle, whichever lists it covers itself.

## Implementation notes

`Scheduler.Move` is whatever may happen between two moments: the time of the scheduler passes, it
gets a command, or another registry toggles. `Scheduler.Quiet` is a run without a cycle and without
a toggle of one list; `flagged_quiet_move` says what one move of such a run does to the flags of the
list, and `flagged_quiet_run` is its induction.
-/

namespace Blocklist

namespace Scheduler

/-- What happens around a store: time passes for the scheduler, it is told something, or another
registry, with an engine of its own, loads the state and then toggles. -/
inductive Move where
  | elapse (secs : Nat) (servers : Nat → Servers)
  | deliver (command : Command) (servers : Servers)
  | foreign (other : Registry) (engine : MemoryEngine) (target : ToggleTarget) (enabled : Bool)

namespace Move

/-- Another registry is one of the same lists. -/
def On (lists : List FilterList) : Move → Prop
  | .foreign other _ _ _ => other.catalogue = lists
  | _ => True

/-- What a move toggles. -/
def target? : Move → Option ToggleTarget
  | .deliver (.toggle target _) _ | .foreign _ _ target _ => some target
  | _ => none

/-- Whether a move makes the scheduler save its flags without a cycle. -/
def overwrites (lists : List FilterList) : Move → Bool
  | .deliver (.toggle target _) _ => lists.any target.covers
  | _ => false

end Move

/-- The scheduler after a move. -/
def after (s : Scheduler MemoryBackend) : Move → Scheduler MemoryBackend
  | .elapse secs servers => s.elapse secs servers
  | .deliver command servers => (s.deliver command servers).2
  | .foreign other engine target enabled =>
    let session := (Session.ofRegistry other
      (⟨s.session.world.store, engine⟩ : MemoryBackend)).run [.load, .toggle target enabled]
    let world := { s.session.world with store := session.world.store }
    { s with session := { s.session with world } }

/-- The scheduler after a run of moves. -/
def run (s : Scheduler MemoryBackend) (moves : List Move) : Scheduler MemoryBackend :=
  moves.foldl after s

/-- Whether a move brings a cycle. -/
def cycles (s : Scheduler MemoryBackend) : Move → Bool
  | .elapse secs _ => s.running && !(dueTimes s.periodSecs s.clock secs).isEmpty
  | .deliver (.refresh _) _ => s.running
  | _ => false

/-- No move of a run brings a cycle, and none toggles a list. -/
def Quiet (x : FilterList) (s : Scheduler MemoryBackend) : List Move → Prop
  | [] => True
  | move :: rest =>
    s.cycles move = false ∧ (∀ target ∈ move.target?, target.covers x = false) ∧
      Quiet x (s.after move) rest

variable {s : Scheduler MemoryBackend}

/-- A scheduler that has stopped does not run again. -/
theorem running_of_after {move : Move} (h : (s.after move).running = true) : s.running = true := by
  cases move with
  | elapse secs servers => exact h
  | foreign other engine target enabled => exact h
  | deliver command servers =>
      cases hrunning : s.running with
      | true => rfl
      | false => cases command <;> simp [after, deliver, hrunning] at h

theorem running_of_run {moves : List Move} (h : (s.run moves).running = true) :
    s.running = true := by
  induction moves generalizing s with
  | nil => exact h
  | cons move rest ih => exact running_of_after (ih h)

theorem running_of_cycles {move : Move} (h : s.cycles move = true) : s.running = true := by
  cases move with
  | elapse secs servers => exact (Bool.and_eq_true_iff.mp h).1
  | deliver command servers =>
      cases command with
      | refresh force => exact h
      | toggle target enabled => cases h
      | status => cases h
      | shutdown => cases h
  | foreign other engine target enabled => cases h

/-- A scheduler that runs toggles as its session does. -/
theorem session_deliver_toggle (h : s.running = true) (target : ToggleTarget) (enabled : Bool)
    (servers : Servers) :
    (s.deliver (.toggle target enabled) servers).2.session =
      s.session.after (.toggle target enabled) := by
  simp only [deliver, h]
  rfl

theorem session_elapse (h : s.running = true) (secs : Nat) (servers : Nat → Servers) :
    (s.elapse secs servers).session =
      (dueTimes s.periodSecs s.clock secs).foldl
        (fun session time => session.cycle false (servers time)) s.session := by
  rw [elapse, if_pos h]

end Scheduler

open Scheduler

namespace Session

variable {lists : List FilterList} {s : Session MemoryBackend}

theorem Sound.tell (h : s.Sound lists) (events : List Event) : (s.tell events).Sound lists :=
  h.congr rfl rfl

theorem Sound.foldl_cycle (h : s.Sound lists) (times : List Nat) (servers : Nat → Servers) :
    (times.foldl (fun session time => session.cycle false (servers time)) s).Sound lists := by
  induction times generalizing s with
  | nil => exact h
  | cons time rest ih => exact ih (h.cycle false (servers time))

/-- What prevails after one cycle still prevails after more of them. -/
theorem Prevails.foldl_cycle {id : String} {flag : Bool} (hflag : s.Prevails id flag)
    (h : s.Sound lists) (hids : (lists.map (·.id)).Nodup) (times : List Nat)
    (servers : Nat → Servers) :
    (times.foldl (fun session time => session.cycle false (servers time)) s).Prevails id flag := by
  induction times generalizing s with
  | nil => exact hflag
  | cons time rest ih =>
      have hnext := hflag.toFlagged.prevails_cycle h hids false (servers time)
      exact ih hnext (h.cycle false (servers time))

end Session

namespace Scheduler

variable {lists : List FilterList} {s : Scheduler MemoryBackend} {move : Move}

/-- Every move keeps the session of a scheduler sound. -/
theorem sound_after (h : s.session.Sound lists) (hon : move.On lists) :
    (s.after move).session.Sound lists := by
  cases move with
  | elapse secs servers =>
      cases hrunning : s.running with
      | true => exact (session_elapse hrunning secs servers).symm ▸ h.foldl_cycle _ servers
      | false => simpa [after, elapse, hrunning] using h
  | deliver command servers =>
      cases hrunning : s.running with
      | false =>
          refine h.congr ?_ ?_ <;> cases command <;> simp [after, deliver, hrunning]
      | true =>
          cases command with
          | refresh force =>
              simp only [after, deliver, hrunning]
              exact (h.tell _).cycle force servers
          | toggle target enabled =>
              exact (session_deliver_toggle hrunning target enabled servers).symm ▸ h.after _
          | status => simpa [after, deliver, hrunning] using h
          | shutdown =>
              simp only [after, deliver, hrunning, stop, if_true]
              exact h.tell _
  | foreign other engine target enabled =>
      have hloaded := Session.readable_after
        (s := Session.ofRegistry other (⟨s.session.world.store, engine⟩ : MemoryBackend)) .load
        h.readable
      exact ⟨h.catalogue, Session.readable_after (.toggle target enabled) hloaded, h.fits⟩

theorem sound_run {moves : List Move} (h : s.session.Sound lists) (hon : ∀ m ∈ moves, m.On lists) :
    (s.run moves).session.Sound lists := by
  induction moves generalizing s with
  | nil => exact h
  | cons move rest ih =>
      have hfirst := sound_after h (hon move List.mem_cons_self)
      exact ih hfirst fun m hm => hon m (List.mem_cons_of_mem _ hm)

variable {x : FilterList} {own stored : Bool}

/-- A foreign toggle leaves the flags of the scheduler alone. It stores the flag it sets, and keeps
the stored flag of a list that it does not cover. -/
theorem flags_after_foreign (h : s.session.Sound lists) (hids : (lists.map (·.id)).Nodup)
    {other : Registry} (hother : other.catalogue = lists) (hx : x ∈ lists)
    (engine : MemoryEngine) (target : ToggleTarget) (enabled : Bool)
    (hflag : target.covers x ∨ s.session.world.store.flag? x.id = some stored) :
    (s.after (.foreign other engine target enabled)).session.registry = s.session.registry ∧
      (s.after (.foreign other engine target enabled)).session.world.store.flag? x.id =
        some (if target.covers x then enabled else stored) :=
  ⟨rfl, Session.storedFlag_load_toggle
    (s := Session.ofRegistry other (⟨s.session.world.store, engine⟩ : MemoryBackend)) hids hother
    h.readable hx target enabled hflag⟩

/-- A move without a cycle and without a toggle of a list keeps the flag that the scheduler has for
the list, and the stored one too unless the scheduler saves its own. -/
theorem flagged_quiet_move (h : s.session.Sound lists) (hids : (lists.map (·.id)).Nodup)
    (hx : x ∈ lists) (hon : move.On lists) (hrunning : s.running = true)
    (hcycle : s.cycles move = false) (htarget : ∀ target ∈ move.target?, target.covers x = false)
    (hflags : s.session.Flagged x.id own stored) :
    (s.after move).session.Flagged x.id own (if move.overwrites lists then own else stored) := by
  cases move with
  | elapse secs servers =>
      have hnone : dueTimes s.periodSecs s.clock secs = [] := by
        simpa [cycles, hrunning] using hcycle
      rw [after, session_elapse hrunning, hnone]
      exact hflags
  | deliver command servers =>
      cases command with
      | refresh force => exact absurd (hcycle.symm.trans hrunning) Bool.false_ne_true
      | toggle target enabled =>
          have huncovered := htarget target rfl
          have hsession := session_deliver_toggle hrunning target enabled servers
          refine hsession.symm ▸ ⟨?_, ?_⟩
          · rw [Session.flag?_toggle hids h.catalogue hx, huncovered]
            exact hflags.own
          · rw [Session.storedFlag_toggle hids h.catalogue hx, huncovered, hflags.own,
              hflags.stored]
            by_cases hany : lists.any target.covers = true <;> simp [Move.overwrites, hany]
      | status =>
          simp only [after, deliver, hrunning]
          exact hflags
      | shutdown =>
          simp only [after, deliver, hrunning, stop, if_true]
          exact ⟨hflags.own, hflags.stored⟩
  | foreign other engine target enabled =>
      obtain ⟨hregistry, hstored⟩ := flags_after_foreign h hids hon hx engine target enabled
        (.inr hflags.stored)
      refine ⟨hregistry ▸ hflags.own, ?_⟩
      rw [hstored, htarget target rfl]
      rfl

/-- So does a whole run of such moves. -/
theorem flagged_quiet_run {moves : List Move} (h : s.session.Sound lists)
    (hids : (lists.map (·.id)).Nodup) (hx : x ∈ lists) (hon : ∀ m ∈ moves, m.On lists)
    (hrunning : (s.run moves).running = true) (hquiet : s.Quiet x moves)
    (hflags : s.session.Flagged x.id own stored) :
    (s.run moves).session.Flagged x.id own
      (if moves.any (·.overwrites lists) then own else stored) := by
  induction moves generalizing s stored with
  | nil => exact hflags
  | cons move rest ih =>
      obtain ⟨hcycle, htarget, hrest⟩ := hquiet
      have hmove := hon move List.mem_cons_self
      have hstep := flagged_quiet_move h hids hx hmove (running_of_run hrunning) hcycle htarget
        hflags
      have hrun := ih (sound_after h hmove) (fun m hm => hon m (List.mem_cons_of_mem _ hm)) hrunning
        hrest hstep
      have hlast : (if rest.any (·.overwrites lists) then own
          else if move.overwrites lists then own else stored) =
            if (move :: rest).any (·.overwrites lists) then own else stored := by
        rw [List.any_cons]
        cases move.overwrites lists <;> simp
      exact hlast ▸ hrun

/-- After a move that brings a cycle the stored flag prevails. -/
theorem prevails_next (h : s.session.Sound lists) (hids : (lists.map (·.id)).Nodup)
    (hcycles : s.cycles move = true) {id : String} (hflags : s.session.Flagged id own stored) :
    (s.after move).session.Prevails id stored := by
  have hrunning := running_of_cycles hcycles
  cases move with
  | elapse secs servers =>
      rw [after, session_elapse hrunning]
      cases hdue : dueTimes s.periodSecs s.clock secs with
      | nil => simp [cycles, hdue] at hcycles
      | cons time rest =>
          have hfirst := hflags.prevails_cycle h hids false (servers time)
          exact hfirst.foldl_cycle (h.cycle false (servers time)) hids rest servers
  | deliver command servers =>
      cases command with
      | refresh force =>
          simp only [after, deliver, hrunning]
          have htold : (s.session.tell [.refreshRequested force]).Flagged id own stored :=
            ⟨hflags.own, hflags.stored⟩
          exact htold.prevails_cycle (h.tell _) hids force servers
      | toggle target enabled => cases hcycles
      | status => cases hcycles
      | shutdown => cases hcycles
  | foreign other engine target enabled => cases hcycles

/-- What the next cycle makes of a foreign toggle: the flag that was set prevails, or the one that
the scheduler had when it saved its own in between. -/
theorem prevails_after_foreign (h : s.session.Sound lists) (hids : (lists.map (·.id)).Nodup)
    {other : Registry} (hother : other.catalogue = lists) (hx : x ∈ lists)
    (hown : s.session.registry.flag? x.id = some own) {engine : MemoryEngine}
    {target : ToggleTarget} {enabled : Bool} (hcovers : target.covers x = true)
    {between : List Move} (hon : ∀ m ∈ between, m.On lists)
    (hquiet : (s.after (.foreign other engine target enabled)).Quiet x between)
    (hcycles : ((s.after (.foreign other engine target enabled)).run between).cycles move = true) :
    (((s.after (.foreign other engine target enabled)).run between).after move).session.Prevails
      x.id (if between.any (·.overwrites lists) then own else enabled) := by
  obtain ⟨hregistry, hstored⟩ := flags_after_foreign h hids hother hx engine target enabled
    (.inl hcovers : _ ∨ _ = some own)
  have hforeign : (s.after (.foreign other engine target enabled)).session.Flagged x.id own
      enabled := by
    refine ⟨hregistry ▸ hown, ?_⟩
    rw [hstored, if_pos hcovers]
  have hsound : (s.after (.foreign other engine target enabled)).session.Sound lists :=
    sound_after h hother
  have hflags := flagged_quiet_run hsound hids hx hon (running_of_cycles hcycles) hquiet hforeign
  exact prevails_next (sound_run hsound hon) hids hcycles hflags

/-- A flag that another registry sets for a list, when nobody toggles the list after that, prevails
after the next cycle exactly if the scheduler had this flag for the list already or carried out no
toggle of other lists in between. -/
theorem foreign_toggle_prevails_iff (manifest : Manifest)
    (hids : (manifest.lists.map (·.id)).Nodup) (settings : Settings) (world : MemoryBackend)
    (hreadable : world.store.Readable) (hfits : settings.maxDynamicRules ≤ world.engine.limit)
    (startup : List Session.Operation) (periodSecs : Nat) (before between : List Move)
    (hon : ∀ m ∈ before ++ between, m.On manifest.catalogue) {x : FilterList}
    (hx : x ∈ manifest.catalogue) {other : Registry} (hother : other.catalogue = manifest.catalogue)
    (engine : MemoryEngine) (target : ToggleTarget) (hcovers : target.covers x = true)
    (enabled : Bool) (next : Move) :
    let session := (Session.ofRegistry (.ofManifest manifest settings) world).run startup
    let s := (start session periodSecs).run before
    let toggled := s.after (.foreign other engine target enabled)
    toggled.Quiet x between → (toggled.run between).cycles next = true →
      (((toggled.run between).after next).session.Prevails x.id enabled ↔
        s.session.registry.flag? x.id = some enabled ∨
          between.any (·.overwrites manifest.catalogue) = false) := by
  intro session s toggled hquiet hcycles
  have hids' := Manifest.nodup_catalogue hids
  have hopened : (Session.ofRegistry (.ofManifest manifest settings) world).Sound
      manifest.catalogue := ⟨manifest.catalogue_ofManifest settings, hreadable, hfits⟩
  have hsound : s.session.Sound manifest.catalogue :=
    sound_run (s := start session periodSecs) ((hopened.run startup).tell _) fun m hm =>
      hon m (List.mem_append_left _ hm)
  obtain ⟨l, hl, _⟩ := Registry.exists_list?_eq_some hids' hsound.catalogue hx
  have hown : s.session.registry.flag? x.id = some l.enabled := congrArg (Option.map _) hl
  have hprevails := prevails_after_foreign hsound hids' hother hx hown hcovers
    (fun m hm => hon m (List.mem_append_right _ hm)) hquiet hcycles
  have hunique : ∀ flag, ((toggled.run between).after next).session.Prevails x.id flag ↔
      (if between.any (·.overwrites manifest.catalogue) then l.enabled else enabled) = flag := by
    intro flag
    constructor
    · intro h
      exact Option.some.inj (hprevails.own.symm.trans h.own)
    · rintro rfl
      exact hprevails
  rw [hunique, hown, Option.some.injEq]
  cases between.any (·.overwrites manifest.catalogue) <;> simp

/-- Servers without news. -/
def idleServers : Servers :=
  .uniform (fun _ => .ok .notModified) default

/-- The lists of the sample manifest, with nothing saved. -/
def unsaved : Session MemoryBackend :=
  .ofRegistry (.ofManifest .sample default) ⟨.empty, .withLimit 30000⟩

/-- An hourly schedule for two enabled lists, whose states are saved. -/
def sample : Scheduler MemoryBackend :=
  start (unsaved.run [.start idleServers]) 3600

theorem sound_unsaved : unsaved.Sound Manifest.sample.catalogue :=
  ⟨Manifest.sample.catalogue_ofManifest default, MemoryStore.readable_empty, by decide⟩

theorem flagged_sample :
    ∀ x ∈ Manifest.sample.catalogue, sample.session.Flagged x.id true true := by
  have hloaded : ∀ x ∈ Manifest.sample.catalogue,
      (unsaved.afterReading .state).registry.flag? x.id = some true := by
    decide +kernel
  intro x hx
  have hown : (unsaved.after (.start idleServers)).registry.flag? x.id = some true := by
    rw [(unsaved.after_eq (.start idleServers)).1]
    exact (Registry.flag?_refresh _ _ _ _ x.id).trans (hloaded x hx)
  refine ⟨hown, ?_⟩
  have hstored := Session.storedFlag_after (by decide) sound_unsaved.catalogue
    (.start idleServers) x.id
  exact hstored.trans hown

/-- Another registry disables a list. -/
def foreignDisable (id : String) : Move :=
  .foreign (.ofManifest .sample default) (.withLimit 30000) (.list id) false

theorem foreign_toggle_prevails_sample :
    (((sample.after (foreignDisable "ads")).run
      [.deliver .status idleServers, foreignDisable "privacy"]).after
        (.elapse 3600 fun _ => idleServers)).session.Prevails "ads" false := by
  have hx : (FilterList.ofDescriptor Manifest.sample.lists.head!).pristine ∈
      Manifest.sample.catalogue := List.mem_map_of_mem (by decide)
  have hother := Manifest.sample.catalogue_ofManifest default
  have hon : ∀ m ∈ [Move.deliver .status idleServers, foreignDisable "privacy"],
      m.On Manifest.sample.catalogue := by
    simpa [Move.On, foreignDisable] using hother
  have hprivacy : ∀ target ∈ (foreignDisable "privacy").target?,
      target.covers (FilterList.ofDescriptor Manifest.sample.lists.head!).pristine = false := by
    intro target htarget
    cases htarget
    decide
  have hiff := foreign_toggle_prevails_iff .sample (by decide) default
    ⟨.empty, .withLimit 30000⟩ MemoryStore.readable_empty (by decide) [.start idleServers] 3600 []
    [.deliver .status idleServers, foreignDisable "privacy"] hon hx hother (.withLimit 30000)
    (.list "ads") rfl false (.elapse 3600 fun _ => idleServers)
  exact (hiff ⟨rfl, (nofun), rfl, hprivacy, trivial⟩ (by decide +kernel)).mpr (.inr rfl)

/-- A foreign toggle of the first list is lost when the scheduler toggles the second one before its
next cycle, although the states of both lists are stored. -/
theorem foreign_toggle_overwritten :
    let toggled := sample.after (foreignDisable "ads")
    let between := [.deliver (.toggle (.list "privacy") false) idleServers]
    let next := .deliver (.refresh false) idleServers
    (∀ d ∈ Manifest.sample.lists, sample.session.Flagged d.id true true) ∧
      (∀ x ∈ Manifest.sample.catalogue, x.id = "ads" → toggled.Quiet x between) ∧
      (toggled.run between).cycles next = true ∧
      toggled.session.world.store.flag? "ads" = some false ∧
      ((toggled.run between).after next).session.Prevails "ads" true ∧
      ¬ ((toggled.run between).after next).session.Prevails "ads" false := by
  intro toggled between next
  have hids : (Manifest.sample.catalogue.map (·.id)).Nodup := by decide
  have hsound : sample.session.Sound Manifest.sample.catalogue :=
    (sound_unsaved.run [.start idleServers]).tell _
  have hother := Manifest.sample.catalogue_ofManifest default
  have hmem : ∀ d ∈ Manifest.sample.lists,
      (FilterList.ofDescriptor d).pristine ∈ Manifest.sample.catalogue :=
    fun d hd => List.mem_map_of_mem hd
  have hx := hmem Manifest.sample.lists.head! (by decide)
  have hquiet : ∀ x ∈ Manifest.sample.catalogue, x.id = "ads" → toggled.Quiet x between := by
    intro x _ hid
    refine ⟨rfl, ?_, trivial⟩
    intro target htarget
    cases htarget
    simp [ToggleTarget.covers, hid]
  have hstored := flags_after_foreign hsound hids hother hx (.withLimit 30000) (.list "ads") false
    (.inl rfl : _ ∨ _ = some true)
  have hprevails : ((toggled.run between).after next).session.Prevails "ads" true :=
    prevails_after_foreign hsound hids hother hx (flagged_sample _ hx).own rfl
      (by simp [between, Move.On]) (hquiet _ hx rfl) rfl
  refine ⟨fun d hd => flagged_sample _ (hmem d hd), hquiet, rfl, hstored.2, hprevails, ?_⟩
  intro hlost
  exact absurd (hprevails.own.symm.trans hlost.own) (by decide)

end Scheduler

end Blocklist
