import Blocklist.CommandLine.Workspace
import Blocklist.Proofs.Absorption
import Blocklist.Proofs.Answers
import Blocklist.Proofs.Engine
import Blocklist.Proofs.RoundTrip
import Blocklist.Proofs.SparedFiles

/-!
# What a refresh reports

A refresh of all enabled lists succeeds exactly when the assembled rules could be installed in the
output file. A refresh of one list does not look at that: it succeeds exactly when a source of the
list answers, or it has none. So it may succeed although the file holds something else than rules and
stays as it is.

## Implementation notes

That rules can be installed is said by the disk alone (`Disk.Installs`), and that a list is answered
by the replies alone (`Answered`). The state is saved after the rules were installed, so the paths of
the two files have to lead apart for the rules to stay.
-/

namespace Blocklist

/-- Rules can be installed in a file: it is missing or holds an array of rules, and can be replaced. -/
def Disk.Installs (disk : Disk) (path : String) (rules : List Rule) : Prop :=
  (∃ previous, disk.readRules path = .ok previous) ∧
    (disk.replace path (Json.of rules).indented).1 = .ok ()

/-- The budget that is read from a text never exceeds what the engine accepts. -/
theorem Settings.maxDynamicRules_le_of_ofText {text : String} {settings : Settings}
    {lowered : Option Nat} (h : ofText text = .ok (settings, lowered)) :
    settings.maxDynamicRules ≤ Rule.engineLimit := by
  rw [ofText] at h
  split at h
  · cases h
    exact Nat.min_le_right _ _
  · cases h

/-! ### Which refresh fails -/

namespace Refresh

/-- Whether a delivery brings no answer to a list that has sources. -/
def fails (l : FilterList) (delivery : Delivery) : Bool :=
  !l.sources.isEmpty && delivery.replies.all Reply.isFailure

theorem outcome_eq_failed_iff {l : FilterList} {cache : RuleCache} {ids : IdSequence}
    {delivery : Delivery} :
    (l.absorb cache ids delivery).outcome = .failed ↔ fails l delivery = true := by
  simp only [FilterList.absorb, fails]
  split
  · next h => simp [h]
  · next h =>
    split <;> simpa using h

theorem fails_eq_false_iff {l : FilterList} {delivery : Delivery} :
    fails l delivery = false ↔
      l.sources = [] ∨ ∃ reply ∈ delivery.replies, reply.isFailure = false := by
  simp [fails, or_iff_not_imp_left]

end Refresh

/-- The list with an id is answered: one of its sources is, or it has none. -/
def Answered (r : Registry) (force : Bool) (servers : Servers) (id : String) : Prop :=
  ∃ place l, r.lists.findIdx? (·.id == id) = some place ∧ r.lists[place]? = some l ∧
    (l.sources = [] ∨
      ∃ reply ∈ (Refresh.delivery r force servers l place).replies, reply.isFailure = false)

/-- A refresh of one list fails exactly if the list is not there or not answered. -/
theorem answered_iff {r : Registry} {force : Bool} {servers : Servers} {id : String} :
    Answered r force servers id ↔
      ((r.refreshList? id force servers).map (·.count .failed == 0)).getD false = true := by
  rw [Registry.refreshList?, Answered]
  cases hplace : r.lists.findIdx? (·.id == id) with
  | none => simp
  | some place =>
      obtain ⟨hlt, -⟩ := List.findIdx?_eq_some_iff_getElem.mp hplace
      have hl : r.lists[place]? = some r.lists[place] := List.getElem?_eq_getElem hlt
      obtain ⟨houtcomes, -⟩ := Registry.refresh_at hl force servers
      rw [Option.map_some, Option.map_some, Option.getD_some, beq_iff_eq, Refresh.count, houtcomes,
        List.count_eq_zero, List.mem_singleton, eq_comm, Refresh.outcome_eq_failed_iff,
        Bool.not_eq_true, Refresh.fails_eq_false_iff]
      constructor
      · rintro ⟨_, _, ⟨⟩, hl', hanswer⟩
        obtain rfl := Option.some.inj (hl.symm.trans hl')
        exact hanswer
      · exact fun hanswer => ⟨place, _, rfl, hl, hanswer⟩

/-- A list that is answered is there. -/
theorem Answered.isSome_list? {r : Registry} {force : Bool} {servers : Servers} {id : String}
    (h : Answered r force servers id) : (r.list? id).isSome = true := by
  rw [answered_iff] at h
  cases hlist : r.list? id with
  | none => simp [Registry.refreshList?_eq_none_iff.mpr hlist] at h
  | some l => rfl

/-! ### The workspace of a command -/

namespace CommandLine

namespace Workspace

variable {s : Workspace} {rules : List Rule}

theorem disk_update (update : RuleUpdate) (s : Workspace) :
    (FilteringEngine.update update s).2.disk =
      (s.disk.updateRules s.outputPath Rule.engineLimit update).2 :=
  rfl

theorem disk_write (state : SavedState) (s : Workspace) :
    (SavedState.write state s).2.disk = (s.disk.writeItems s.cachePath state.items).2 :=
  rfl

/-- A file that holds something else than rules takes none. -/
theorem replaceRules_of_error {error : EngineError}
    (h : s.disk.readRules s.outputPath = .error error) (rules : List Rule) :
    replaceRules rules s = (.error error, s) := by
  simp only [replaceRules, FilteringEngine.ruleIds, h]
  rfl

/-- A file that holds rules is updated by those that replace them. -/
theorem replaceRules_eq_update {previous : List Rule}
    (h : s.disk.readRules s.outputPath = .ok previous) (rules : List Rule) :
    replaceRules rules s =
      FilteringEngine.update (.replacing (previous.map (·.id)) rules) s := by
  have hids : FilteringEngine.ruleIds s = (.ok (previous.map (·.id)), s) := by
    simp only [FilteringEngine.ruleIds, h]
    rfl
  simp only [replaceRules, hids]

/-- Rules with distinct ids that fit the limit replace those in a file. -/
theorem replaceRules_of_ok {previous : List Rule}
    (h : s.disk.readRules s.outputPath = .ok previous) (hnodup : (rules.map (·.id)).Nodup)
    (hlimit : rules.length ≤ Rule.engineLimit) :
    replaceRules rules s =
      ((s.disk.replace s.outputPath (Json.of rules).indented).1.mapError
          fun (path, fault) => .io path fault,
        { s with disk := (s.disk.replace s.outputPath (Json.of rules).indented).2 }) := by
  rw [replaceRules_eq_update h]
  simp only [FilteringEngine.update, Disk.updateRules_replacing h hnodup hlimit]

/-- Rules with distinct ids that fit the limit are taken exactly if they can be installed. -/
theorem replaceRules_fst_iff (hnodup : (rules.map (·.id)).Nodup)
    (hlimit : rules.length ≤ Rule.engineLimit) :
    (replaceRules rules s).1 = .ok () ↔ s.disk.Installs s.outputPath rules := by
  cases hread : s.disk.readRules s.outputPath with
  | error error => simp [replaceRules_of_error hread, Disk.Installs, hread]
  | ok previous =>
      rw [replaceRules_of_ok hread hnodup hlimit, Disk.Installs, hread]
      dsimp only
      cases (s.disk.replace s.outputPath (Json.of rules).indented).1 with
      | error fault => simp [Except.mapError]
      | ok _ => simp [Except.mapError]

/-- Publishing a registry loses no folder. -/
theorem keepsFolders_published (r : Registry) (s : Workspace) :
    s.disk.KeepsFolders (Session.published r s).disk := by
  rw [Session.published, disk_write]
  cases hread : s.disk.readRules s.outputPath with
  | error error =>
      rw [replaceRules_of_error hread]
      exact (Disk.spares_writeItems _ _).1
  | ok previous =>
      rw [replaceRules_eq_update hread, disk_update]
      exact (Disk.keepsFolders_updateRules _ _ _).trans (Disk.spares_writeItems _ _).1

/-- Paths that lead to different places lead there after a registry was published. -/
theorem apart_published (r : Registry) {path path' : String} {place place' : Place}
    {slash slash' : Bool} (h : s.disk.target path = .ok (.place place slash))
    (h' : s.disk.target path' = .ok (.place place' slash')) (hne : place.text ≠ place'.text) :
    (Session.published r s).disk.Apart path path' := by
  have hkeeps := keepsFolders_published r s
  exact Disk.apart_of_target (hkeeps.target h) (hkeeps.target h') hne

/-- No device stands where a file was put at once. -/
theorem not_leadsToDevice_published {r : Registry} (hbudget : r.budget ≤ Rule.engineLimit)
    {previous : List Rule} (hprevious : s.disk.readRules s.outputPath = .ok previous)
    {old new : Place} (hready : s.disk.Ready s.outputPath old new) {disk : Disk}
    (hafter : (Session.published r s).disk = disk) (hcache : disk.Apart s.cachePath s.outputPath)
    (hstaging : disk.Apart (Path.staging s.cachePath) s.outputPath) :
    ¬ disk.LeadsToDevice s.outputPath := by
  have hnodup : (r.assembled.1.map (·.id)).Nodup := nodup_assemble _ _
  have hlimit : r.assembled.1.length ≤ Rule.engineLimit :=
    Nat.le_trans (length_assemble_le _ _) hbudget
  rw [Session.published, replaceRules_of_ok hprevious hnodup hlimit, hready.replace_eq] at hafter
  have htarget := (hready.moved (.text (Json.of r.assembled.1).indented)).placed
  have hlook := hready.look_moved (.text (Json.of r.assembled.1).indented)
  have hspared := Disk.spares_of_apart htarget hlook hafter hcache hstaging
  rintro ⟨place, slash, full, hplace, hdevice⟩
  rw [hspared.keepsFolders.target htarget, Except.ok.injEq, Disk.Target.place.injEq] at hplace
  rw [← hplace.1, hspared.look_eq, hlook] at hdevice
  cases hdevice

/-- After a registry was published, the rules that could be installed are in their file, if the saved
state has another one. -/
theorem readRules_published {r : Registry} (hbudget : r.budget ≤ Rule.engineLimit)
    (h : s.disk.Installs s.outputPath r.assembled.1) {disk : Disk}
    (hafter : (Session.published r s).disk = disk) (hcache : disk.Apart s.cachePath s.outputPath)
    (hstaging : disk.Apart (Path.staging s.cachePath) s.outputPath)
    (hdevice : ¬ disk.LeadsToDevice s.outputPath) :
    disk.readRules s.outputPath = .ok r.assembled.1 := by
  obtain ⟨⟨previous, hprevious⟩, hreplace⟩ := h
  have hlimit : r.assembled.1.length ≤ Rule.engineLimit :=
    Nat.le_trans (length_assemble_le _ _) hbudget
  have hnodup : (r.assembled.1.map (·.id)).Nodup := nodup_assemble _ _
  rw [Session.published, replaceRules_of_ok hprevious hnodup hlimit] at hafter
  exact Disk.readRules_of_read
    (Disk.read_of_replace (Prod.ext hreplace rfl) hafter hcache hstaging hdevice)

/-- A file that holds something else than rules is as it was after a registry was published, if the
saved state has another one. -/
theorem read_published {r : Registry} {content : Content}
    (hcontent : s.disk.read s.outputPath = .ok content)
    (h : s.disk.readRules s.outputPath = .error .json) {disk : Disk}
    (hafter : (Session.published r s).disk = disk) (hcache : disk.Apart s.cachePath s.outputPath)
    (hstaging : disk.Apart (Path.staging s.cachePath) s.outputPath) :
    disk.read s.outputPath = .ok content := by
  rw [Session.published, replaceRules_of_error h] at hafter
  exact Disk.read_writeItems hcontent hafter hcache hstaging

@[simp] theorem readDict_snd (α : Type) [JsonCodec α] (key : String) (s : Workspace) :
    (SavedState.readDict α key s).2 = s := by
  rw [SavedState.readDict]
  split
  · next h => exact (congrArg Prod.snd h).symm
  · next h => exact (congrArg Prod.snd h).symm
  · next h =>
    split <;> exact (congrArg Prod.snd h).symm

/-- Reading the saved state leaves the workspace alone. -/
theorem read_snd (s : Workspace) : (SavedState.read s).2 = s := by
  have hmetadata : (SavedState.readMetadata s).2 = s := readDict_snd _ _ s
  rw [SavedState.read]
  split
  · next h => exact (congrArg Prod.snd h).symm.trans hmetadata
  · next metadata world h =>
    obtain rfl : world = s := (congrArg Prod.snd h).symm.trans hmetadata
    have hcache := readDict_snd ListArtifacts SavedState.cacheKey world
    split <;> next h => exact (congrArg Prod.snd h).symm.trans hcache

end Workspace

/-! ### The commands -/

/-- The budget never exceeds what the engine accepts. -/
theorem maxDynamicRules_le {disk : Disk} {config : Option String} {settings : Settings}
    (h : loadSettings disk config = .ok settings) : settings.maxDynamicRules ≤ Rule.engineLimit := by
  cases config with
  | none =>
      cases h
      exact Nat.le_refl _
  | some path =>
      rw [loadSettings, Settings.load] at h
      split at h
      · next text _ =>
        cases htext : Settings.ofText text with
        | error error =>
            rw [htext] at h
            cases h
        | ok loaded =>
            rw [htext] at h
            cases h
            exact Settings.maxDynamicRules_le_of_ofText htext
      · cases h

/-- The files that settings name, on a disk. -/
abbrev filesOf (disk : Disk) (settings : Settings) : Workspace :=
  ⟨disk, settings.cachePath, settings.outputPath⟩

/-- A registry that was opened works on the disk it was opened on, with the budget of the settings. -/
theorem openLoaded_eq_ok {disk : Disk} {settings : Settings} {s : Session Workspace}
    (h : openLoaded disk settings = .ok s) :
    s.world = filesOf disk settings ∧
      s.registry.budget = settings.maxDynamicRules := by
  rw [openLoaded] at h
  split at h
  · cases h
  · next opened hopened =>
    have hworld : opened.world = filesOf disk settings ∧
        opened.registry.budget = settings.maxDynamicRules := by
      rw [openSession] at hopened
      split at hopened
      · cases hopened
      · split at hopened
        · cases hopened
          exact ⟨rfl, rfl⟩
        · cases hopened
    split at h
    · next hload =>
      cases h
      have hloaded := congrArg Prod.snd hload
      dsimp only at hloaded
      constructor
      · rw [← hloaded, Session.world_load, Workspace.read_snd]
        exact hworld.1
      · rw [← hloaded, Session.registry_load]
        split <;> exact hworld.2
    · cases h

/-- What a refresh is asked of a session. -/
def refreshOf (list : Option String) (force : Bool) (servers : Servers) : Session.Operation :=
  match list with
  | none => .refreshAll force servers
  | some id => .refreshList id force servers

theorem budget_change (r : Registry) (list : Option String) (force : Bool) (servers : Servers) :
    ((refreshOf list force servers).change r).budget = r.budget := by
  cases list with
  | none => rfl
  | some id =>
      simp only [refreshOf, Session.Operation.change, Registry.refreshList?]
      cases r.lists.findIdx? (·.id == id) <;> rfl

/-- What an engine makes of the rules of a registry is known by whether it takes them. -/
theorem isSome_applied_iff {w : Type} [FilteringEngine w] {r : Registry} {world : w} :
    (Session.applied r world).isSome = true ↔ (replaceRules r.assembled.1 world).1 = .ok () := by
  rw [Session.applied, (installRules_eq _ _ _).1, Registry.assembled]
  cases (replaceRules (assemble r.ruleSlices r.budget).1 world).1 <;> simp [Except.toOption, Except.map]

section Refresh

variable (force : Bool) (servers : Servers) (settings : Settings) (s : Session Workspace)

/-- A refresh of all enabled lists succeeds if the rules were taken. -/
theorem refreshEnabled_eq :
    let o := refreshEnabled force servers settings s
    let r := (s.registry.refreshEnabled force servers).registry
    (o.error = none ↔ (replaceRules r.assembled.1 s.world).1 = .ok ()) ∧
      o.disk = (s.refreshAll force servers).2.world.disk := by
  intro o r
  have hsummary := (s.refreshAll_fst force servers).1
  rw [← isSome_applied_iff]
  simp only [o, refreshEnabled, hsummary, Refresh.summary]
  cases Session.applied r s.world with
  | none => simp [Outcome.failure]
  | some stats => simp [Outcome.success]

/-- A refresh of one list succeeds if the list is answered. -/
theorem refreshOne_eq (id : String) :
    let o := refreshOne id force servers s
    (o.error = none ↔ Answered s.registry force servers id) ∧
      o.disk = (s.refreshList id force servers).2.world.disk := by
  intro o
  rw [answered_iff, ← (s.refreshList_fst id force servers).1]
  simp only [o, refreshOne]
  cases hlist : s.registry.list? id with
  | none =>
      have hnone : s.registry.refreshList? id force servers = none :=
        Registry.refreshList?_eq_none_iff.mpr hlist
      simp [Session.refreshList, hnone, Outcome.failure]
  | some l =>
      rcases s.refreshList id force servers with ⟨_ | _, s'⟩
      · simp [Outcome.failure]
      · simp [Outcome.success]

/-- After a refresh everything is published, unless the list is not there. -/
theorem world_after_refreshOf (list : Option String) :
    let op := refreshOf list force servers
    (s.after op).world =
      if op.installs s.registry then Session.published (op.change s.registry) s.world
      else s.world := by
  intro op
  rw [(s.after_eq op).2]
  cases list with
  | none => exact Session.settle_eq_published _ _ rfl _
  | some id => exact Session.settle_eq_published _ _ rfl _

end Refresh

section Opened

variable {disk : Disk} {config : Option String} {settings : Settings} {s : Session Workspace}

/-- A refresh assembles the rules that are cached for the enabled lists, within the budget of the
settings. -/
theorem assembled_refreshOf (hs : openLoaded disk settings = .ok s) (list : Option String)
    (force : Bool) (servers : Servers) :
    let r := (refreshOf list force servers).change s.registry
    let enabled := r.lists.filter (·.enabled)
    let cached := enabled.filterMap fun l => r.cache.get? l.id
    r.assembled =
      assemble (cached.flatMap fun a => a.sources.map (·.rules)) settings.maxDynamicRules := by
  intro r enabled cached
  have hbudget : r.budget = settings.maxDynamicRules :=
    (budget_change _ _ _ _).trans (openLoaded_eq_ok hs).2
  rw [Registry.assembled, Registry.ruleSlices_eq, hbudget]

theorem budget_refreshOf_le (hsettings : loadSettings disk config = .ok settings)
    (hs : openLoaded disk settings = .ok s) (list : Option String) (force : Bool)
    (servers : Servers) :
    ((refreshOf list force servers).change s.registry).budget ≤ Rule.engineLimit := by
  rw [budget_change, (openLoaded_eq_ok hs).2]
  exact maxDynamicRules_le hsettings

/-- The assembled rules are taken exactly if they can be installed. -/
theorem replaceRules_refreshOf_iff (hsettings : loadSettings disk config = .ok settings)
    (hs : openLoaded disk settings = .ok s) (list : Option String) (force : Bool)
    (servers : Servers) :
    let rules := ((refreshOf list force servers).change s.registry).assembled.1
    (replaceRules rules s.world).1 = .ok () ↔ disk.Installs settings.outputPath rules := by
  intro rules
  have hnodup : (rules.map (·.id)).Nodup := nodup_assemble _ _
  have hfits : rules.length ≤ Rule.engineLimit :=
    Nat.le_trans (length_assemble_le _ _) (budget_refreshOf_le hsettings hs list force servers)
  rw [Workspace.replaceRules_fst_iff hnodup hfits, (openLoaded_eq_ok hs).1]

/-- When a refresh succeeds that could open its registry, and the disk it leaves. -/
theorem refreshLists_of_open (hsettings : loadSettings disk config = .ok settings)
    (hs : openLoaded disk settings = .ok s) (list : Option String) (force : Bool)
    (servers : Servers) :
    let o := refreshLists disk config list force servers
    let op := refreshOf list force servers
    let r := op.change s.registry
    (list = none → (o.error = none ↔ disk.Installs settings.outputPath r.assembled.1)) ∧
      (∀ id, list = some id → (o.error = none ↔ Answered s.registry force servers id)) ∧
      o.disk = (if op.installs s.registry then Session.published r (filesOf disk settings)
        else filesOf disk settings).disk := by
  intro o op r
  have hinstalls : (replaceRules r.assembled.1 s.world).1 = .ok () ↔
      disk.Installs settings.outputPath r.assembled.1 :=
    replaceRules_refreshOf_iff hsettings hs list force servers
  have hworld : (s.after op).world =
      if op.installs s.registry then Session.published r s.world else s.world :=
    world_after_refreshOf force servers s list
  rw [(openLoaded_eq_ok hs).1] at hinstalls hworld
  rw [← hinstalls, ← hworld]
  cases list with
  | none =>
      have ho : o = refreshEnabled force servers settings s := by
        simp only [o, refreshLists, withLists, hsettings, hs]
      obtain ⟨hsuccess, hdisk⟩ := refreshEnabled_eq force servers settings s
      rw [(openLoaded_eq_ok hs).1] at hsuccess
      rw [ho]
      exact ⟨fun _ => hsuccess, nofun, hdisk⟩
  | some id =>
      have ho : o = refreshOne id force servers s := by
        simp only [o, refreshLists, withLists, hsettings, hs]
      obtain ⟨hsuccess, hdisk⟩ := refreshOne_eq force servers s id
      rw [ho]
      exact ⟨nofun, fun id' hid => Option.some.inj hid ▸ hsuccess, hdisk⟩

end Opened

/-- **A refresh reports success only if the rules were installed, but not for one list.** A command
that cannot open the registry fails and changes nothing. Otherwise a refresh of all enabled lists
succeeds exactly if the assembled rules can be installed in the output file, and a refresh of one list
exactly if the list is answered. So success means that the rules were installed exactly if all lists
were refreshed, or the rules could be installed, or the one list is not answered.

If rules were installed and the paths of the state lead elsewhere, the output file then holds exactly
the assembled rules of the sources that are cached for the enabled lists, unless a device stands there;
a file that holds something else than rules stays as it was. -/
theorem refresh_success_means_installed_iff (disk : Disk) (config list : Option String) (force : Bool)
    (servers : Servers) :
    let o := refreshLists disk config list force servers
    (∀ error, loadSettings disk config = .error error → o = .failure [] error disk) ∧
    ∀ settings, loadSettings disk config = .ok settings →
      (∀ error, openLoaded disk settings = .error error → o = .failure [] error disk) ∧
      ∀ s, openLoaded disk settings = .ok s →
        let r := (refreshOf list force servers).change s.registry
        let enabled := r.lists.filter (·.enabled)
        let cached := enabled.filterMap fun l => r.cache.get? l.id
        let slices := cached.flatMap fun a => a.sources.map (·.rules)
        let rules := (assemble slices settings.maxDynamicRules).1
        let installs := disk.Installs settings.outputPath rules
        let apart := o.disk.Apart settings.cachePath settings.outputPath ∧
          o.disk.Apart (Path.staging settings.cachePath) settings.outputPath
        (list = none → (o.error = none ↔ installs)) ∧
        (∀ id, list = some id → (o.error = none ↔ Answered s.registry force servers id)) ∧
        ((o.error = none → installs) ↔
          list = none ∨ installs ∨ ∀ id ∈ list, ¬ Answered s.registry force servers id) ∧
        (o.error = none → installs → apart → ¬ o.disk.LeadsToDevice settings.outputPath →
          o.disk.readRules settings.outputPath = .ok rules) ∧
        ∀ content, disk.read settings.outputPath = .ok content →
          disk.readRules settings.outputPath = .error .json → apart →
          o.disk.read settings.outputPath = .ok content := by
  intro o
  refine ⟨fun error herror => ?_, fun settings hsettings => ⟨fun error herror => ?_, fun s hs => ?_⟩⟩
  · simp only [o, refreshLists, withLists, herror]
  · simp only [o, refreshLists, withLists, hsettings, herror]
  · intro r enabled cached slices rules installs apart
    obtain ⟨hall, hone, hdisk⟩ := refreshLists_of_open hsettings hs list force servers
    have hrules : r.assembled.1 = rules :=
      congrArg Prod.fst (assembled_refreshOf hs list force servers)
    have hlimit : r.budget ≤ Rule.engineLimit := budget_refreshOf_le hsettings hs list force servers
    replace hall : list = none → (o.error = none ↔ installs) := fun hlist =>
      (hall hlist).trans (by rw [hrules])
    replace hone : ∀ id, list = some id → (o.error = none ↔ Answered s.registry force servers id) :=
      hone
    refine ⟨hall, hone, ?_, ?_, ?_⟩
    · cases list with
      | none => simp [hall rfl]
      | some id =>
          simp only [hone id rfl, reduceCtorEq, false_or, Option.mem_some_iff, forall_eq']
          exact imp_iff_not_or.trans or_comm
    · intro hsuccess hinstall hapart hdevice
      have hthere : (refreshOf list force servers).installs s.registry = true := by
        cases list with
        | none => rfl
        | some id => exact ((hone id rfl).mp hsuccess).isSome_list?
      rw [if_pos hthere] at hdisk
      rw [← hrules]
      exact Workspace.readRules_published (s := filesOf disk settings) hlimit
        (hrules ▸ hinstall) hdisk.symm hapart.1 hapart.2 hdevice
    · intro content hcontent hjson hapart
      split at hdisk
      · exact Workspace.read_published (s := filesOf disk settings) hcontent
          hjson hdisk.symm hapart.1 hapart.2
      · rw [hdisk]
        exact hcontent

/-! ### A catalogue on a disk -/

/-- A registry is opened from the text of its manifest; without a saved state it is a new one. -/
theorem openLoaded_of_manifest {disk : Disk} {settings : Settings} {manifest : Manifest}
    (hmanifest : disk.readText settings.manifestPath = .ok (Json.of manifest).compact)
    (hids : (manifest.lists.map (·.id)).Nodup)
    (hagent : Http.isHeaderText settings.userAgent = true)
    (hcache : disk.read settings.cachePath = .error .notFound) :
    ∃ s, openLoaded disk settings = .ok s ∧
      s.registry = (Registry.ofManifest manifest settings).restored .empty := by
  have hdecode := (RoundTrips.of_lawful Manifest (by decide)).text manifest
  have hfree : firstRepeated? ∅ (manifest.lists.map (·.id)) = none :=
    (firstRepeated?_eq_none_iff _ _).mpr ⟨hids, by simp⟩
  have hopen : openSession disk settings = .ok (.ofRegistry (.ofManifest manifest settings)
      ⟨disk, settings.cachePath, settings.outputPath⟩) := by
    simp only [openSession, Manifest.load, hmanifest, Manifest.ofText, hdecode, hfree, hagent, if_true]
  let world := filesOf disk settings
  have hget (key : String) : KeyValueStore.get key world = (.ok none, world) := by
    simp only [KeyValueStore.get, world, Disk.readItems, hcache]
    rfl
  have hread : SavedState.read world = (.ok .empty, world) := by
    simp only [SavedState.read, SavedState.readMetadata, SavedState.readDict, hget]
    rfl
  let s : Session Workspace := .ofRegistry (.ofManifest manifest settings) world
  have hload : s.load.1 = .ok () := by
    rw [Session.load_fst, show SavedState.read s.world = _ from hread]
    rfl
  refine ⟨s.load.2, ?_, ?_⟩
  · rw [openLoaded, hopen]
    dsimp only
    rw [show s.load = (.ok (), s.load.2) from Prod.ext hload rfl]
  · rw [Session.registry_load, show SavedState.read s.world = _ from hread]
    rfl

/-- A disk with a manifest of two lists. -/
def manifestDisk : Disk :=
  Disk.empty.put ["filterLists.json"] (.file (.text (Json.of Manifest.sample).compact))

/-- Servers that bring the same rule for every source. -/
def oneRuleServers : Servers :=
  .uniform (fun _ => .ok (.fetched "||ads.example^" none)) default

/-- A disk with that manifest and no saved state opens as a new registry. -/
theorem openLoaded_sample (disk : Disk)
    (hmanifest : disk.readText "filterLists.json" = .ok (Json.of Manifest.sample).compact)
    (hcache : disk.read "shieldforge-cache.json" = .error .notFound) :
    ∃ s, openLoaded disk .standard = .ok s ∧
      s.registry = (Registry.ofManifest Manifest.sample .standard).restored .empty :=
  openLoaded_of_manifest hmanifest (by decide) (by decide +kernel) hcache

/-- The standard paths lead apart where they all are files of the folder the command is run in. -/
theorem apart_published_standard (disk : Disk) (r : Registry)
    (houtput : disk.target "dynamic-rules.json" = .ok (.place ["dynamic-rules.json"] false))
    (hstate : disk.target "shieldforge-cache.json" = .ok (.place ["shieldforge-cache.json"] false))
    (hstaged : disk.target (Path.staging "shieldforge-cache.json") =
      .ok (.place ["shieldforge-cache.json.tmp"] false)) :
    let published := (Session.published r (filesOf disk .standard)).disk
    published.Apart "shieldforge-cache.json" "dynamic-rules.json" ∧
      published.Apart (Path.staging "shieldforge-cache.json") "dynamic-rules.json" :=
  ⟨Workspace.apart_published (s := filesOf disk .standard) r hstate houtput (by decide +kernel),
    Workspace.apart_published (s := filesOf disk .standard) r hstaged houtput (by decide +kernel)⟩

/-- The rules of two lists are installed and reported. -/
theorem refresh_success_means_installed_sample :
    let o := refreshLists manifestDisk none none false oneRuleServers
    o.error = none ∧
      ∃ rules, o.disk.readRules "dynamic-rules.json" = .ok rules ∧
        (rules.map (·.id)).Perm [1000, 1001, 1002] := by
  obtain ⟨s, hs, hregistry⟩ := openLoaded_sample manifestDisk rfl rfl
  obtain ⟨-, hopened⟩ := refresh_success_means_installed_iff manifestDisk none none false oneRuleServers
  have hsettings : loadSettings manifestDisk none = .ok .standard := rfl
  obtain ⟨-, hreports⟩ := hopened .standard hsettings
  obtain ⟨hall, -, -, hinstalled, -⟩ := hreports s hs
  obtain ⟨-, -, hdisk⟩ := refreshLists_of_open hsettings hs none false oneRuleServers
  have hthere : (refreshOf none false oneRuleServers).installs s.registry = true := rfl
  rw [if_pos hthere] at hdisk
  have hbudget := budget_refreshOf_le hsettings hs none false oneRuleServers
  have hmissing : manifestDisk.readRules "dynamic-rules.json" = .ok [] := rfl
  have hinstalls : ∀ rules, manifestDisk.Installs "dynamic-rules.json" rules :=
    fun _ => ⟨⟨[], hmissing⟩, rfl⟩
  dsimp only
  generalize refreshLists manifestDisk none none false oneRuleServers = o at *
  have hsuccess : o.error = none := (hall rfl).mpr (hinstalls _)
  have hready : manifestDisk.Ready "dynamic-rules.json" ["dynamic-rules.json.tmp"]
      ["dynamic-rules.json"] :=
    ⟨nofun, rfl, rfl, .inl rfl, Disk.free_of_look (.inl rfl)⟩
  let r := (refreshOf none false oneRuleServers).change s.registry
  obtain ⟨hcache, hstaging⟩ := apart_published_standard manifestDisk r hready.placed rfl rfl
  have hdevice := Workspace.not_leadsToDevice_published (s := filesOf manifestDisk .standard) hbudget
    hmissing hready rfl hcache hstaging
  refine ⟨hsuccess, _, hinstalled hsuccess (hinstalls _) (hdisk ▸ ⟨hcache, hstaging⟩)
    (hdisk ▸ hdevice), ?_⟩
  rw [hregistry]
  exact ((assemble_perm (by decide +kernel) (by decide +kernel)).map _).trans (by decide +kernel)

/-- The disk with an output file that holds no rules. -/
def brokenDisk : Disk :=
  manifestDisk.put ["dynamic-rules.json"] (.file (.text "junk"))

/-- A refresh of one list succeeds although the output file holds no rules and stays as it is. All lists
cannot be refreshed then. -/
theorem refused_rules_are_reported_as_success :
    let o := refreshLists brokenDisk none (some "ads") false oneRuleServers
    o.error = none ∧ o.disk.readRules "dynamic-rules.json" = .error .json ∧
      (refreshLists brokenDisk none none false oneRuleServers).error ≠ none := by
  have hread : brokenDisk.read "dynamic-rules.json" = .ok (.text "junk") := rfl
  have hjson : brokenDisk.readRules "dynamic-rules.json" = .error .json := by
    rw [Disk.readRules, hread]
    decide +kernel
  obtain ⟨s, hs, hregistry⟩ := openLoaded_sample brokenDisk rfl rfl
  have hsettings : loadSettings brokenDisk none = .ok .standard := rfl
  obtain ⟨-, hone, hdisk⟩ := refreshLists_of_open hsettings hs (some "ads") false oneRuleServers
  obtain ⟨hall, -, -⟩ := refreshLists_of_open hsettings hs none false oneRuleServers
  have hanswered : Answered s.registry false oneRuleServers "ads" := by
    rw [hregistry]
    exact ⟨0, _, by decide +kernel, rfl, .inr ⟨_, List.mem_cons_self, rfl⟩⟩
  have hthere : (refreshOf (some "ads") false oneRuleServers).installs s.registry = true :=
    hanswered.isSome_list?
  rw [if_pos hthere] at hdisk
  refine ⟨(hone _ rfl).mpr hanswered, ?_, fun hsuccess => ?_⟩
  · let r := (refreshOf (some "ads") false oneRuleServers).change s.registry
    obtain ⟨hcache, hstaging⟩ := apart_published_standard brokenDisk r rfl rfl rfl
    have hstays := Workspace.read_published (s := filesOf brokenDisk .standard) hread hjson rfl hcache
      hstaging
    have hafter : (Session.published r (filesOf brokenDisk .standard)).disk.readRules
        "dynamic-rules.json" = brokenDisk.readRules "dynamic-rules.json" :=
      Disk.readRules_congr (hstays.trans hread.symm)
    exact (congrArg (Disk.readRules · "dynamic-rules.json") hdisk).trans (hafter.trans hjson)
  · obtain ⟨⟨previous, hprevious⟩, -⟩ := (hall rfl).mp hsuccess
    cases hjson.symm.trans hprevious

end CommandLine

end Blocklist
