import Blocklist.CommandLine.Compile
import Blocklist.Proofs.Assembly
import Blocklist.Proofs.Disk
import Blocklist.Proofs.Numbering
import Blocklist.Proofs.RoundTrip

/-!
# What is compiled is what is assembled

The file that `compile` writes holds every rule of its texts once, and `assemble` reads all of them
back from it and keeps the first ones in the order of the engine. The lists come back in the order of
their ids, not in the order of the texts, which makes no difference: one sequence numbers the records
of all texts, so the rules are ordered strictly. Where a text cannot be read or two texts have one id,
`compile` fails and writes nothing.

## Implementation notes

A path may lead to a device, which takes a text and gives nothing back. All that is said of reading is
said of other files.
-/

namespace Blocklist

/-! ### Compiling texts in turn -/

/-- The number of records in a list. -/
def CompiledList.recordCount (l : CompiledList) : Nat :=
  l.rules.length + l.cosmeticRules.length + l.scriptlets.length

/-- The records of a text are as many as its drafts. -/
theorem recordCount_compileList (ids : IdSequence) (listId text : String) :
    (compileList ids listId text).list.recordCount = (draftsOf text).length :=
  (Record.length_kinds _).trans (IdSequence.length_label listId ids (draftsOf text))

/-- The ids of the rules of a text are handed out to its records, in their order. -/
theorem ids_compileList_sublist (ids : IdSequence) (listId text : String) :
    ((compileList ids listId text).list.rules.map (·.id)).Sublist
      (ids.taken (draftsOf text).length) := by
  rw [← ids.numbers_label listId (draftsOf text)]
  exact Record.network_ids_sublist _

/-- What texts compile to in turn, each under the id of its list, with one sequence of ids. -/
def compileInTurn (ids : IdSequence) : List (String × String) → List (String × CompiledList)
  | [] => []
  | (listId, text) :: rest =>
    let c := compileList ids listId text
    (listId, c.list) :: compileInTurn c.ids rest

theorem map_fst_compileInTurn (ids : IdSequence) (texts : List (String × String)) :
    (compileInTurn ids texts).map (·.1) = texts.map (·.1) := by
  induction texts generalizing ids with
  | nil => rfl
  | cons text rest ih => rw [compileInTurn, List.map_cons, List.map_cons, ih]

/-- The ids of the rules of all texts are handed out to their records, in their order. -/
theorem ids_compileInTurn_sublist (ids : IdSequence) (texts : List (String × String)) :
    (((compileInTurn ids texts).map (·.2.rules)).flatten.map (·.id)).Sublist
      (ids.taken ((compileInTurn ids texts).map (·.2.recordCount)).sum) := by
  induction texts generalizing ids with
  | nil => exact .slnil
  | cons entry rest ih =>
      obtain ⟨listId, text⟩ := entry
      have hids : (compileList ids listId text).ids = ids.skip (draftsOf text).length :=
        ids.label_snd listId (draftsOf text)
      simp only [compileInTurn, List.map_cons, List.flatten_cons, List.map_append, List.sum_cons]
      rw [recordCount_compileList, IdSequence.taken_add, ← hids]
      exact (ids_compileList_sublist ids listId text).append (ih _)

/-- As long as there is room for all records, the rules of all texts have distinct ids. -/
theorem nodup_ids_compileInTurn {ids : IdSequence} {texts : List (String × String)}
    (h : ids.next.toNat + ((compileInTurn ids texts).map (·.2.recordCount)).sum ≤ 2 ^ 32) :
    (((compileInTurn ids texts).map (·.2.rules)).flatten.map (·.id)).Nodup :=
  (IdSequence.nodup_taken_of_room h).sublist (ids_compileInTurn_sublist ids texts)

namespace CommandLine

variable {disk : Disk}

/-! ### Compiling files -/

namespace Compiled

/-- The lists after one more text was compiled. -/
def extended (verbose : Bool) (c : Compiled) (listId text : String) : Compiled :=
  let compilation := compileList c.ids listId text
  let stats := compilation.list.stats
  { lists := c.lists.insert listId compilation.list
    ids := compilation.ids
    totals := c.totals + stats
    lines := if verbose then c.lines ++ [s!"  [{listId}] {stats.message}"] else c.lines }

/-- A file is compiled exactly if it can be read and there is no list of its id yet. -/
theorem add_eq_ok_iff {verbose : Bool} {c c' : Compiled} {path : String} :
    add disk verbose c path = .ok c' ↔
      ∃ text, readLossy disk path = .ok text ∧ c.lists.get? (Path.listId path) = none ∧
        c' = c.extended verbose (Path.listId path) text := by
  rw [add]
  cases readLossy disk path with
  | error error => simp
  | ok text =>
      dsimp only
      cases hget : c.lists.get? (Path.listId path) with
      | none => simp [extended, eq_comm]
      | some list => simp

theorem get?_extended {verbose : Bool} {c : Compiled} {listId listId' text : String} :
    (c.extended verbose listId text).lists.get? listId' = none ↔
      listId' ≠ listId ∧ c.lists.get? listId' = none := by
  rw [extended]
  dsimp only
  rw [Dict.get?_insert]
  by_cases h : listId' = listId <;> simp [h]

/-- Files that all can be read and have new distinct ids are compiled in turn. -/
theorem foldlM_add_eq_ok (verbose : Bool) (c : Compiled) {paths texts : List String}
    (hread : paths.map (readLossy disk) = texts.map .ok)
    (hids : (paths.map Path.listId).Nodup)
    (hnew : ∀ path ∈ paths, c.lists.get? (Path.listId path) = none) :
    ∃ c', paths.foldlM (add disk verbose) c = .ok c' ∧
      c'.lists = c.lists.insertAll (compileInTurn c.ids ((paths.map Path.listId).zip texts)) := by
  induction paths generalizing c texts with
  | nil => exact ⟨c, rfl, rfl⟩
  | cons path rest ih =>
      obtain ⟨text, texts, rfl⟩ : ∃ text texts', texts = text :: texts' := by
        cases texts with
        | nil => cases hread
        | cons text texts => exact ⟨text, texts, rfl⟩
      obtain ⟨htext, hread⟩ := List.cons.inj hread
      obtain ⟨hout, hids⟩ := List.nodup_cons.mp hids
      have hadd : add disk verbose c path = .ok (c.extended verbose (Path.listId path) text) :=
        add_eq_ok_iff.mpr ⟨text, htext, hnew path List.mem_cons_self, rfl⟩
      have hnew' : ∀ path' ∈ rest,
          (c.extended verbose (Path.listId path) text).lists.get? (Path.listId path') = none := by
        intro path' hpath'
        refine get?_extended.mpr ⟨fun heq => hout ?_, hnew path' (List.mem_cons_of_mem _ hpath')⟩
        exact List.mem_map.mpr ⟨path', hpath', heq⟩
      obtain ⟨c', hc', hlists⟩ := ih _ hread hids hnew'
      refine ⟨c', ?_, hlists⟩
      rw [List.foldlM_cons, hadd]
      exact hc'

/-- Files that are all compiled can be read, and have new distinct ids. -/
theorem of_foldlM_add_eq_ok {verbose : Bool} {c c' : Compiled} {paths : List String}
    (h : paths.foldlM (add disk verbose) c = .ok c') :
    (∀ path ∈ paths, ∃ text, readLossy disk path = .ok text) ∧ (paths.map Path.listId).Nodup ∧
      ∀ path ∈ paths, c.lists.get? (Path.listId path) = none := by
  induction paths generalizing c with
  | nil => simp
  | cons path rest ih =>
      rw [List.foldlM_cons] at h
      cases hadd : add disk verbose c path with
      | error error =>
          rw [hadd] at h
          cases h
      | ok next =>
          rw [hadd] at h
          obtain ⟨text, htext, hnew, rfl⟩ := add_eq_ok_iff.mp hadd
          obtain ⟨hread, hids, hrest⟩ := ih h
          refine ⟨?_, ?_, ?_⟩
          · exact List.forall_mem_cons.mpr ⟨⟨text, htext⟩, hread⟩
          · refine List.nodup_cons.mpr ⟨fun hmem => ?_, hids⟩
            obtain ⟨path', hpath', heq⟩ := List.mem_map.mp hmem
            exact (get?_extended.mp (hrest path' hpath')).1 heq
          · refine List.forall_mem_cons.mpr ⟨hnew, fun path' hpath' => ?_⟩
            exact (get?_extended.mp (hrest path' hpath')).2

end Compiled

/-- Without texts, with one that cannot be read or with two of one id, `compile` fails and leaves the
disk as it is. -/
theorem compileFiles_fails {inputs : List String} {output : String} {startId : RuleId}
    {verbose : Bool}
    (h : inputs = [] ∨ (∃ path ∈ inputs, ∃ error, readLossy disk path = .error error) ∨
      ¬ (inputs.map Path.listId).Nodup) :
    (compileFiles disk inputs output startId verbose).error ≠ none ∧
      (compileFiles disk inputs output startId verbose).disk = disk := by
  rw [compileFiles]
  split
  · exact ⟨Option.some_ne_none _, rfl⟩
  · rename_i hempty
    cases hpaths : Compiled.ofPaths disk verbose startId inputs with
    | error failure => exact ⟨Option.some_ne_none _, rfl⟩
    | ok c =>
        obtain ⟨hread, hids, _⟩ := Compiled.of_foldlM_add_eq_ok hpaths
        obtain rfl | ⟨path, hpath, error, herror⟩ | hrepeated := h
        · exact absurd rfl hempty
        · obtain ⟨text, htext⟩ := hread path hpath
          rw [htext] at herror
          cases herror
        · exact absurd hids hrepeated

/-- Otherwise it writes the compiled lists, and fails only if they cannot be written. -/
theorem compileFiles_writes {inputs texts : List String} (output : String) (startId : RuleId)
    (verbose : Bool) (hne : inputs ≠ []) (hread : inputs.map (readLossy disk) = texts.map .ok)
    (hids : (inputs.map Path.listId).Nodup) :
    let lists := compileInTurn ⟨startId⟩ ((inputs.map Path.listId).zip texts)
    let written := writeOutput disk output (Json.of (Dict.empty.insertAll lists)).indented
    (compileFiles disk inputs output startId verbose).disk = written.2 ∧
      ((compileFiles disk inputs output startId verbose).error = none ↔ written.1 = .ok ()) := by
  intro lists written
  obtain ⟨c, hc, hlists⟩ := Compiled.foldlM_add_eq_ok verbose ⟨.empty, ⟨startId⟩, .zero, []⟩ hread
    hids fun _ _ => rfl
  have hempty : inputs.isEmpty = false := by simpa using hne
  have hwritten : writeOutput disk output (Json.of c.lists).indented = written := by
    rw [hlists]
  rw [compileFiles, if_neg (by simp [hempty]), Compiled.ofPaths, hc]
  dsimp only
  rw [hwritten]
  obtain ⟨_ | _, disk'⟩ := written
  · exact ⟨rfl, by simp [Outcome.failure]⟩
  · exact ⟨rfl, by simp⟩

/-! ### Assembling a compiled file -/

/-- An output that is written is written to the disk with the folder that was made for it. -/
theorem writeOutput_eq_ok {path text : String} (h : (writeOutput disk path text).1 = .ok ()) :
    ∃ made : Disk, made.write path text = .ok (writeOutput disk path text).2 := by
  rw [writeOutput] at h ⊢
  split at h
  · cases h
  · rename_i made hfolder
    refine ⟨made, ?_⟩
    cases hwrite : made.write path text with
    | error fault =>
        rw [hwrite] at h
        cases h
    | ok written => rfl

/-- A text that was written to anything but a device is read back. -/
theorem read_writeOutput {path text : String} (h : (writeOutput disk path text).1 = .ok ())
    (hdevice : ¬ (writeOutput disk path text).2.LeadsToDevice path) :
    (writeOutput disk path text).2.read path = .ok (.text text) := by
  obtain ⟨made, hwrite⟩ := writeOutput_eq_ok h
  exact Disk.read_of_write hwrite hdevice

/-- The rules of a file of compiled lists are read list by list, in the order of the lists' ids. -/
theorem readCompiled_of_read {path : String} {lists : Dict CompiledList}
    (h : disk.read path = .ok (.text (Json.of lists).indented)) :
    readCompiled disk path = .ok (lists.values.map (·.rules)) := by
  have hplain : Json.Plain (PlainCodec.depth (Dict CompiledList)) (Json.of lists) :=
    PlainCodec.plain lists
  have hvalue : Json.valueOf? (Json.of lists).indented = some (Json.of lists).merged :=
    (hplain.valueOf?_eq (by decide)).2
  have hdecode : (Json.of lists).merged.as? (Dict CompiledList) = some lists :=
    LawfulCodec.as_of Json.transparent_merged lists
  obtain ⟨members, hobject⟩ : ∃ members, (Json.of lists).merged = .object members :=
    ⟨_, Json.merged_object _⟩
  rw [readCompiled, readLossy, h]
  simp only [Content.lossyText]
  rw [hvalue, hobject]
  rw [hobject] at hdecode
  dsimp only
  rw [hdecode]

/-- `assemble` makes these rules of the lists in a file: it writes their array, fails only if that
cannot be written, and reports how many rules it has read and dropped. What it wrote to anything but a
device can be read. -/
structure Assembles (disk : Disk) (file target : String) (lists budget : Nat)
    (result : List Rule × AssemblyStats) : Prop where
  disk_eq : (assembleFiles disk [file] target budget).disk =
    (writeOutput disk target (Json.of result.1).indented).2
  error_eq_none_iff : (assembleFiles disk [file] target budget).error = none ↔
    (writeOutput disk target (Json.of result.1).indented).1 = .ok ()
  lines_eq : (assembleFiles disk [file] target budget).error = none →
    (assembleFiles disk [file] target budget).lines =
      [.text s!"Assembled {lists} lists to '{target}'",
        .text s!"  Rules:    {result.2.before} -> {result.2.after} (budget {budget})",
        .text
          s!"  Dropped:  {result.2.overBudget} over budget, {result.2.duplicateIds} duplicate ids"]
  readRules_eq : (assembleFiles disk [file] target budget).error = none →
    ¬ (assembleFiles disk [file] target budget).disk.LeadsToDevice target →
    (assembleFiles disk [file] target budget).disk.readRules target = .ok result.1

/-- `assemble` makes of the lists in a file what their assembly comes to. -/
theorem assembles_of_readCompiled {file : String} {slices : List (List Rule)}
    (hread : readCompiled disk file = .ok slices) (target : String) (budget : Nat) :
    Assembles disk file target slices.length budget (assemble slices budget) := by
  have hlists : [file].mapM (readCompiled disk) = .ok [slices] := by
    rw [List.mapM_cons, hread]
    rfl
  rcases hwritten : writeOutput disk target (Json.of (assemble slices budget).1).indented with
    ⟨error | _, disk'⟩
  · have houtcome : assembleFiles disk [file] target budget = .failure [] error disk' := by
      rw [assembleFiles, hlists]
      simp only [List.flatten_singleton, hwritten]
    have hfails : (assembleFiles disk [file] target budget).error ≠ none := by
      rw [houtcome]
      exact Option.some_ne_none _
    refine ⟨?_, ⟨fun h => absurd h hfails, fun h => ?_⟩, fun h => absurd h hfails,
      fun h => absurd h hfails⟩
    · rw [houtcome, hwritten]
      rfl
    · rw [hwritten] at h
      cases h
  · have houtcome : (assembleFiles disk [file] target budget).error = none ∧
        (assembleFiles disk [file] target budget).disk = disk' := by
      rw [assembleFiles, hlists]
      simp only [List.flatten_singleton, hwritten]
      exact ⟨rfl, rfl⟩
    obtain ⟨herror, hdisk⟩ := houtcome
    refine ⟨?_, ⟨fun _ => ?_, fun _ => herror⟩, fun _ => ?_, fun _ hdevice => ?_⟩
    · rw [hdisk, hwritten]
    · rw [hwritten]
    · rw [assembleFiles, hlists]
      simp only [List.flatten_singleton, hwritten]
      rfl
    · have hback := read_writeOutput (congrArg Prod.fst hwritten)
      rw [hwritten] at hback
      rw [hdisk] at hdevice ⊢
      exact Disk.readRules_of_read (hback hdevice)

/-- The lists of a dictionary are those that it was made of, with their rules. -/
theorem slices_insertAll_perm {lists : List (String × CompiledList)}
    (h : (lists.map (·.1)).Nodup) :
    ((Dict.empty.insertAll lists).values.map (·.rules)).Perm (lists.map (·.2.rules)) := by
  have hnew : ∀ e ∈ lists, (Dict.empty : Dict CompiledList).get? e.1 = none := fun _ _ => rfl
  have hentries := Dict.entries_insertAll_perm h hnew
  rw [Dict.empty, List.append_nil] at hentries
  have hslices := hentries.map (·.2.rules)
  rwa [Dict.values, List.map_map]

/-- Without texts, with one that cannot be read or with two of one id, `compile` fails and writes
nothing. Otherwise it writes the compiled lists. Their rules have one strict order as long as there is
room for the ids of all records: whatever order the lists come back in, the first rules of this order
are taken, as many as a budget allows, and `assemble` writes them and reports that all others are over
budget and none has the id of another one. -/
theorem compiled_rules_are_assembled (disk : Disk) (inputs : List String) (output : String)
    (startId : RuleId) (verbose : Bool) :
    let o := compileFiles disk inputs output startId verbose
    (inputs = [] ∨ (∃ path ∈ inputs, ∃ error, readLossy disk path = .error error) ∨
        ¬ (inputs.map Path.listId).Nodup →
      o.error ≠ none ∧ o.disk = disk) ∧
    ∀ texts, inputs ≠ [] → inputs.map (readLossy disk) = texts.map .ok →
      (inputs.map Path.listId).Nodup →
      let lists := compileInTurn ⟨startId⟩ ((inputs.map Path.listId).zip texts)
      let written := writeOutput disk output (Json.of (Dict.empty.insertAll lists)).indented
      (o.disk = written.2 ∧ (o.error = none ↔ written.1 = .ok ())) ∧
      (startId.toNat + (lists.map (·.2.recordCount)).sum ≤ 2 ^ 32 →
        ∃ ordered : List Rule,
          ordered.Perm (lists.flatMap (·.2.rules)) ∧ ordered.Pairwise Rule.Before ∧
          ∀ budget,
            let result : List Rule × AssemblyStats :=
              (ordered.take budget,
                { before := ordered.length
                  after := min ordered.length budget
                  duplicateIds := 0
                  overBudget := ordered.length - budget })
            (∀ slices : List (List Rule), slices.Perm (lists.map (·.2.rules)) →
              assemble slices budget = result) ∧
            (o.error = none → ¬ o.disk.LeadsToDevice output →
              ∀ target, Assembles o.disk output target inputs.length budget result)) := by
  intro o
  refine ⟨compileFiles_fails, fun texts hne hread hids => ?_⟩
  intro lists written
  obtain ⟨hdisk, herror⟩ := compileFiles_writes output startId verbose hne hread hids
  refine ⟨⟨hdisk, herror⟩, fun hroom => ?_⟩
  have hnodup : ((lists.map (·.2.rules)).flatten.map (·.id)).Nodup := nodup_ids_compileInTurn hroom
  have hlength : (inputs.map Path.listId).length = texts.length := by
    simpa using congrArg List.length hread
  have hkeys : lists.map (·.1) = inputs.map Path.listId :=
    (map_fst_compileInTurn _ _).trans (List.map_fst_zip (by omega))
  have hperm := slices_insertAll_perm (hkeys ▸ hids : (lists.map (·.1)).Nodup)
  have hordered : (Rule.sorted (lists.map (·.2.rules)).flatten).length =
      (lists.map (·.2.rules)).flatten.length :=
    (Rule.sorted_perm _).length_eq
  refine ⟨Rule.sorted (lists.map (·.2.rules)).flatten, ?_, Rule.pairwise_before_sorted hnodup, ?_⟩
  · rw [List.flatMap_def]
    exact Rule.sorted_perm _
  · intro budget result
    have hassemble : ∀ slices : List (List Rule), slices.Perm (lists.map (·.2.rules)) →
        assemble slices budget = result := by
      intro slices hslices
      rw [assemble_eq_of_perm hnodup hslices]
      simp only [result, hordered]
    refine ⟨hassemble, fun hnone hdevice target => ?_⟩
    have hwritten : written.1 = .ok () := herror.mp hnone
    rw [hdisk] at hdevice ⊢
    have hslices := readCompiled_of_read (read_writeOutput hwritten hdevice)
    have hcount : ((Dict.empty.insertAll lists).values.map (·.rules)).length = inputs.length := by
      rw [hperm.length_eq]
      simpa using congrArg List.length hkeys
    rw [← hassemble _ hperm, ← hcount]
    exact assembles_of_readCompiled hslices target budget

/-- A disk with the texts of two lists. -/
def sampleDisk : Disk :=
  (Disk.empty.put ["zoo.txt"]
    (.file (.text "||zoo.example^\n@@||shop.example^\nnews.example##.ad"))).put ["ads.txt"]
    (.file (.text "||ads.example^$important\n||banner.example^"))

/-- The lists come back in another order than that of the texts, and the last rule is over budget. -/
theorem compiled_rules_are_assembled_sample :
    let o := compileFiles sampleDisk ["zoo.txt", "ads.txt"] "compiled.json" 7 false
    let a := assembleFiles o.disk ["compiled.json"] "rules.json" 3
    o.error = none ∧ a.error = none ∧
      (∃ rules, a.disk.readRules "rules.json" = .ok rules ∧ rules.map (·.id) = [10, 8, 7]) ∧
      a.lines =
        [.text "Assembled 2 lists to 'rules.json'", .text "  Rules:    4 -> 3 (budget 3)",
          .text "  Dropped:  1 over budget, 0 duplicate ids"] := by
  let texts := ["||zoo.example^\n@@||shop.example^\nnews.example##.ad",
    "||ads.example^$important\n||banner.example^"]
  let rules := (compileInTurn ⟨7⟩ (["zoo", "ads"].zip texts)).flatMap (·.2.rules)
  have hcompiles :=
    (compiled_rules_are_assembled sampleDisk ["zoo.txt", "ads.txt"] "compiled.json" 7 false).2
      texts (List.cons_ne_nil _ _) rfl (by decide)
  dsimp only
  generalize compileFiles sampleDisk ["zoo.txt", "ads.txt"] "compiled.json" 7 false = o at *
  obtain ⟨⟨hdisk, herror⟩, hassembles⟩ := hcompiles
  obtain ⟨ordered, hperm, hsorted, hbudget⟩ := hassembles (by decide +kernel)
  -- What is written does not decide whether it can be.
  have hwritten : ∀ text, writeOutput sampleDisk "compiled.json" text =
      (.ok (), sampleDisk.put ["compiled.json"] (.file (.text text))) := fun _ => rfl
  have hwritten' : ∀ text text', writeOutput
      (sampleDisk.put ["compiled.json"] (.file (.text text))) "rules.json" text' =
        (.ok (), (sampleDisk.put ["compiled.json"] (.file (.text text))).put ["rules.json"]
          (.file (.text text'))) := fun _ _ => rfl
  rw [hwritten] at hdisk herror
  have hdevice : ¬ o.disk.LeadsToDevice "compiled.json" := by
    rw [hdisk]
    exact Disk.Free.not_leadsToDevice_put (Disk.free_of_look (.inl rfl)) _ rfl
  have ha := (hbudget 3).2 (herror.mpr rfl) hdevice "rules.json"
  have herror' : (assembleFiles o.disk ["compiled.json"] "rules.json" 3).error = none :=
    ha.error_eq_none_iff.mpr (by rw [hdisk, hwritten'])
  have hdevice' : ¬ (assembleFiles o.disk ["compiled.json"] "rules.json" 3).disk.LeadsToDevice
      "rules.json" := by
    rw [ha.disk_eq, hdisk, hwritten']
    exact Disk.Free.not_leadsToDevice_put (Disk.free_of_look (.inl rfl)) _ rfl
  have hordered : ordered = [rules[2]!, rules[1]!, rules[0]!, rules[3]!] :=
    List.Perm.eq_of_pairwise (fun a b _ _ hab hba => absurd hba hab.asymm) hsorted
      (by decide +kernel) (hperm.trans (by decide +kernel))
  refine ⟨herror.mpr rfl, herror', ⟨_, ha.readRules_eq herror' hdevice', ?_⟩, ?_⟩
  · rw [hordered]
    decide +kernel
  · rw [ha.lines_eq herror', hordered]
    decide +kernel

end CommandLine

end Blocklist
