import Blocklist.Engine
import Blocklist.Proofs.Replacement
import Blocklist.Store

/-!
# Files that a replacement leaves alone

A file that was replaced holds the new text, unless a device stands at its path afterwards. It keeps
that text when another file is replaced, as long as neither the path of the other file nor the path
beside it leads to the same place.

## Implementation notes

A replacement makes folders, writes a file beside the other one and moves it. `Spares` is what each of
these steps keeps of a place, whether or not it succeeds.
-/

namespace Blocklist

namespace Disk

variable {disk disk' disk'' : Disk} {place new : Place} {path path' : String}

/-- Two paths do not lead to the same place. -/
def Apart (disk : Disk) (path path' : String) : Prop :=
  ∀ place slash place' slash', disk.target path = .ok (.place place slash) →
    disk.target path' = .ok (.place place' slash') → place.text ≠ place'.text

theorem apart_of_target {place' : Place} {slash slash' : Bool}
    (h : disk.target path = .ok (.place place slash))
    (h' : disk.target path' = .ok (.place place' slash')) (hne : place.text ≠ place'.text) :
    disk.Apart path path' := by
  intro goal slash₁ goal' slash₂ hgoal hgoal'
  rw [h, Except.ok.injEq, Target.place.injEq] at hgoal
  rw [h', Except.ok.injEq, Target.place.injEq] at hgoal'
  rwa [← hgoal.1, ← hgoal'.1]

/-- A change loses no folder, and what stands at a place stays. -/
structure Spares (disk disk' : Disk) (place : Place) : Prop where
  keepsFolders : disk.KeepsFolders disk'
  node : disk'.nodes.get? place.text = disk.nodes.get? place.text

namespace Spares

theorem refl (disk : Disk) (place : Place) : disk.Spares disk place :=
  ⟨.refl disk, rfl⟩

theorem trans (h : disk.Spares disk' place) (h' : disk'.Spares disk'' place) :
    disk.Spares disk'' place :=
  ⟨h.keepsFolders.trans h'.keepsFolders, h'.node.trans h.node⟩

theorem look_eq (h : disk.Spares disk' place) : disk'.look place = disk.look place := by
  cases place with
  | nil => rfl
  | cons name folder => rw [look_cons, look_cons, h.node]

/-- A path to the place is read as before. -/
theorem read_eq (h : disk.Spares disk' place) {slash : Bool}
    (htarget : disk.target path = .ok (.place place slash)) : disk'.read path = disk.read path := by
  rw [read, read, htarget, h.keepsFolders.target htarget]
  dsimp only
  rw [h.look_eq]

/-- Something is put at another place. -/
theorem put (h : disk.Free new) (htext : new.text ≠ place.text) (node : Node) :
    disk.Spares (disk.put new node) place := by
  refine ⟨h.keepsFolders_put node, ?_⟩
  rw [Disk.put, Dict.get?_insert, if_neg htext.symm]

/-- Another place is cleared. -/
theorem clear (h : disk.nodes.get? new.text ≠ some .folder) (htext : new.text ≠ place.text) :
    disk.Spares (disk.clear new) place := by
  refine ⟨keepsFolders_clear h, ?_⟩
  rw [Disk.clear, Dict.get?_erase, if_neg htext.symm]

end Spares

/-! ### The steps of a replacement -/

theorem get?_of_look_notFound (h : disk.look place = .error .notFound) :
    disk.nodes.get? place.text = none := by
  cases place with
  | nil => cases h
  | cons name folder =>
      rw [look_cons] at h
      split at h
      · cases h
      · split at h
        · cases h
        · assumption

/-- Folders are made where nothing stands. -/
theorem spares_makeAlong (making : Bool) (folder : Place) (parts : List String) :
    disk.KeepsFolders (disk.makeAlong making folder parts).2 ∧
      ∀ place, disk.nodes.get? place.text ≠ none →
        disk.Spares (disk.makeAlong making folder parts).2 place := by
  induction parts generalizing making disk folder with
  | nil => exact ⟨.refl _, fun place _ => .refl _ place⟩
  | cons part rest ih =>
      rw [makeAlong]
      dsimp only
      split
      · exact ih _ _
      · split
        · exact ih _ _
        · split
          · exact ih _ _
          · exact ⟨.refl _, fun place _ => .refl _ place⟩
          · next hlook =>
            have hfree := free_of_look (.inl hlook)
            obtain ⟨hkeeps, hspares⟩ := @ih (disk.put (part :: folder) .folder) true (part :: folder)
            refine ⟨(hfree.keepsFolders_put _).trans hkeeps, fun place hstands => ?_⟩
            have htext : Place.text (part :: folder) ≠ place.text := fun htext =>
              hstands (htext ▸ get?_of_look_notFound hlook)
            have hput := Spares.put hfree htext .folder
            exact hput.trans (hspares place (hput.node.symm ▸ hstands))
          · exact ⟨.refl _, fun place _ => .refl _ place⟩

/-- The folder of a path is made where nothing stands. -/
theorem spares_makeFolderOf (path : String) :
    disk.KeepsFolders (disk.makeFolderOf path).2 ∧
      ∀ place, disk.nodes.get? place.text ≠ none → disk.Spares (disk.makeFolderOf path).2 place := by
  rw [makeFolderOf]
  cases Path.folder? path with
  | none => exact ⟨.refl _, fun place _ => .refl _ place⟩
  | some folder =>
      dsimp only
      rw [makeFolders]
      cases pathFault? folder with
      | some fault => exact ⟨.refl _, fun place _ => .refl _ place⟩
      | none => exact spares_makeAlong _ _ _

/-- A write loses no folder, and spares any other place than that of its path. -/
theorem spares_write {text : String} (h : disk.write path text = .ok disk') :
    disk.KeepsFolders disk' ∧
      ∀ place, (∀ goal slash, disk.target path = .ok (.place goal slash) → goal.text ≠ place.text) →
        disk.Spares disk' place := by
  obtain ⟨goal, htarget, ⟨hvacant, rfl⟩ | ⟨full, -, rfl⟩⟩ := write_eq_ok h
  · have hfree := free_of_look hvacant
    exact ⟨hfree.keepsFolders_put _, fun place htext =>
      .put hfree (htext goal false htarget) _⟩
  · exact ⟨.refl _, fun place _ => .refl _ place⟩

/-- A move loses no folder, and spares any other place than those of its two paths. -/
theorem spares_move (h : disk.move path path' = .ok disk') :
    disk.KeepsFolders disk' ∧
      ∀ place, (∀ goal slash, disk.target path = .ok (.place goal slash) → goal.text ≠ place.text) →
        (∀ goal slash, disk.target path' = .ok (.place goal slash) → goal.text ≠ place.text) →
        disk.Spares disk' place := by
  obtain ⟨old, new, node, hold, hnew, hnode, hfolder, hfree, rfl⟩ := move_eq_ok h
  have hstands : disk.nodes.get? old.text ≠ some .folder := by
    rw [get?_of_look (place_ne_nil_of_target hold) hnode]
    exact fun heq => hfolder (Option.some.inj heq)
  have hfree' := hfree.clear old
  exact ⟨(keepsFolders_clear hstands).trans (hfree'.keepsFolders_put node), fun place htext htext' =>
    (Spares.clear hstands (htext old false hold)).trans
      (.put hfree' (htext' new false hnew) node)⟩

/-- A replacement loses no folder, and spares any other file than the one of its path and the one
beside it. -/
theorem spares_replace (path text : String) :
    disk.KeepsFolders (disk.replace path text).2 ∧
      ∀ place, disk.nodes.get? place.text ≠ none →
        (∀ goal slash, (disk.replace path text).2.target (Path.staging path) =
          .ok (.place goal slash) → goal.text ≠ place.text) →
        (∀ goal slash, (disk.replace path text).2.target path = .ok (.place goal slash) →
          goal.text ≠ place.text) →
        disk.Spares (disk.replace path text).2 place := by
  obtain ⟨hmade, hspared⟩ := disk.spares_makeFolderOf path
  rw [replace]
  rcases hmake : disk.makeFolderOf path with ⟨fault | _, made⟩
  · rw [hmake] at hmade hspared
    exact ⟨hmade, fun place hstands _ _ => hspared place hstands⟩
  · rw [hmake] at hmade hspared
    dsimp only
    cases hwrite : made.write (Path.staging path) text with
    | error fault => exact ⟨hmade, fun place hstands _ _ => hspared place hstands⟩
    | ok written =>
        obtain ⟨hkeeps, hwritten⟩ := spares_write hwrite
        dsimp only
        cases hmove : written.move (Path.staging path) path with
        | error fault =>
            refine ⟨hmade.trans hkeeps, fun place hstands hstaging _ => ?_⟩
            exact (hspared place hstands).trans (hwritten place fun goal slash htarget =>
              hstaging goal slash (hkeeps.target htarget))
        | ok final =>
            obtain ⟨hkeeps', hmoved⟩ := spares_move hmove
            refine ⟨hmade.trans (hkeeps.trans hkeeps'), fun place hstands hstaging hpath => ?_⟩
            have hbeside := hwritten place fun goal slash htarget =>
              hstaging goal slash (hkeeps'.target (hkeeps.target htarget))
            exact (hspared place hstands).trans (hbeside.trans (hmoved place
              (fun goal slash htarget => hstaging goal slash (hkeeps'.target htarget))
              fun goal slash htarget => hpath goal slash (hkeeps'.target htarget)))

/-- What stands at a path that was replaced is the new text, or a device that stood beside it. -/
theorem replace_eq_ok {text : String} (h : disk.replace path text = (.ok (), disk')) :
    ∃ place node, disk'.target path = .ok (.place place false) ∧ disk'.look place = .ok node ∧
      (node = .file (.text text) ∨ ∃ full, node = .device full) := by
  rw [replace] at h
  split at h
  · cases h
  · rename_i made hmake
    dsimp only at h
    split at h
    · cases h
    · rename_i written hwrite
      split at h
      · cases h
      · rename_i final hmove
        cases h
        obtain ⟨old', new, node, hold', hnew, hnode, hfolder, hfree, rfl⟩ := move_eq_ok hmove
        have hkeeps := (spares_move hmove).1
        have hkind : node = .file (.text text) ∨ ∃ full, node = .device full := by
          obtain ⟨old, hold, ⟨hvacant, rfl⟩ | ⟨full, hdevice, rfl⟩⟩ := write_eq_ok hwrite
          · have hput := free_of_look hvacant
            rw [(hput.keepsFolders_put _).target hold, Except.ok.injEq, Target.place.injEq] at hold'
            rw [← hold'.1, hput.look_put] at hnode
            exact .inl (Except.ok.inj hnode).symm
          · rw [hold, Except.ok.injEq, Target.place.injEq] at hold'
            rw [← hold'.1, hdevice] at hnode
            exact .inr ⟨full, (Except.ok.inj hnode).symm⟩
        exact ⟨new, node, hkeeps.target hnew, (hfree.clear old').look_put node, hkind⟩

/-! ### Two files -/

/-- A text that anything but a device was replaced by is read back. -/
theorem read_replaced {text : String} (h : disk.replace path text = (.ok (), disk'))
    (hdevice : ¬ disk'.LeadsToDevice path) : disk'.read path = .ok (.text text) := by
  obtain ⟨place, node, htarget, hlook, rfl | ⟨full, rfl⟩⟩ := replace_eq_ok h
  · rw [read, htarget]
    dsimp only
    rw [hlook]
    rfl
  · exact absurd ⟨place, false, full, htarget, hlook⟩ hdevice

/-- Values that are written to a file lose no folder, and spare any other file than that one and the
one beside it. -/
theorem spares_writeItems (path : String) (items : List (String × Json)) :
    disk.KeepsFolders (disk.writeItems path items).2 ∧
      ∀ place, disk.nodes.get? place.text ≠ none →
        (∀ goal slash, (disk.writeItems path items).2.target (Path.staging path) =
          .ok (.place goal slash) → goal.text ≠ place.text) →
        (∀ goal slash, (disk.writeItems path items).2.target path = .ok (.place goal slash) →
          goal.text ≠ place.text) →
        disk.Spares (disk.writeItems path items).2 place := by
  rw [writeItems]
  cases disk.readItems path with
  | error error => exact ⟨.refl _, fun place _ _ _ => .refl _ place⟩
  | ok stored => exact spares_replace path _

/-- The rules in a file are known by what is read from it. -/
theorem readRules_congr (h : disk.read path = disk'.read path) :
    disk.readRules path = disk'.readRules path := by
  rw [readRules, h, readRules]

/-- An update of the rules in a file loses no folder. -/
theorem keepsFolders_updateRules (path : String) (limit : Nat) (update : RuleUpdate) :
    disk.KeepsFolders (disk.updateRules path limit update).2 := by
  rw [updateRules]
  cases (disk.readRules path).bind (update.apply limit) with
  | error error => exact .refl _
  | ok rules => exact (spares_replace path _).1

/-- Values that are written to one file spare another one, if the paths lead apart. -/
theorem spares_of_apart {other : String} {node : Node} {slash : Bool}
    (htarget : disk.target path = .ok (.place place slash)) (hlook : disk.look place = .ok node)
    {items : List (String × Json)} (hafter : (disk.writeItems other items).2 = disk')
    (hother : disk'.Apart other path) (hstaging : disk'.Apart (Path.staging other) path) :
    disk.Spares disk' place := by
  obtain ⟨hkeeps, hspares⟩ := disk.spares_writeItems other items
  rw [hafter] at hkeeps hspares
  have htarget' := hkeeps.target htarget
  have hstands : disk.nodes.get? place.text ≠ none := by
    rw [get?_of_look (place_ne_nil_of_target htarget) hlook]
    exact Option.some_ne_none _
  exact hspares place hstands
    (fun goal slash' hgoal => hstaging goal slash' place slash hgoal htarget')
    fun goal slash' hgoal => hother goal slash' place slash hgoal htarget'

/-- What is read from a file is read from it after values were written to another one. -/
theorem read_writeItems {other : String} {content : Content} (h : disk.read path = .ok content)
    {items : List (String × Json)} (hafter : (disk.writeItems other items).2 = disk')
    (hother : disk'.Apart other path) (hstaging : disk'.Apart (Path.staging other) path) :
    disk'.read path = .ok content := by
  obtain ⟨place, slash, node, htarget, hlook⟩ : ∃ place slash node,
      disk.target path = .ok (.place place slash) ∧ disk.look place = .ok node := by
    rw [read] at h
    split at h
    · cases h
    · cases h
    · next place slash htarget =>
      cases hlook : disk.look place with
      | error fault =>
          rw [hlook] at h
          cases h
      | ok node => exact ⟨place, slash, node, htarget, hlook⟩
  rw [(spares_of_apart htarget hlook hafter hother hstaging).read_eq htarget, h]

/-- A file that was replaced by a text still holds it after values were written to another one. -/
theorem read_of_replace {text other : String} (h : disk.replace path text = (.ok (), disk'))
    {items : List (String × Json)} (hafter : (disk'.writeItems other items).2 = disk'')
    (hother : disk''.Apart other path) (hstaging : disk''.Apart (Path.staging other) path)
    (hdevice : ¬ disk''.LeadsToDevice path) : disk''.read path = .ok (.text text) := by
  obtain ⟨place, node, htarget, hlook, -⟩ := replace_eq_ok h
  have hspared := spares_of_apart htarget hlook hafter hother hstaging
  rw [hspared.read_eq htarget]
  apply read_replaced h
  rintro ⟨place', slash, full, htarget', hlook'⟩
  rw [htarget, Except.ok.injEq, Target.place.injEq] at htarget'
  obtain ⟨rfl, -⟩ := htarget'
  exact hdevice ⟨place, false, full, hspared.keepsFolders.target htarget,
    hspared.look_eq.trans hlook'⟩

end Disk

end Blocklist
