import Blocklist.Disk.Basic
import Blocklist.Proofs.Dict

/-!
# What is written to a file is read from it

A text that was written to a path stands there, unless the path leads to a device: what a device
takes is gone. The way to the file is the same afterwards, for it goes through folders alone, and no
folder is written over.

## Implementation notes

`KeepsFolders` is all that finding a path needs of a change: what a path leads to, and whether its
folder is there, is the same on every disk on which the folders stay.
-/

namespace Blocklist

namespace Disk

variable {disk disk' : Disk} {place : Place} {path : String}

/-- A path leads to a device. -/
def LeadsToDevice (disk : Disk) (path : String) : Prop :=
  ∃ place slash full, disk.target path = .ok (.place place slash) ∧
    disk.look place = .ok (.device full)

/-- A file may be put at a place: the place has a name that is not too long, and no folder stands
there. -/
structure Free (disk : Disk) (place : Place) : Prop where
  ne_nil : place ≠ []
  nameFits : ∀ name ∈ place.head?, name.utf8ByteSize ≤ Path.maxNameSize
  noFolder : disk.nodes.get? place.text ≠ some .folder

/-- A node is seen at a place exactly if it stands there and the name is not too long. -/
theorem look_cons (disk : Disk) (name : String) (folder : Place) :
    disk.look (name :: folder) =
      if Path.maxNameSize < name.utf8ByteSize then .error .nameTooLong
      else
        match disk.nodes.get? (Place.text (name :: folder)) with
        | some node => .ok node
        | none => .error .notFound :=
  rfl

/-- A place with a name is free unless a folder is seen there or the name is too long. -/
theorem free_of_look_ne (hne : place ≠ []) (hfolder : disk.look place ≠ .ok .folder)
    (hlong : disk.look place ≠ .error .nameTooLong) : disk.Free place := by
  cases place with
  | nil => exact absurd rfl hne
  | cons name folder =>
      rw [look_cons] at hfolder hlong
      split at hlong
      · exact absurd rfl hlong
      · rename_i hsize
        rw [if_neg hsize] at hfolder
        refine ⟨hne, ?_, ?_⟩
        · intro name' hname
          rw [← Option.some.inj hname]
          omega
        · intro hnode
          rw [hnode] at hfolder
          exact hfolder rfl

/-- A place is free where nothing stands, and where a file does. -/
theorem free_of_look
    (h : disk.look place = .error .notFound ∨ ∃ content, disk.look place = .ok (.file content)) :
    disk.Free place := by
  apply free_of_look_ne
  · rintro rfl
    obtain h | ⟨content, h⟩ := h <;> cases h
  · intro hfolder
    rw [hfolder] at h
    obtain h | ⟨content, h⟩ := h <;> cases h
  · intro hlong
    rw [hlong] at h
    obtain h | ⟨content, h⟩ := h <;> cases h

/-- A folder is seen at a place exactly if it stands there and the name is not too long. -/
theorem look_eq_folder_iff {name : String} {folder : Place} :
    disk.look (name :: folder) = .ok .folder ↔ name.utf8ByteSize ≤ Path.maxNameSize ∧
      disk.nodes.get? (Place.text (name :: folder)) = some .folder := by
  rw [look_cons]
  split
  · rename_i hsize
    constructor
    · intro h
      cases h
    · intro h
      omega
  · rename_i hsize
    cases disk.nodes.get? (Place.text (name :: folder)) with
    | none => simp
    | some node =>
        rw [Except.ok.injEq, Option.some.injEq]
        exact ⟨fun h => ⟨by omega, h⟩, fun h => h.2⟩

/-- A step along a part of a path stays, goes out, or leads into a folder that is there. -/
theorem enter_eq_ok_iff {folder next : Place} {part : String} :
    disk.enter folder part = .ok next ↔
      (part == ".") = true ∧ next = folder ∨
      (part == ".") = false ∧ (part == "..") = true ∧ next = folder.tail ∨
      (part == ".") = false ∧ (part == "..") = false ∧ disk.look (part :: folder) = .ok .folder ∧
        next = part :: folder := by
  rw [enter]
  cases part == "." with
  | true => simp [eq_comm (a := folder)]
  | false =>
      cases part == ".." with
      | true => simp [eq_comm (a := next)]
      | false =>
          simp only [Bool.false_eq_true, if_false, false_and, true_and, false_or]
          cases disk.look (part :: folder) with
          | error fault => simp
          | ok node => cases node <;> simp [eq_comm]

/-! ### Folders that stay -/

/-- What is a folder on one disk is one on another disk, and paths start at the same folder. -/
structure KeepsFolders (disk disk' : Disk) : Prop where
  working : disk'.working = disk.working
  folder : ∀ place, disk.look place = .ok .folder → disk'.look place = .ok .folder

namespace KeepsFolders

theorem refl (disk : Disk) : disk.KeepsFolders disk :=
  ⟨rfl, fun _ h => h⟩

theorem trans {disk'' : Disk} (h : disk.KeepsFolders disk') (h' : disk'.KeepsFolders disk'') :
    disk.KeepsFolders disk'' :=
  ⟨h'.working.trans h.working, fun place hplace => h'.folder place (h.folder place hplace)⟩

/-- It is enough that the nodes which are folders stay. -/
theorem of_nodes (hworking : disk'.working = disk.working)
    (h : ∀ text, disk.nodes.get? text = some .folder → disk'.nodes.get? text = some .folder) :
    disk.KeepsFolders disk' := by
  refine ⟨hworking, fun place hplace => ?_⟩
  cases place with
  | nil => rfl
  | cons name folder =>
      obtain ⟨hsize, hnode⟩ := look_eq_folder_iff.mp hplace
      exact look_eq_folder_iff.mpr ⟨hsize, h _ hnode⟩

theorem start_eq (h : disk.KeepsFolders disk') (path : String) :
    disk'.start path = disk.start path := by
  rw [start, start, h.working]

/-- A step that led into a folder still does. -/
theorem enter (h : disk.KeepsFolders disk') {folder folder' : Place} {part : String}
    (henter : disk.enter folder part = .ok folder') : disk'.enter folder part = .ok folder' := by
  rw [enter_eq_ok_iff] at henter ⊢
  obtain hstay | hout | ⟨hstay, hout, hlook, hnext⟩ := henter
  · exact .inl hstay
  · exact .inr (.inl hout)
  · exact .inr (.inr ⟨hstay, hout, h.folder _ hlook, hnext⟩)

theorem foldlM_enter (h : disk.KeepsFolders disk') {parts : List String} {folder folder' : Place}
    (hwalk : parts.foldlM disk.enter folder = .ok folder') :
    parts.foldlM disk'.enter folder = .ok folder' := by
  induction parts generalizing folder with
  | nil => exact hwalk
  | cons part rest ih =>
      rw [List.foldlM_cons] at hwalk ⊢
      cases henter : disk.enter folder part with
      | error fault =>
          rw [henter] at hwalk
          cases hwalk
      | ok next =>
          rw [henter] at hwalk
          rw [h.enter henter]
          exact ih hwalk

/-- Paths lead where they led. -/
theorem target (h : disk.KeepsFolders disk') {goal : Target}
    (htarget : disk.target path = .ok goal) : disk'.target path = .ok goal := by
  rw [Disk.target] at htarget ⊢
  cases hfault : pathFault? path with
  | some fault =>
      rw [hfault] at htarget
      cases htarget
  | none =>
      rw [hfault] at htarget
      dsimp only at htarget ⊢
      cases hwalk : (Path.parts path).dropLast.foldlM disk.enter (disk.start path) with
      | error fault =>
          rw [hwalk] at htarget
          cases htarget
      | ok folder =>
          rw [hwalk] at htarget
          rw [h.start_eq, h.foldlM_enter hwalk]
          exact htarget

end KeepsFolders

/-! ### Files that are put -/

namespace Free

theorem look_put (h : disk.Free place) (node : Node) : (disk.put place node).look place = .ok node := by
  cases place with
  | nil => exact absurd rfl h.ne_nil
  | cons name folder =>
      have hsize := h.nameFits name rfl
      rw [look_cons, if_neg (by omega), put]
      dsimp only
      rw [Dict.get?_insert_self]

/-- No folder is lost when something is put at a free place. -/
theorem keepsFolders_put (h : disk.Free place) (node : Node) :
    disk.KeepsFolders (disk.put place node) := by
  refine .of_nodes rfl fun text hnode => ?_
  rw [put, Dict.get?_insert, if_neg]
  · exact hnode
  · rintro rfl
    exact h.noFolder hnode

/-- A path leads to no device once a file was put at its place. -/
theorem not_leadsToDevice_put (h : disk.Free place) (content : Content) {slash : Bool}
    (htarget : disk.target path = .ok (.place place slash)) :
    ¬ (disk.put place (.file content)).LeadsToDevice path := by
  rintro ⟨place', slash', full, htarget', hlook⟩
  rw [(h.keepsFolders_put _).target htarget, Except.ok.injEq, Target.place.injEq] at htarget'
  rw [← htarget'.1, h.look_put] at hlook
  cases hlook

end Free

/-- A write that succeeds puts a file where nothing or a file stands, or is taken by a device. -/
theorem write_eq_ok {text : String} (h : disk.write path text = .ok disk') :
    ∃ place, disk.target path = .ok (.place place false) ∧
      ((disk.look place = .error .notFound ∨ ∃ content, disk.look place = .ok (.file content)) ∧
          disk' = disk.put place (.file (.text text)) ∨
        ∃ full, disk.look place = .ok (.device full) ∧ disk' = disk) := by
  rw [write] at h
  cases htarget : disk.target path with
  | error fault =>
      rw [htarget] at h
      cases h
  | ok goal =>
      rw [htarget] at h
      obtain _ | ⟨place, _ | _⟩ := goal
      · cases h
      · refine ⟨place, rfl, ?_⟩
        dsimp only at h
        split at h
        · rename_i hlook
          cases h
          exact .inl ⟨.inl hlook, rfl⟩
        · rename_i content hlook
          cases h
          exact .inl ⟨.inr ⟨content, hlook⟩, rfl⟩
        · cases h
        · cases h
        · rename_i full hlook
          split at h
          · cases h
          · cases h
            exact .inr ⟨full, hlook, rfl⟩
      · cases h

/-- A text that was written to anything but a device is read back. -/
theorem read_of_write {text : String} (h : disk.write path text = .ok disk')
    (hdevice : ¬ disk'.LeadsToDevice path) : disk'.read path = .ok (.text text) := by
  obtain ⟨place, htarget, ⟨hvacant, rfl⟩ | ⟨full, hlook, rfl⟩⟩ := write_eq_ok h
  · have hfree := free_of_look hvacant
    rw [read, (hfree.keepsFolders_put _).target htarget]
    dsimp only
    rw [hfree.look_put]
    rfl
  · exact absurd ⟨place, false, full, htarget, hlook⟩ hdevice

end Disk

end Blocklist
