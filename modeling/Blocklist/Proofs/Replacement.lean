import Blocklist.Proofs.Disk

/-!
# Files that are replaced again and again

A file that can be replaced once, with any text, can be replaced ever after: the first replacement
makes the folder, and each one leaves the folder, the way to the file and the place beside it as the
next one needs them.

## Implementation notes

`Accepts` speaks of the file from outside, by what a replacement does with every text. `Ready` says
the same from inside, of a disk on which the folder is made: it is what a replacement keeps.
-/

namespace Blocklist

namespace Disk

variable {disk disk' : Disk} {place old new : Place} {path : String}

/-- The file of a path can be replaced with every text, and the text is read back. -/
def Accepts (disk : Disk) (path : String) : Prop :=
  ∀ text, ∃ disk', disk.replace path text = (.ok (), disk') ∧ disk'.read path = .ok (.text text)

/-! ### The folder -/

/-- The folder of a path is there. -/
def HasFolderOf (disk : Disk) (path : String) : Prop :=
  ∀ folder ∈ Path.folder? path, pathFault? folder = none ∧
    ∃ place, (Path.parts folder).foldlM disk.enter (disk.start folder) = .ok place

theorem KeepsFolders.hasFolderOf (h : disk.KeepsFolders disk') (hfolder : disk.HasFolderOf path) :
    disk'.HasFolderOf path := by
  intro folder hmem
  obtain ⟨hfault, place, hwalk⟩ := hfolder folder hmem
  refine ⟨hfault, place, ?_⟩
  rw [h.start_eq]
  exact h.foldlM_enter hwalk

/-- Nothing is made along parts that lead through folders. -/
theorem makeAlong_of_walk {making : Bool} {parts : List String}
    (h : parts.foldlM disk.enter place = .ok new) :
    disk.makeAlong making place parts = (.ok (), disk) := by
  induction parts generalizing place with
  | nil => rfl
  | cons part rest ih =>
      rw [List.foldlM_cons] at h
      cases henter : disk.enter place part with
      | error fault =>
          rw [henter] at h
          cases h
      | ok next =>
          rw [henter] at h
          have hrest := ih h
          obtain ⟨hstay, rfl⟩ | ⟨hstay, hout, rfl⟩ | ⟨hstay, hout, hlook, rfl⟩ :=
            enter_eq_ok_iff.mp henter
          · simpa [makeAlong, hstay] using hrest
          · simpa [makeAlong, hstay, hout] using hrest
          · simpa [makeAlong, hstay, hout, hlook] using hrest

/-- Folders that were made are there, and no folder is lost. -/
theorem walk_of_makeAlong {making : Bool} {parts : List String}
    (h : disk.makeAlong making place parts = (.ok (), disk')) :
    disk.KeepsFolders disk' ∧ ∃ goal, parts.foldlM disk'.enter place = .ok goal := by
  induction parts generalizing making disk place with
  | nil =>
      cases h
      exact ⟨.refl _, place, rfl⟩
  | cons part rest ih =>
      have hstep {next : Place} (henter : disk'.enter place part = .ok next)
          (hrest : ∃ goal, rest.foldlM disk'.enter next = .ok goal) :
          ∃ goal, (part :: rest).foldlM disk'.enter place = .ok goal := by
        rw [List.foldlM_cons, henter]
        exact hrest
      rw [makeAlong] at h
      cases hstay : part == "." with
      | true =>
          rw [if_pos hstay] at h
          obtain ⟨hkeeps, hrest⟩ := ih h
          exact ⟨hkeeps, hstep (enter_eq_ok_iff.mpr (.inl ⟨hstay, rfl⟩)) hrest⟩
      | false =>
          rw [if_neg (by simp [hstay])] at h
          cases hout : part == ".." with
          | true =>
              rw [if_pos hout] at h
              obtain ⟨hkeeps, hrest⟩ := ih h
              exact ⟨hkeeps, hstep (enter_eq_ok_iff.mpr (.inr (.inl ⟨hstay, hout, rfl⟩))) hrest⟩
          | false =>
              rw [if_neg (by simp [hout])] at h
              have henter (hlook : disk'.look (part :: place) = .ok .folder) :
                  disk'.enter place part = .ok (part :: place) :=
                enter_eq_ok_iff.mpr (.inr (.inr ⟨hstay, hout, hlook, rfl⟩))
              dsimp only at h
              split at h
              · rename_i hlook
                obtain ⟨hkeeps, hrest⟩ := ih h
                exact ⟨hkeeps, hstep (henter (hkeeps.folder _ hlook)) hrest⟩
              · cases h
              · rename_i hlook
                have hfree := free_of_look (.inl hlook)
                obtain ⟨hkeeps, hrest⟩ := ih h
                exact ⟨(hfree.keepsFolders_put _).trans hkeeps,
                  hstep (henter (hkeeps.folder _ (hfree.look_put _))) hrest⟩
              · cases h

/-- Nothing is made where the folder is there. -/
theorem HasFolderOf.makeFolderOf_eq (h : disk.HasFolderOf path) :
    disk.makeFolderOf path = (.ok (), disk) := by
  rw [makeFolderOf]
  cases hfolder : Path.folder? path with
  | none => rfl
  | some folder =>
      obtain ⟨hfault, place, hwalk⟩ := h folder hfolder
      dsimp only
      rw [makeFolders, hfault]
      dsimp only
      rw [makeAlong_of_walk hwalk]
      rfl

/-- A folder that was made is there, and no folder is lost. -/
theorem hasFolderOf_of_makeFolderOf (h : disk.makeFolderOf path = (.ok (), disk')) :
    disk.KeepsFolders disk' ∧ disk'.HasFolderOf path := by
  rw [makeFolderOf] at h
  cases hfolder : Path.folder? path with
  | none =>
      rw [hfolder] at h
      cases h
      refine ⟨.refl disk, fun folder hmem => ?_⟩
      rw [hfolder] at hmem
      cases hmem
  | some folder =>
      rw [hfolder] at h
      dsimp only at h
      rw [makeFolders] at h
      cases hfault : pathFault? folder with
      | some fault =>
          rw [hfault] at h
          cases h
      | none =>
          rw [hfault] at h
          dsimp only at h
          rcases hmade : disk.makeAlong false (disk.start folder) (Path.parts folder) with
            ⟨fault | _, made⟩
          · rw [hmade] at h
            cases h
          · rw [hmade] at h
            cases h
            obtain ⟨hkeeps, goal, hwalk⟩ := walk_of_makeAlong hmade
            refine ⟨hkeeps, fun folder' hmem => ?_⟩
            rw [hfolder] at hmem
            cases hmem
            refine ⟨hfault, goal, ?_⟩
            rw [hkeeps.start_eq]
            exact hwalk

/-! ### The file and the place beside it -/

/-- A disk on which the file of a path can be replaced at once: its folder is there, nothing but a
file stands where its next content is prepared, and no folder where it stands itself. -/
structure Ready (disk : Disk) (path : String) (old new : Place) : Prop where
  hasFolder : disk.HasFolderOf path
  staged : disk.target (Path.staging path) = .ok (.place old false)
  placed : disk.target path = .ok (.place new false)
  vacant : disk.look old = .error .notFound ∨ ∃ content, disk.look old = .ok (.file content)
  free : disk.Free new

/-- On an empty disk a file can be put beside the working folder. -/
theorem ready_empty {path : String} {old new : Place} (hfolder : Path.folder? path = none)
    (hstaged : empty.target (Path.staging path) = .ok (.place old false))
    (hplaced : empty.target path = .ok (.place new false))
    (hold : empty.look old = .error .notFound) (hnew : empty.look new = .error .notFound) :
    empty.Ready path old new where
  hasFolder folder hmem := by
    rw [hfolder] at hmem
    cases hmem
  staged := hstaged
  placed := hplaced
  vacant := .inl hold
  free := free_of_look (.inl hnew)

/-- The disk after a file was put at one place and moved to another one. -/
def moved (disk : Disk) (old new : Place) (content : Content) : Disk :=
  ((disk.put old (.file content)).clear old).put new (.file content)

theorem get?_moved (disk : Disk) (old new : Place) (content : Content) (text : String) :
    (disk.moved old new content).nodes.get? text =
      if text = new.text then some (.file content)
      else if text = old.text then none
      else disk.nodes.get? text := by
  simp only [moved, put, clear, Dict.get?_insert, Dict.get?_erase]
  split
  · rfl
  · split <;> simp_all

/-- At a free place there is nothing, or something else than a folder. -/
theorem Free.look_eq (h : disk.Free place) :
    disk.look place = .error .notFound ∨ ∃ node, node ≠ .folder ∧ disk.look place = .ok node := by
  cases place with
  | nil => exact absurd rfl h.ne_nil
  | cons name folder =>
      have hsize := h.nameFits name rfl
      have hnode := h.noFolder
      rw [look_cons, if_neg (by omega)]
      cases hget : disk.nodes.get? (Place.text (name :: folder)) with
      | none => exact .inl rfl
      | some node =>
          rw [hget] at hnode
          exact .inr ⟨node, fun hfolder => hnode (congrArg some hfolder), rfl⟩

/-- A file that is put leaves a free place free. -/
theorem Free.put (h : disk.Free place) (old : Place) (content : Content) :
    (disk.put old (.file content)).Free place := by
  refine ⟨h.ne_nil, h.nameFits, ?_⟩
  rw [Disk.put, Dict.get?_insert]
  split
  · intro hfolder
    cases hfolder
  · exact h.noFolder

/-- A place that is free once a file was put at another free place was free before. -/
theorem Free.of_put (hold : disk.Free old) {content : Content}
    (h : (disk.put old (.file content)).Free place) : disk.Free place := by
  refine ⟨h.ne_nil, h.nameFits, fun hfolder => ?_⟩
  apply h.noFolder
  rw [Disk.put, Dict.get?_insert, if_neg]
  · exact hfolder
  · intro htext
    exact hold.noFolder (htext ▸ hfolder)

/-- Putting a file makes no folder. -/
theorem put_keepsFolders (disk : Disk) (old : Place) (content : Content) :
    (disk.put old (.file content)).KeepsFolders disk := by
  refine .of_nodes rfl fun text hfolder => ?_
  rw [put, Dict.get?_insert] at hfolder
  split at hfolder
  · cases hfolder
  · exact hfolder

/-- Clearing a place at which no folder stands loses none. -/
theorem keepsFolders_clear (h : disk.nodes.get? place.text ≠ some .folder) :
    disk.KeepsFolders (disk.clear place) := by
  refine .of_nodes rfl fun text hfolder => ?_
  rw [clear, Dict.get?_erase, if_neg]
  · exact hfolder
  · rintro rfl
    exact h hfolder

theorem Free.clear (h : disk.Free place) (old : Place) : (disk.clear old).Free place := by
  refine ⟨h.ne_nil, h.nameFits, ?_⟩
  rw [Disk.clear, Dict.get?_erase]
  split
  · intro hfolder
    cases hfolder
  · exact h.noFolder

theorem get?_of_look {node : Node} (hne : place ≠ []) (h : disk.look place = .ok node) :
    disk.nodes.get? place.text = some node := by
  cases place with
  | nil => exact absurd rfl hne
  | cons name folder =>
      rw [look_cons] at h
      split at h
      · cases h
      · split at h
        · rename_i hnode
          rw [hnode, Except.ok.inj h]
        · cases h

/-- A file is moved to a free place. -/
theorem move_of_free {source : String} {content : Content}
    (hsource : disk.target source = .ok (.place old false))
    (hpath : disk.target path = .ok (.place new false))
    (hlook : disk.look old = .ok (.file content)) (hfree : disk.Free new) :
    disk.move source path = .ok ((disk.clear old).put new (.file content)) := by
  rw [move, hsource, hpath]
  dsimp only
  rw [hlook]
  obtain hnone | ⟨node, hnode, hthere⟩ := hfree.look_eq
  · rw [hnone]
    rfl
  · rw [hthere]
    cases node with
    | folder => exact absurd rfl hnode
    | file other => rfl
    | device full => rfl

namespace Ready

variable (h : disk.Ready path old new)
include h

theorem freeOld : disk.Free old :=
  free_of_look h.vacant

theorem keepsFolders_moved (content : Content) :
    disk.KeepsFolders (disk.moved old new content) := by
  refine .of_nodes rfl fun text hfolder => ?_
  rw [get?_moved, if_neg, if_neg]
  · exact hfolder
  · rintro rfl
    exact h.freeOld.noFolder hfolder
  · rintro rfl
    exact h.free.noFolder hfolder

theorem look_moved (content : Content) :
    (disk.moved old new content).look new = .ok (.file content) := by
  have hnew := h.free
  cases new with
  | nil => exact absurd rfl hnew.ne_nil
  | cons name folder =>
      have hsize := hnew.nameFits name rfl
      rw [look_cons, if_neg (by omega), get?_moved, if_pos rfl]

/-- A moved file leaves the disk ready. -/
theorem moved (content : Content) : (disk.moved old new content).Ready path old new where
  hasFolder := (h.keepsFolders_moved content).hasFolderOf h.hasFolder
  staged := (h.keepsFolders_moved content).target h.staged
  placed := (h.keepsFolders_moved content).target h.placed
  free := free_of_look (.inr ⟨content, h.look_moved content⟩)
  vacant := by
    have hold := h.freeOld
    cases old with
    | nil => exact absurd rfl hold.ne_nil
    | cons name folder =>
        have hsize := hold.nameFits name rfl
        rw [look_cons, if_neg (by omega), get?_moved]
        by_cases htext : Place.text (name :: folder) = new.text
        · rw [if_pos htext]
          exact .inr ⟨content, rfl⟩
        · rw [if_neg htext, if_pos rfl]
          exact .inl rfl

/-- No device stands where a file was moved. -/
theorem not_leadsToDevice_moved (content : Content) :
    ¬ (disk.moved old new content).LeadsToDevice path := by
  rintro ⟨place, slash, full, htarget, hdevice⟩
  rw [(h.moved content).placed, Except.ok.injEq, Target.place.injEq] at htarget
  rw [← htarget.1, h.look_moved] at hdevice
  cases hdevice

/-- Replacing the file of a disk that is ready. -/
theorem replace_eq (text : String) :
    disk.replace path text = (.ok (), disk.moved old new (.text text)) := by
  have hwrite : disk.write (Path.staging path) text =
      .ok (disk.put old (.file (.text text))) := by
    rw [write, h.staged]
    obtain hlook | ⟨content, hlook⟩ := h.vacant
    · simp only [hlook]
    · simp only [hlook]
  have hkeeps := h.freeOld.keepsFolders_put (.file (.text text))
  have hmove : (disk.put old (.file (.text text))).move (Path.staging path) path =
      .ok (disk.moved old new (.text text)) :=
    move_of_free (hkeeps.target h.staged) (hkeeps.target h.placed) (h.freeOld.look_put _)
      (h.free.put old (.text text))
  rw [replace, h.hasFolder.makeFolderOf_eq]
  dsimp only
  rw [hwrite]
  dsimp only
  rw [hmove]

theorem accepts : disk.Accepts path := by
  intro text
  refine ⟨_, h.replace_eq text, ?_⟩
  rw [read, (h.moved (.text text)).placed]
  dsimp only
  rw [h.look_moved]
  rfl

end Ready

/-- A place that a path leads to has a name. -/
theorem place_ne_nil_of_target {slash : Bool} (h : disk.target path = .ok (.place place slash)) :
    place ≠ [] := by
  rw [target] at h
  split at h
  · cases h
  · dsimp only at h
    split at h
    · cases h
    · split at h
      · cases h
      · cases h
      · cases h
      · cases h
        exact List.cons_ne_nil _ _

/-- A move that succeeds brings something else than a folder to a free place. -/
theorem move_eq_ok {source : String} (h : disk.move source path = .ok disk') :
    ∃ old new node, disk.target source = .ok (.place old false) ∧
      disk.target path = .ok (.place new false) ∧ disk.look old = .ok node ∧ node ≠ .folder ∧
      disk.Free new ∧ disk' = (disk.clear old).put new node := by
  rw [move] at h
  split at h
  · cases h
  · cases h
  · rename_i old slash new slash' hold hnew
    cases hnode : disk.look old with
    | error fault =>
        rw [hnode] at h
        cases h
    | ok node =>
        rw [hnode] at h
        have hlong : disk.look new ≠ .error .nameTooLong := by
          intro hlook
          rw [hlook] at h
          cases h
        have hfree : disk.Free new := by
          refine free_of_look_ne (place_ne_nil_of_target hnew) (fun hlook => ?_) hlong
          rw [hlook] at h
          dsimp only at h
          split at h
          · cases h
          · cases node <;> cases h
        -- What stood at the new place makes no difference any more.
        have hresult : (if (slash || slash') = true then .error .notFolder
            else if node = .folder then .error .isFolder
            else .ok ((disk.clear old).put new node)) = Except.ok (ε := IoFault) disk' := by
          rw [← h]
          obtain hnone | ⟨there, hthere, hlook⟩ := hfree.look_eq
          · rw [hnone]
            cases node <;> rfl
          · rw [hlook]
            cases there with
            | folder => exact absurd rfl hthere
            | _ => cases node <;> rfl
        split at hresult
        · cases hresult
        · rename_i hslash
          obtain ⟨rfl, rfl⟩ : slash = false ∧ slash' = false := by simpa using hslash
          split at hresult
          · cases hresult
          · rename_i hfolder
            cases hresult
            exact ⟨old, new, node, hold, hnew, hnode, hfolder, hfree, rfl⟩
  · cases h

namespace Accepts

/-- A disk that accepts texts is ready as soon as the folder is made. -/
theorem exists_ready (h : disk.Accepts path) :
    ∃ made old new, disk.makeFolderOf path = (.ok (), made) ∧ made.Ready path old new := by
  obtain ⟨disk', hreplace, hread⟩ := h "x"
  rw [Disk.replace] at hreplace
  rcases hmade : disk.makeFolderOf path with ⟨fault | _, made⟩
  · rw [hmade] at hreplace
    cases hreplace
  · rw [hmade] at hreplace
    dsimp only at hreplace
    split at hreplace
    · cases hreplace
    · rename_i written hwrite
      split at hreplace
      · cases hreplace
      · rename_i final hmove
        cases hreplace
        obtain ⟨-, hfolder⟩ := hasFolderOf_of_makeFolderOf hmade
        obtain ⟨old', new, node, hsource, hpath, hnode, -, hfree, rfl⟩ := move_eq_ok hmove
        obtain ⟨old, hstaged, ⟨hvacant, rfl⟩ | ⟨full, hdevice, rfl⟩⟩ := write_eq_ok hwrite
        · exact ⟨made, old, new, rfl, hfolder, hstaged, (put_keepsFolders made old _).target hpath,
            hvacant, (free_of_look hvacant).of_put hfree⟩
        · -- A device beside the file takes the text and is then moved in its place.
          rw [hstaged, Except.ok.injEq, Target.place.injEq] at hsource
          rw [← hsource.1, hdevice] at hnode
          cases hnode
          have hclear : written.KeepsFolders (written.clear old) := by
            apply keepsFolders_clear
            rw [get?_of_look (place_ne_nil_of_target hstaged) hdevice]
            intro hfolder
            cases hfolder
          have hput := (hfree.clear old).keepsFolders_put (.device full)
          rw [← hsource.1, read, (hclear.trans hput).target hpath] at hread
          dsimp only at hread
          rw [(hfree.clear old).look_put] at hread
          simp at hread

/-- A replacement is read back, and the next one is accepted. -/
theorem replace (h : disk.Accepts path) (text : String) :
    ∃ disk', disk.replace path text = (.ok (), disk') ∧ disk'.read path = .ok (.text text) ∧
      disk'.Accepts path := by
  obtain ⟨made, old, new, hmade, hready⟩ := h.exists_ready
  have hreplace : disk.replace path text = made.replace path text := by
    rw [Disk.replace, Disk.replace, hmade, hready.hasFolder.makeFolderOf_eq]
  obtain ⟨disk', hdisk', hread⟩ := h text
  have heq : disk' = made.moved old new (.text text) := by
    rw [hreplace, hready.replace_eq, Prod.mk.injEq] at hdisk'
    exact hdisk'.2.symm
  exact ⟨disk', hdisk', hread, heq ▸ (hready.moved (.text text)).accepts⟩

end Accepts

end Disk

end Blocklist
