import Blocklist.Dict
import Mathlib.Data.List.Nodup
import Mathlib.Data.List.Perm.Basic

/-!
# Looking up in dictionaries

A dictionary answers with the value put last under a name, and it is determined by the entries put
into it: making one from entries with distinct names neither loses nor adds any.
-/

namespace Blocklist

namespace Dict

variable {α β : Type}

/-- With distinct names the entry found is the one that is there. -/
theorem lookup_eq_some_iff_mem {entries : List (String × α)} (h : (entries.map (·.1)).Nodup)
    {key : String} {value : α} :
    entries.lookup key = some value ↔ (key, value) ∈ entries := by
  induction entries with
  | nil => simp
  | cons entry rest ih =>
      obtain ⟨hnew, hrest⟩ := List.nodup_cons.mp h
      obtain ⟨name, found⟩ := entry
      rw [List.lookup_cons, List.mem_cons, Prod.mk.injEq]
      by_cases hname : key = name
      · subst hname
        have hout : (key, value) ∉ rest := fun hmem =>
          hnew (List.mem_map.mpr ⟨(key, value), hmem, rfl⟩)
        simp [hout, eq_comm]
      · have hne : (key == name) = false := beq_false_of_ne hname
        simp [hne, hname, ih hrest]

/-- Entries in another order answer alike. -/
theorem lookup_eq_of_perm {entries entries' : List (String × α)} (hperm : entries.Perm entries')
    (h : (entries.map (·.1)).Nodup) (key : String) : entries.lookup key = entries'.lookup key := by
  have h' : (entries'.map (·.1)).Nodup := (hperm.map _).nodup_iff.mp h
  apply Option.ext
  intro value
  rw [lookup_eq_some_iff_mem h, lookup_eq_some_iff_mem h', hperm.mem_iff]

theorem nodup_keys (d : Dict α) : (d.entries.map (·.1)).Nodup := by
  rw [List.Nodup, List.pairwise_map]
  refine d.ordered.imp fun {a b} (hlt : a.1 < b.1) (heq : a.1 = b.1) => ?_
  exact String.lt_irrefl b.1 (heq ▸ hlt)

theorem get?_eq_some_iff {d : Dict α} {key : String} {value : α} :
    d.get? key = some value ↔ (key, value) ∈ d.entries :=
  lookup_eq_some_iff_mem d.nodup_keys

theorem mem_values_iff {d : Dict α} {value : α} :
    value ∈ d.values ↔ ∃ key, d.get? key = some value := by
  simp [values, get?_eq_some_iff]

/-- A dictionary is known by what it answers. -/
theorem eq_of_get?_eq {d d' : Dict α} (h : ∀ key, d.get? key = d'.get? key) : d = d' := by
  have hmem : ∀ e, e ∈ d.entries ↔ e ∈ d'.entries := by
    rintro ⟨key, value⟩
    rw [← get?_eq_some_iff, ← get?_eq_some_iff, h]
  have hperm : d.entries.Perm d'.entries :=
    (List.perm_ext_iff_of_nodup d.nodup_keys.of_map d'.nodup_keys.of_map).mpr hmem
  apply Dict.ext
  exact List.Perm.eq_of_pairwise (fun a b _ _ hab hba => absurd hba (String.lt_asymm hab))
    d.ordered d'.ordered hperm

/-- Putting a value replaces what stood under its name and leaves the rest. -/
theorem put_perm (key : String) (value : α) {entries : List (String × α)}
    (h : entries.Pairwise fun a b => a.1 < b.1) :
    (put key value entries).Perm ((key, value) :: entries.filter (·.1 ≠ key)) := by
  induction entries with
  | nil => simp [put]
  | cons entry rest ih =>
      obtain ⟨hhead, hrest⟩ := List.pairwise_cons.mp h
      simp only [put]
      split
      · rename_i hlt
        have hne : ∀ e ∈ entry :: rest, e.1 ≠ key := by
          intro e he heq
          rcases List.mem_cons.mp he with rfl | he
          · exact String.lt_irrefl _ (heq ▸ hlt)
          · exact String.lt_irrefl _ (heq ▸ String.lt_trans hlt (hhead e he))
        rw [List.filter_eq_self.mpr fun e he => by simpa using hne e he]
      · split
        · rename_i heq
          have hne : ∀ e ∈ rest, e.1 ≠ key := fun e he hkey =>
            String.lt_irrefl _ (hkey ▸ heq ▸ hhead e he)
          rw [List.filter_cons_of_neg (by simp [heq]),
            List.filter_eq_self.mpr fun e he => by simpa using hne e he]
        · rename_i hne
          rw [List.filter_cons_of_pos (by simpa using fun heq => hne (Eq.symm heq))]
          exact ((ih hrest).cons entry).trans (List.Perm.swap _ _ _)

theorem entries_insert_perm (d : Dict α) (key : String) (value : α) :
    (d.insert key value).entries.Perm ((key, value) :: (d.erase key).entries) :=
  put_perm key value d.ordered

theorem get?_insert (d : Dict α) (key key' : String) (value : α) :
    (d.insert key value).get? key' = if key' = key then some value else d.get? key' := by
  rw [get?, lookup_eq_of_perm (d.entries_insert_perm key value) (nodup_keys _), List.lookup_cons]
  by_cases h : key' = key
  · simp [h]
  · have hne : (key' == key) = false := beq_false_of_ne h
    rw [hne, if_neg h]
    apply Option.ext
    intro found
    rw [← get?, get?_eq_some_iff, get?_eq_some_iff]
    simp [erase, h]

@[simp] theorem get?_insert_self (d : Dict α) (key : String) (value : α) :
    (d.insert key value).get? key = some value := by
  simp [get?_insert]

theorem entries_erase (d : Dict α) (key : String) :
    (d.erase key).entries = d.entries.filter (·.1 ≠ key) :=
  rfl

theorem get?_erase (d : Dict α) (key key' : String) :
    (d.erase key).get? key' = if key' = key then none else d.get? key' := by
  apply Option.ext
  intro found
  rw [get?_eq_some_iff, entries_erase, List.mem_filter]
  split
  · rename_i h
    simp [h]
  · rename_i h
    simp [h, get?_eq_some_iff]

/-- The entries are the one under a name and those under other names. -/
theorem entries_perm_erase {d : Dict α} {key : String} {value : α}
    (h : d.get? key = some value) : d.entries.Perm ((key, value) :: (d.erase key).entries) := by
  obtain ⟨front, back, hsplit⟩ := List.append_of_mem (get?_eq_some_iff.mp h)
  have hnodup := d.nodup_keys
  rw [hsplit, (List.perm_middle.map _).nodup_iff, List.map_cons, List.nodup_cons] at hnodup
  have hrest : (front ++ back).filter (fun e => decide (e.1 ≠ key)) = front ++ back := by
    apply List.filter_eq_self.mpr
    intro e he
    have hne : e.1 ≠ key := fun heq => hnodup.1 (List.mem_map.mpr ⟨e, he, heq⟩)
    simpa using hne
  have herase : (d.erase key).entries = front ++ back := by
    rw [entries_erase, hsplit, List.filter_append, List.filter_cons_of_neg (by simp),
      ← List.filter_append, hrest]
  rw [herase, hsplit]
  exact List.perm_middle

theorem erase_eq_self {d : Dict α} {key : String} (h : d.get? key = none) : d.erase key = d := by
  apply Dict.ext
  apply List.filter_eq_self.mpr
  intro e he
  have hne : e.1 ≠ key := fun hkey => by
    rw [get?_eq_some_iff.mpr (hkey ▸ he : (key, e.2) ∈ d.entries)] at h
    cases h
  simpa using hne

theorem values_insert_perm (d : Dict α) (key : String) (value : α) :
    (d.insert key value).values.Perm (value :: (d.erase key).values) :=
  (d.entries_insert_perm key value).map Prod.snd

theorem values_perm_erase {d : Dict α} {key : String} {value : α} (h : d.get? key = some value) :
    d.values.Perm (value :: (d.erase key).values) :=
  (entries_perm_erase h).map Prod.snd

/-- Entries with new names come beside those that are there. -/
theorem entries_insertAll_perm {d : Dict α} {entries : List (String × α)}
    (h : (entries.map (·.1)).Nodup) (hnew : ∀ e ∈ entries, d.get? e.1 = none) :
    (d.insertAll entries).entries.Perm (entries ++ d.entries) := by
  induction entries generalizing d with
  | nil => exact .refl _
  | cons e rest ih =>
      obtain ⟨hout, hrest⟩ := List.nodup_cons.mp h
      have hfirst : (d.insert e.1 e.2).entries.Perm (e :: d.entries) := by
        have hperm := d.entries_insert_perm e.1 e.2
        rwa [erase_eq_self (hnew e List.mem_cons_self)] at hperm
      have hnew' : ∀ e' ∈ rest, (d.insert e.1 e.2).get? e'.1 = none := by
        intro e' he'
        have hne : e'.1 ≠ e.1 := fun heq => hout (List.mem_map.mpr ⟨e', he', heq⟩)
        rw [get?_insert, if_neg hne]
        exact hnew e' (List.mem_cons_of_mem _ he')
      calc (d.insertAll (e :: rest)).entries
        _ = ((d.insert e.1 e.2).insertAll rest).entries := rfl
        List.Perm _ (rest ++ (d.insert e.1 e.2).entries) := ih hrest hnew'
        List.Perm _ (rest ++ e :: d.entries) := hfirst.append_left rest
        List.Perm _ (e :: rest ++ d.entries) := List.perm_middle

theorem mem_entries_insertAll {d : Dict α} {entries : List (String × α)} {e : String × α}
    (h : e ∈ (d.insertAll entries).entries) : e ∈ entries ∨ e ∈ d.entries := by
  induction entries generalizing d with
  | nil => exact .inr h
  | cons first rest ih =>
      obtain hrest | hinsert := ih h
      · exact .inl (List.mem_cons_of_mem first hrest)
      · obtain rfl | hd := mem_put hinsert
        · exact .inl List.mem_cons_self
        · exact .inr hd

/-- The last of the entries that were put under a name is found there, or what was there before. -/
theorem get?_insertAll (d : Dict α) (entries : List (String × α)) (key : String) :
    (d.insertAll entries).get? key = (entries.reverse.lookup key).or (d.get? key) := by
  induction entries generalizing d with
  | nil => rfl
  | cons e rest ih =>
      have hlookup : (e :: rest).reverse.lookup key =
          (rest.reverse.lookup key).or (if key = e.1 then some e.2 else none) := by
        rw [List.reverse_cons, List.lookup_append, List.lookup_cons]
        by_cases hkey : key = e.1
        · simp [hkey]
        · simp [hkey, beq_false_of_ne hkey]
      rw [hlookup, Option.or_assoc]
      refine (ih (d.insert e.1 e.2)).trans ?_
      rw [get?_insert]
      split <;> rfl

/-! ### Dictionaries of entries -/

theorem foldr_pushNew_eq_self {entries : List (String × α)}
    (h : entries.Pairwise fun a b => a.1 < b.1) : entries.foldr pushNew [] = entries := by
  induction entries with
  | nil => rfl
  | cons entry rest ih =>
      obtain ⟨hhead, hrest⟩ := List.pairwise_cons.mp h
      rw [List.foldr_cons, ih hrest, pushNew]
      cases rest with
      | nil => rfl
      | cons next rest =>
          have hne : (next.1 == entry.1) = false := beq_false_of_ne fun heq =>
            String.lt_irrefl _ (heq ▸ hhead next List.mem_cons_self)
          simp [hne]

theorem pairwise_precedes_of_lt {entries : List (String × α)}
    (h : entries.Pairwise fun a b => a.1 < b.1) :
    entries.Pairwise fun a b => precedes a b = true :=
  h.imp fun hlt => by simpa [precedes] using String.lt_asymm hlt

theorem entries_ofList (entries : List (String × α)) :
    (ofList entries).entries = (entries.mergeSort precedes).foldr pushNew [] :=
  rfl

theorem entries_ofList_singleton (entry : String × α) : (ofList [entry]).entries = [entry] := by
  simp [entries_ofList, pushNew]

/-- A dictionary has only entries that it is made of. -/
theorem mem_of_mem_ofList {entries : List (String × α)} {e : String × α}
    (h : e ∈ (ofList entries).entries) : e ∈ entries := by
  rw [entries_ofList] at h
  exact List.mem_mergeSort.mp (mem_foldr_pushNew h)

/-- A dictionary is made of its own entries. -/
theorem ofList_entries (d : Dict α) : ofList d.entries = d := by
  apply Dict.ext
  rw [entries_ofList, List.mergeSort_of_pairwise (pairwise_precedes_of_lt d.ordered),
    foldr_pushNew_eq_self d.ordered]

/-- Sorting entries with distinct names puts them into strict order. -/
theorem pairwise_mergeSort {entries : List (String × α)} (h : (entries.map (·.1)).Nodup) :
    (entries.mergeSort precedes).Pairwise fun a b => a.1 < b.1 := by
  have hnodup : ((entries.mergeSort precedes).map (·.1)).Nodup :=
    ((List.mergeSort_perm _ _).map _).nodup_iff.mpr h
  rw [List.Nodup, List.pairwise_map] at hnodup
  refine (pairwise_mergeSort_precedes entries).imp₂ (fun a b hle hne => ?_) hnodup
  have hle' : a.1 ≤ b.1 := by
    rw [precedes, Bool.not_eq_true', decide_eq_false_iff_not] at hle
    exact String.not_lt.mp hle
  by_cases hlt : a.1 < b.1
  · exact hlt
  · exact absurd (String.le_antisymm hle' (String.not_lt.mp hlt)) hne

/-- Entries with distinct names all come into the dictionary. -/
theorem entries_ofList_perm {entries : List (String × α)} (h : (entries.map (·.1)).Nodup) :
    (ofList entries).entries.Perm entries := by
  rw [entries_ofList, foldr_pushNew_eq_self (pairwise_mergeSort h)]
  exact List.mergeSort_perm _ _

theorem get?_ofList {entries : List (String × α)} (h : (entries.map (·.1)).Nodup) (key : String) :
    (ofList entries).get? key = entries.lookup key :=
  lookup_eq_of_perm (entries_ofList_perm h) (nodup_keys _) key

@[simp] theorem entries_map (f : α → β) (d : Dict α) :
    (d.map f).entries = d.entries.map fun e => (e.1, f e.2) :=
  rfl

end Dict

end Blocklist
