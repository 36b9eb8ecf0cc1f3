/-!
# Dictionaries in key order

A finite map from names to values whose entries stand in the order of their names. The order is part
of the type, so two dictionaries with the same content are equal whatever the order of their
insertions, and writing one out is writing its entries in turn.

## Implementation notes

The order of `String` is the order of its characters' code points, which is also the order of its
UTF-8 octets. Insertion walks the entries once; the dictionaries of this library are small beside the
rules they hold. A list of entries is sorted as a whole: sorting keeps the order of entries with one
name, so the last of them is the one before an entry with another name.
-/

namespace Blocklist

/-- A finite map from names to values, with its entries in ascending order of names. -/
structure Dict (α : Type) where
  /-- The entries, each name once. -/
  entries : List (String × α)
  /-- Names ascend strictly. -/
  ordered : entries.Pairwise fun a b => a.1 < b.1

namespace Dict

variable {α β : Type}

/-- Put a value under a name in a list of entries that ascends. -/
def put (key : String) (value : α) : List (String × α) → List (String × α)
  | [] => [(key, value)]
  | entry :: rest =>
    if key < entry.1 then (key, value) :: entry :: rest
    else if key = entry.1 then (key, value) :: rest
    else entry :: put key value rest

theorem mem_put {key : String} {value : α} {entries : List (String × α)} {e : String × α}
    (h : e ∈ put key value entries) : e = (key, value) ∨ e ∈ entries := by
  induction entries with
  | nil => simpa [put] using h
  | cons entry rest ih =>
      simp only [put] at h
      split at h
      · simpa using h
      · split at h
        · rcases List.mem_cons.mp h with h | h
          · exact .inl h
          · exact .inr (List.mem_cons_of_mem _ h)
        · rcases List.mem_cons.mp h with h | h
          · exact .inr (h ▸ List.mem_cons_self)
          · exact (ih h).imp id (List.mem_cons_of_mem _)

theorem pairwise_put (key : String) (value : α) {entries : List (String × α)}
    (h : entries.Pairwise fun a b => a.1 < b.1) :
    (put key value entries).Pairwise fun a b => a.1 < b.1 := by
  induction entries with
  | nil => simp [put]
  | cons entry rest ih =>
      obtain ⟨hhead, htail⟩ := List.pairwise_cons.mp h
      simp only [put]
      split
      · rename_i hlt
        refine List.pairwise_cons.mpr ⟨fun e he => ?_, h⟩
        rcases List.mem_cons.mp he with rfl | he
        · exact hlt
        · exact String.lt_trans hlt (hhead e he)
      · rename_i hlt
        split
        · rename_i heq
          exact List.pairwise_cons.mpr ⟨fun e he => heq ▸ hhead e he, htail⟩
        · rename_i hne
          refine List.pairwise_cons.mpr ⟨fun e he => ?_, ih htail⟩
          rcases mem_put he with rfl | he
          · have hle : entry.1 ≤ key := String.not_lt.mp hlt
            by_cases hlt' : entry.1 < key
            · exact hlt'
            · exact absurd (String.le_antisymm (String.not_lt.mp hlt') hle) hne
          · exact hhead e he

/-- The dictionary without entries. -/
def empty : Dict α :=
  ⟨[], .nil⟩

instance : Inhabited (Dict α) := ⟨empty⟩

/-- Put a value under a name, in place of the value that stood there. -/
def insert (d : Dict α) (key : String) (value : α) : Dict α :=
  ⟨put key value d.entries, pairwise_put key value d.ordered⟩

/-- Take a name out. -/
def erase (d : Dict α) (key : String) : Dict α :=
  ⟨d.entries.filter (·.1 ≠ key), d.ordered.filter _⟩

/-- The value under a name. -/
def get? (d : Dict α) (key : String) : Option α :=
  d.entries.lookup key

/-- Put entries one after the other, so that the last of those with one name stays. -/
def insertAll (d : Dict α) (entries : List (String × α)) : Dict α :=
  entries.foldl (fun d e => d.insert e.1 e.2) d

/-- Whether an entry may stand before another one. -/
def precedes (a b : String × α) : Bool :=
  !decide (b.1 < a.1)

/-- Put an entry in front of entries, unless the first of them has its name. -/
def pushNew (entry : String × α) (rest : List (String × α)) : List (String × α) :=
  if rest.head?.any (·.1 == entry.1) then rest else entry :: rest

theorem mem_foldr_pushNew {entries : List (String × α)} {e : String × α}
    (h : e ∈ entries.foldr pushNew []) : e ∈ entries := by
  induction entries with
  | nil => simp at h
  | cons entry rest ih =>
      simp only [List.foldr_cons, pushNew] at h
      split at h
      · exact List.mem_cons_of_mem _ (ih h)
      · rcases List.mem_cons.mp h with rfl | h
        · exact List.mem_cons_self
        · exact List.mem_cons_of_mem _ (ih h)

theorem pairwise_foldr_pushNew {entries : List (String × α)}
    (h : entries.Pairwise fun a b => precedes a b = true) :
    (entries.foldr pushNew []).Pairwise fun a b => a.1 < b.1 := by
  induction entries with
  | nil => exact .nil
  | cons entry rest ih =>
      obtain ⟨hhead, htail⟩ := List.pairwise_cons.mp h
      have hrest := ih htail
      have hle : ∀ e ∈ rest.foldr pushNew [], ¬ e.1 < entry.1 := fun e he => by
        simpa [precedes] using hhead e (mem_foldr_pushNew he)
      simp only [List.foldr_cons, pushNew]
      generalize rest.foldr pushNew [] = kept at hrest hle
      cases kept with
      | nil => simp
      | cons next kept =>
          by_cases hne : next.1 = entry.1
          · simpa [hne] using hrest
          · have hlt : entry.1 < next.1 := by
              by_cases hlt : entry.1 < next.1
              · exact hlt
              · exact absurd (String.le_antisymm (String.not_lt.mp hlt)
                  (String.not_lt.mp (hle next List.mem_cons_self))) hne
            simp only [List.head?_cons, Option.any_some, beq_iff_eq, hne, if_false]
            refine List.pairwise_cons.mpr ⟨fun e he => ?_, hrest⟩
            rcases List.mem_cons.mp he with rfl | he
            · exact hlt
            · exact String.lt_trans hlt ((List.pairwise_cons.mp hrest).1 e he)

theorem pairwise_mergeSort_precedes (entries : List (String × α)) :
    (entries.mergeSort precedes).Pairwise fun a b => precedes a b = true :=
  List.pairwise_mergeSort
    (fun a b c hab hbc => by
      simp only [precedes, Bool.not_eq_true', decide_eq_false_iff_not] at hab hbc ⊢
      exact String.not_lt.mpr (String.le_trans (String.not_lt.mp hab) (String.not_lt.mp hbc)))
    (fun a b => by
      rcases String.le_total a.1 b.1 with h | h
      · simp [precedes, String.not_lt.mpr h]
      · simp [precedes, String.not_lt.mpr h])
    entries

/-- The dictionary of a list of entries, where the last of those with one name counts. -/
def ofList (entries : List (String × α)) : Dict α :=
  ⟨(entries.mergeSort precedes).foldr pushNew [],
    pairwise_foldr_pushNew (pairwise_mergeSort_precedes entries)⟩

/-- The names, in order. -/
def keys (d : Dict α) : List String :=
  d.entries.map (·.1)

/-- The values, in the order of their names. -/
def values (d : Dict α) : List α :=
  d.entries.map (·.2)

/-- The number of entries. -/
def size (d : Dict α) : Nat :=
  d.entries.length

/-- Apply a function to every value. -/
def map (f : α → β) (d : Dict α) : Dict β :=
  ⟨d.entries.map fun e => (e.1, f e.2), by simpa [List.pairwise_map] using d.ordered⟩

@[ext]
theorem ext {d e : Dict α} (h : d.entries = e.entries) : d = e := by
  cases d; cases e; simpa using h

@[simp]
theorem entries_insert (d : Dict α) (key : String) (value : α) :
    (d.insert key value).entries = put key value d.entries :=
  rfl

end Dict

end Blocklist
