import Blocklist.Host
import Blocklist.Proofs.Text.Cuts

/-!
# Lists of domains that are written are read back

An entry of a list of domains as it is written, and the texts of entries with a separator between
them. What is needed for reading the entries back is that each is clear: it has a domain, and neither
blanks nor a tilde at its ends could be taken for something else.
-/

namespace Blocklist

namespace DomainScope

namespace Entry

/-- The domain of an entry. -/
def domain : Entry → List Char
  | .include domain => domain
  | .exclude domain => domain

/-- An entry as it is written. -/
def text : Entry → List Char
  | .include domain => domain
  | .exclude domain => '~' :: domain

/-- An entry whose text stands for nothing else. -/
structure Clear (entry : Entry) : Prop where
  nonempty : entry.domain ≠ []
  trimmed : Text.trim entry.domain = entry.domain
  noTilde : entry.domain.head? ≠ some '~'

variable {entry : Entry}

theorem Clear.trim_text (h : entry.Clear) : Text.trim entry.text = entry.text := by
  rcases entry with domain | domain
  · exact h.trimmed
  · exact Text.trim_append (a := ['~']) (by decide) h.trimmed

/-- A clear entry is read as it is written. -/
theorem Clear.ofPart?_text (h : entry.Clear) : ofPart? entry.text = some entry := by
  obtain ⟨c, rest, hdomain⟩ := List.exists_cons_of_ne_nil h.nonempty
  have hc : c ≠ '~' := by
    rintro rfl
    exact h.noTilde (by rw [hdomain, List.head?_cons])
  rw [ofPart?, h.trim_text]
  rcases entry with name | name
  · change name = c :: rest at hdomain
    rw [text, hdomain]
    split
    · rename_i heq
      cases heq
    · rename_i heq
      exact absurd (List.cons.inj heq).1 hc
    · rename_i heq
      exact absurd (List.cons.inj heq).1 hc
    · rfl
  · change name = c :: rest at hdomain
    rw [text, hdomain]
    rfl

theorem not_mem_text {c : Char} (hc : c ≠ '~') (h : c ∉ entry.domain) : c ∉ entry.text := by
  rcases entry with domain | domain
  · exact h
  · exact List.not_mem_cons_of_ne_of_not_mem hc h

end Entry

/-- Clear entries with separators between them are read as they are written. -/
theorem entries_intercalate {separator : Char} {es : List Entry} (htilde : separator ≠ '~')
    (hclear : ∀ entry ∈ es, entry.Clear) (hseparator : ∀ entry ∈ es, separator ∉ entry.domain) :
    entries separator ([separator].intercalate (es.map Entry.text)) = es := by
  rw [entries]
  by_cases hnil : es = []
  · rw [hnil, List.map_nil, List.intercalate_nil, List.splitOn_nil]
    rfl
  · have hnot : ∀ part ∈ es.map Entry.text, separator ∉ part := by
      intro part hpart
      obtain ⟨entry, hentry, rfl⟩ := List.mem_map.mp hpart
      exact Entry.not_mem_text htilde (hseparator entry hentry)
    rw [List.splitOn_intercalate separator hnot (by simpa using hnil), List.filterMap_map]
    have hread : ∀ entry ∈ es, (Entry.ofPart? ∘ Entry.text) entry = some entry :=
      fun entry hentry => (hclear entry hentry).ofPart?_text
    rw [List.filterMap_congr hread, List.filterMap_some]

end DomainScope

/-- The domains in front of a mark, as they are written. -/
structure WrittenScope where
  entries : List DomainScope.Entry
  clear : ∀ entry ∈ entries, entry.Clear
  noComma : ∀ entry ∈ entries, ',' ∉ entry.domain
  noHash : ∀ entry ∈ entries, '#' ∉ entry.domain

namespace WrittenScope

variable (w : WrittenScope)

/-- The text in front of the mark. -/
def text : List Char :=
  [','].intercalate (w.entries.map DomainScope.Entry.text)

/-- The domains that are included, in written order. -/
def included : List String :=
  w.entries.filterMap DomainScope.Entry.included?

/-- The domains that are excluded, in written order. -/
def excluded : List String :=
  w.entries.filterMap DomainScope.Entry.excluded?

/-- The domains are read as they are written. -/
theorem ofChars_text : DomainScope.ofChars w.text = ⟨w.included, w.excluded⟩ := by
  rw [DomainScope.ofChars, text,
    DomainScope.entries_intercalate (by decide) w.clear w.noComma]
  rfl

/-- What neither a comma nor a tilde is and no domain holds does not stand in front of the mark. -/
theorem not_mem_text {c : Char} (hcomma : c ≠ ',') (htilde : c ≠ '~')
    (h : ∀ entry ∈ w.entries, c ∉ entry.domain) : c ∉ w.text := by
  apply Text.intercalate_of_parts (P := (c ∉ ·))
  · exact List.not_mem_nil
  · simpa using hcomma
  · intro a b ha hb
    simp [ha, hb]
  · intro part hpart
    obtain ⟨entry, hentry, rfl⟩ := List.mem_map.mp hpart
    exact DomainScope.Entry.not_mem_text htilde (h entry hentry)

theorem hash_not_mem_text : '#' ∉ w.text :=
  w.not_mem_text (by decide) (by decide) w.noHash

/-- The domains `example.com,~shop.example.com`. -/
def sample : WrittenScope where
  entries := [.include "example.com".toList, .exclude "shop.example.com".toList]
  clear := by
    simp only [List.forall_mem_cons]
    exact ⟨⟨by decide, by decide, by decide⟩, ⟨by decide, by decide, by decide⟩, by simp⟩
  noComma := by decide
  noHash := by decide

end WrittenScope

end Blocklist
