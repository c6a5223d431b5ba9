import ErrorMigration.CodeTable
import Mathlib.Data.List.Basic
import Mathlib.Tactic

/-! Canonical codes. A table that is merged from overrides holds identifiers only: the built-in entries are
such, an override is refused unless it is one, and inserting an entry brings in no other. -/
namespace ErrorMigration.CodeTable

def IsMerged (codes : CodeTable) : Prop := ∃ pairs, builtin.override pairs = .ok codes

def HoldsIdentifiers (table : CodeTable) : Prop := ∀ entry ∈ table.entries, isIdentifier entry.2.toList = true

theorem mem_insertEntry {legacy canonical : String} {entries : List (String × String)} {entry : String × String}
    (member : entry ∈ insertEntry legacy canonical entries) : entry = (legacy,canonical) ∨ entry ∈ entries := by
  induction entries with
  | nil => exact .inl (by simpa [insertEntry] using member)
  | cons first rest ih =>
    obtain ⟨key,value⟩ := first
    unfold insertEntry at member
    by_cases same : legacy = key
    · rw [if_pos same,List.mem_cons] at member
      rcases member with new | old
      · exact .inl new
      · exact .inr (List.mem_cons_of_mem _ old)
    rw [if_neg same] at member
    by_cases before : Text.precedes legacy key = true
    · rw [if_pos before,List.mem_cons] at member
      exact member
    · rw [if_neg before,List.mem_cons] at member
      rcases member with kept | later
      · exact .inr (kept ▸ List.mem_cons_self)
      · rcases ih later with new | old
        · exact .inl new
        · exact .inr (List.mem_cons_of_mem _ old)

theorem HoldsIdentifiers.insert {table : CodeTable} (holds : table.HoldsIdentifiers) {legacy canonical : String}
    (identifier : isIdentifier canonical.toList = true) : (table.insert legacy canonical).HoldsIdentifiers := by
  intro entry member
  rcases mem_insertEntry member with rfl | old
  · exact identifier
  · exact holds entry old

theorem builtin_holdsIdentifiers : builtin.HoldsIdentifiers := by
  unfold HoldsIdentifiers
  decide +kernel

theorem HoldsIdentifiers.overrideWith {table merged : CodeTable} (holds : table.HoldsIdentifiers)
    {pair : String × String} (accepted : table.overrideWith pair = .ok merged) : merged.HoldsIdentifiers := by
  unfold CodeTable.overrideWith at accepted
  simp only at accepted
  split at accepted
  · simp at accepted
  split at accepted
  · rename_i identifier
    rw [Except.ok.injEq] at accepted
    exact accepted ▸ holds.insert identifier
  · simp at accepted

theorem HoldsIdentifiers.override {table merged : CodeTable} (holds : table.HoldsIdentifiers)
    {pairs : List (String × String)} (accepted : table.override pairs = .ok merged) : merged.HoldsIdentifiers := by
  unfold CodeTable.override at accepted
  induction pairs generalizing table with
  | nil =>
    rw [List.foldlM_nil] at accepted
    cases accepted
    exact holds
  | cons pair rest ih =>
    rw [List.foldlM_cons] at accepted
    cases first : table.overrideWith pair with
    | error error => rw [first] at accepted; cases accepted
    | ok next =>
      rw [first] at accepted
      exact ih (holds.overrideWith first) accepted

/-- A pair that can be merged: trimmed, its legacy code is not empty and its canonical code is an identifier. -/
def IsUsable (pair : String × String) : Prop :=
  Text.trimmed pair.1 ≠ "" ∧ isIdentifier (Text.trimmed pair.2).toList = true

theorem exists_overrideWith_iff (table : CodeTable) (pair : String × String) :
    (∃ merged, table.overrideWith pair = .ok merged) ↔ IsUsable pair := by
  unfold CodeTable.overrideWith IsUsable
  simp only
  split_ifs with empty identifier
  · simp [empty]
  · simp [empty,identifier]
  · simp [identifier]

/-- Pairs can be merged when each of them can. -/
theorem exists_override_iff (table : CodeTable) (pairs : List (String × String)) :
    (∃ merged, table.override pairs = .ok merged) ↔ ∀ pair ∈ pairs, IsUsable pair := by
  unfold CodeTable.override
  induction pairs generalizing table with
  | nil => simp [pure,Except.pure]
  | cons pair rest ih =>
    rw [List.foldlM_cons,List.forall_mem_cons,← table.exists_overrideWith_iff pair]
    cases first : table.overrideWith pair with
    | error error => simp [bind,Except.bind]
    | ok next => simpa [bind,Except.bind] using ih next

theorem isIdentifier_resolve {codes : CodeTable} (merged : codes.IsMerged) (legacy : String) :
    isIdentifier (codes.resolve legacy).toList = true := by
  obtain ⟨pairs,accepted⟩ := merged
  have holds := builtin_holdsIdentifiers.override accepted
  cases found : codes.get? legacy with
  | none =>
    rw [resolve,found]
    decide
  | some canonical =>
    rw [resolve,found]
    have split := List.lookup_eq_some_iff.mp found
    obtain ⟨before,after,entries,_⟩ := split
    exact holds (legacy,canonical) (by simp [entries])

/-- Only letters, digits, underscores and dollar signs stand in an identifier. -/
theorem notMem_of_isIdentifier {cs : List Char} (identifier : isIdentifier cs = true) {c : Char}
    (other : (isLetter c || c.isDigit) = false) : c ∉ cs := by
  intro member
  cases cs with
  | nil => simp at member
  | cons first rest =>
    simp only [isIdentifier,Bool.and_eq_true,List.all_eq_true] at identifier
    rcases List.mem_cons.mp member with rfl | later
    · simp [identifier.1] at other
    · rw [identifier.2 c later] at other
      contradiction

end ErrorMigration.CodeTable
