import ErrorMigration.Proofs.CallMatch

/-! Merged codes. Inserting an entry keeps the table in strictly increasing order and changes the look-up of one code,
so the last pair for a code decides what it resolves to. A merge stops at the first pair that cannot be merged, and
every block that stands for a call under a merged table names an identifier. -/
namespace ErrorMigration

namespace Text

/-- A text without blanks at its ends is not trimmed any further. -/
theorem IsTrimOf.trim_eq {core text : List Char} (trimmed : IsTrimOf core text) : trim core = core := by
  have front : trimStart core = core := by
    cases core with
    | nil => rfl
    | cons c rest => exact List.dropWhile_cons_of_neg (by simp [trimmed.begins c rfl])
  have back : trimEnd core = core := by
    rcases List.eq_nil_or_concat core with rfl | ⟨init,c,rfl⟩
    · rfl
    · have solid := trimmed.ends c (by simp)
      rw [List.concat_eq_append,trimEnd,List.reverse_append,List.reverse_singleton,List.singleton_append,
        List.dropWhile_cons_of_neg (by simp [solid])]
      simp
  rw [trim,front,back]

theorem trimmed_trimmed (s : String) : trimmed (trimmed s) = trimmed s := by
  simp only [trimmed,String.toList_ofList,(isTrimOf_trim s.toList).trim_eq]

end Text

namespace CodeTable

/-- An ASCII identifier: letters, digits, underscores and dollar signs, with no digit in front. -/
structure IsIdentifier (text : List Char) : Prop where
  filled : text ≠ []
  plain : ∀ c ∈ text, c.isAlphanum = true ∨ c = '_' ∨ c = '$'
  front : ∀ c ∈ text.head?, c.isDigit = false

theorem isDigit_of_isLetter {c : Char} (letter : isLetter c = true) : c.isDigit = false := by
  simp only [isLetter,Bool.or_eq_true,beq_iff_eq] at letter
  rcases letter with (alpha | rfl) | rfl
  · by_contra digit
    delta Char.isAlpha Char.isUpper Char.isLower at alpha
    simp only [Char.isDigit,Bool.or_eq_true,Bool.and_eq_true,decide_eq_true_eq,Bool.not_eq_false,
      UInt32.le_iff_toNat_le,ge_iff_le] at alpha digit
    have : 'A'.val.toNat = 65 := rfl
    have : 'a'.val.toNat = 97 := rfl
    have : '9'.val.toNat = 57 := rfl
    omega
  · rfl
  · rfl

theorem isIdentifier_iff {text : List Char} : isIdentifier text = true ↔ IsIdentifier text := by
  have letter (c : Char) : (isLetter c || c.isDigit) = true ↔ c.isAlphanum = true ∨ c = '_' ∨ c = '$' := by
    simp only [isLetter,Char.isAlphanum,Bool.or_eq_true,beq_iff_eq]
    grind
  cases text with
  | nil => exact ⟨nofun,fun identifier => absurd rfl identifier.filled⟩
  | cons first rest =>
    simp only [isIdentifier,Bool.and_eq_true,List.all_eq_true]
    constructor
    · rintro ⟨begins,rest⟩
      refine ⟨by simp,?_,?_⟩
      · rw [List.forall_mem_cons]
        exact ⟨(letter first).mp (by simp [begins]),fun c member => (letter c).mp (rest c member)⟩
      · rintro c ⟨⟩
        exact isDigit_of_isLetter begins
    · rintro ⟨_,plain,front⟩
      rw [List.forall_mem_cons] at plain
      refine ⟨?_,fun c member => (letter c).mpr (plain.2 c member)⟩
      simpa [front first rfl] using (letter first).mpr plain.1

def IsOrdered (entries : List (String × String)) : Prop := entries.Pairwise fun a b => Text.bytes a.1 < Text.bytes b.1

/-- An insertion changes what one code is looked up as. -/
theorem lookup_insertEntry (legacy canonical key : String) (entries : List (String × String)) :
    (insertEntry legacy canonical entries).lookup key =
      if key = legacy then some canonical else entries.lookup key := by
  have lookup_cons (first value : String) (rest : List (String × String)) :
      ((first,value) :: rest).lookup key = if key = first then some value else rest.lookup key := by
    by_cases hit : key = first
    · simp [hit]
    · rw [List.lookup_cons,beq_eq_false_iff_ne.mpr hit,if_neg hit]
  induction entries with
  | nil => exact lookup_cons legacy canonical []
  | cons entry rest ih =>
    obtain ⟨first,value⟩ := entry
    unfold insertEntry
    by_cases same : legacy = first
    · rw [if_pos same,lookup_cons,lookup_cons]
      split
      · rfl
      · rename_i miss
        rw [if_neg (same ▸ miss)]
    rw [if_neg same]
    by_cases before : Text.precedes legacy first = true
    · rw [if_pos before,lookup_cons]
    · rw [if_neg before,lookup_cons,lookup_cons,ih]
      by_cases hit : key = first
      · rw [if_pos hit,if_pos hit,if_neg (hit ▸ Ne.symm same)]
      · rw [if_neg hit,if_neg hit]

theorem IsOrdered.insertEntry {entries : List (String × String)} (ordered : IsOrdered entries)
    (legacy canonical : String) : IsOrdered (insertEntry legacy canonical entries) := by
  induction entries with
  | nil => exact List.pairwise_singleton _ _
  | cons entry rest ih =>
    obtain ⟨first,value⟩ := entry
    obtain ⟨least,sorted⟩ := List.pairwise_cons.mp ordered
    unfold CodeTable.insertEntry
    by_cases same : legacy = first
    · rw [if_pos same,same]
      exact List.pairwise_cons.mpr ⟨least,sorted⟩
    rw [if_neg same]
    by_cases before : Text.precedes legacy first = true
    · rw [if_pos before]
      have first_ : Text.bytes legacy < Text.bytes first := by simpa [Text.precedes] using before
      refine List.pairwise_cons.mpr ⟨?_,ordered⟩
      rw [List.forall_mem_cons]
      exact ⟨first_,fun other member => List.lt_trans first_ (least other member)⟩
    · rw [if_neg before]
      have later : Text.bytes first < Text.bytes legacy := by
        have notBefore : ¬ Text.bytes legacy < Text.bytes first := by simpa [Text.precedes] using before
        exact Std.lt_of_le_of_ne notBefore fun equal => same (Text.bytes_injective equal.symm)
      refine List.pairwise_cons.mpr ⟨fun other member => ?_,ih sorted⟩
      rcases mem_insertEntry member with rfl | old
      · exact later
      · exact least other old

def insertTrimmed (table : CodeTable) (pair : String × String) : CodeTable :=
  table.insert (Text.trimmed pair.1) (Text.trimmed pair.2)

/-- Why a pair cannot be merged; an empty legacy code goes before a bad canonical one. -/
def faultOf (pair : String × String) : CodeError :=
  if Text.trimmed pair.1 = "" then .emptyLegacy else .invalidCanonical (Text.trimmed pair.1) (Text.trimmed pair.2)

/-- What is wrong with a pair that cannot be merged. -/
theorem fault_iff {pair : String × String} {error : CodeError} : ¬ IsUsable pair ∧ error = faultOf pair ↔
    Text.trimmed pair.1 = "" ∧ error = .emptyLegacy ∨
      Text.trimmed pair.1 ≠ "" ∧ ¬ IsIdentifier (Text.trimmed pair.2).toList ∧
        error = .invalidCanonical (Text.trimmed pair.1) (Text.trimmed pair.2) := by
  rw [IsUsable,isIdentifier_iff,faultOf]
  by_cases empty : Text.trimmed pair.1 = "" <;> simp [empty]

/-- The canonical code of the last pair for a legacy code, both trimmed. -/
def lastFor? (pairs : List (String × String)) (legacy : String) : Option String :=
  (pairs.reverse.find? fun pair => Text.trimmed pair.1 = legacy).map fun pair => Text.trimmed pair.2

theorem overrideWith_usable {pair : String × String} (usable : IsUsable pair) (table : CodeTable) :
    table.overrideWith pair = .ok (table.insertTrimmed pair) := by
  simp [overrideWith,usable.1,usable.2,insertTrimmed]

theorem overrideWith_unusable {pair : String × String} (unusable : ¬ IsUsable pair) (table : CodeTable) :
    table.overrideWith pair = .error (faultOf pair) := by
  unfold overrideWith faultOf
  by_cases empty : Text.trimmed pair.1 = ""
  · simp [empty]
  · have bad : isIdentifier (Text.trimmed pair.2).toList = false :=
      Bool.eq_false_iff.mpr fun identifier => unusable ⟨empty,identifier⟩
    simp [empty,bad]

/-- Pairs that can all be merged are inserted one after the other. -/
theorem override_usable {pairs : List (String × String)} (usable : ∀ pair ∈ pairs, IsUsable pair) (table : CodeTable) :
    table.override pairs = .ok (pairs.foldl insertTrimmed table) := by
  unfold override
  induction pairs generalizing table with
  | nil => rfl
  | cons pair rest ih =>
    rw [List.forall_mem_cons] at usable
    rw [List.foldlM_cons,overrideWith_usable usable.1]
    exact ih usable.2 _

/-- The first pair that cannot be merged ends the merge. -/
theorem override_unusable {front rest : List (String × String)} {bad : String × String}
    (usable : ∀ pair ∈ front, IsUsable pair) (unusable : ¬ IsUsable bad) (table : CodeTable) :
    table.override (front ++ bad :: rest) = .error (faultOf bad) := by
  unfold override
  induction front generalizing table with
  | nil =>
    rw [List.nil_append,List.foldlM_cons,overrideWith_unusable unusable]
    rfl
  | cons pair front ih =>
    rw [List.forall_mem_cons] at usable
    rw [List.cons_append,List.foldlM_cons,overrideWith_usable usable.1]
    exact ih usable.2 _

theorem all_usable_or_first_unusable (pairs : List (String × String)) : (∀ pair ∈ pairs, IsUsable pair) ∨
    ∃ front bad rest, pairs = front ++ bad :: rest ∧ (∀ pair ∈ front, IsUsable pair) ∧ ¬ IsUsable bad := by
  induction pairs with
  | nil => exact .inl nofun
  | cons pair rest ih =>
    by_cases usable : IsUsable pair
    · rcases ih with all | ⟨front,bad,later,rfl,before,unusable⟩
      · exact .inl (List.forall_mem_cons.mpr ⟨usable,all⟩)
      · exact .inr ⟨pair :: front,bad,later,rfl,List.forall_mem_cons.mpr ⟨usable,before⟩,unusable⟩
    · exact .inr ⟨[],pair,rest,rfl,nofun,usable⟩

theorem override_eq_error_iff {table : CodeTable} {pairs : List (String × String)} {error : CodeError} :
    table.override pairs = .error error ↔ ∃ front bad rest, pairs = front ++ bad :: rest ∧
      (∀ pair ∈ front, IsUsable pair) ∧ ¬ IsUsable bad ∧ error = faultOf bad := by
  constructor
  · intro failed
    rcases all_usable_or_first_unusable pairs with all | ⟨front,bad,rest,rfl,usable,unusable⟩
    · rw [override_usable all] at failed
      contradiction
    · rw [override_unusable usable unusable,Except.error.injEq] at failed
      exact ⟨front,bad,rest,rfl,usable,unusable,failed.symm⟩
  · rintro ⟨front,bad,rest,rfl,usable,unusable,rfl⟩
    exact override_unusable usable unusable table

theorem eq_foldl_of_override {table codes : CodeTable} {pairs : List (String × String)}
    (merged : table.override pairs = .ok codes) : codes = pairs.foldl insertTrimmed table := by
  have usable := (exists_override_iff table pairs).mp ⟨codes,merged⟩
  rw [override_usable usable,Except.ok.injEq] at merged
  exact merged.symm

theorem get?_foldl_insertTrimmed (table : CodeTable) (pairs : List (String × String)) (legacy : String) :
    (pairs.foldl insertTrimmed table).get? legacy = (lastFor? pairs legacy <|> table.get? legacy) := by
  induction pairs generalizing table with
  | nil => rfl
  | cons pair rest ih =>
    have once : (table.insertTrimmed pair).get? legacy =
        if legacy = Text.trimmed pair.1 then some (Text.trimmed pair.2) else table.get? legacy :=
      lookup_insertEntry _ _ _ _
    have last : lastFor? (pair :: rest) legacy = (lastFor? rest legacy <|>
        if legacy = Text.trimmed pair.1 then some (Text.trimmed pair.2) else none) := by
      unfold lastFor?
      rw [List.reverse_cons,List.find?_append]
      cases rest.reverse.find? fun pair => Text.trimmed pair.1 = legacy with
      | some found => rfl
      | none => by_cases hit : legacy = Text.trimmed pair.1 <;> simp [hit,eq_comm]
    rw [List.foldl_cons,ih,once,last]
    cases lastFor? rest legacy with
    | some found => rfl
    | none => by_cases hit : legacy = Text.trimmed pair.1 <;> simp [hit]

structure IsClean (entry : String × String) : Prop where
  filled : entry.1 ≠ ""
  trimmed : Text.trimmed entry.1 = entry.1
  identifier : IsIdentifier entry.2.toList

structure Invariant (table : CodeTable) : Prop where
  ordered : IsOrdered table.entries
  clean : ∀ entry ∈ table.entries, IsClean entry

theorem Invariant.insertTrimmed {table : CodeTable} (valid : table.Invariant) {pair : String × String}
    (usable : IsUsable pair) : (table.insertTrimmed pair).Invariant where
  ordered := valid.ordered.insertEntry _ _
  clean := by
    intro entry member
    rcases mem_insertEntry member with rfl | old
    · exact ⟨usable.1,Text.trimmed_trimmed _,isIdentifier_iff.mp usable.2⟩
    · exact valid.clean entry old

theorem Invariant.foldl {pairs : List (String × String)} (usable : ∀ pair ∈ pairs, IsUsable pair) {table : CodeTable}
    (valid : table.Invariant) : (pairs.foldl CodeTable.insertTrimmed table).Invariant := by
  induction pairs generalizing table with
  | nil => exact valid
  | cons pair rest ih =>
    rw [List.forall_mem_cons] at usable
    exact ih usable.2 (valid.insertTrimmed usable.1)

/-- The built-in entries could be merged themselves, and trimming leaves them as they are. -/
theorem builtinEntries_usable : ∀ pair ∈ builtinEntries,
    IsUsable pair ∧ Text.trimmed pair.1 = pair.1 ∧ Text.trimmed pair.2 = pair.2 := by
  unfold IsUsable
  decide +kernel

theorem builtin_eq_foldl : builtin = builtinEntries.foldl insertTrimmed ⟨[]⟩ := by
  refine List.foldl_ext _ _ _ fun table pair member => ?_
  have same := (builtinEntries_usable pair member).2
  rw [insertTrimmed,same.1,same.2]

theorem builtin_invariant : builtin.Invariant := by
  rw [builtin_eq_foldl]
  exact Invariant.foldl (fun pair member => (builtinEntries_usable pair member).1) ⟨List.Pairwise.nil,nofun⟩

end CodeTable

def Call.codeLine (codes : CodeTable) (call : Call) : List Char :=
  "      error.code = ErrorCodes.".toList ++ (codes.resolve (String.ofList (Text.trim call.code))).toList

open CodeTable (IsUsable IsIdentifier faultOf lastFor?)

/-- The code stands on a line of its own, whatever the message and the details hold. -/
theorem Call.codeLine_mem_pieces {codes : CodeTable} (merged : codes.IsMerged) (call : Call) :
    call.codeLine codes ∈ Text.pieces '\n' (call.replacement codes) := by
  have identifier := CodeTable.isIdentifier_resolve merged (String.ofList (Text.trim call.code))
  have newline : '\n' ∉ call.codeLine codes := by
    intro member
    rcases List.mem_append.mp member with front | code
    · exact absurd front (by decide +kernel)
    · exact CodeTable.notMem_of_isIdentifier identifier (by decide) code
  obtain ⟨above,below,split⟩ : ∃ above below,
      call.replacement codes ++ [] = above ++ '\n' :: (call.codeLine codes ++ '\n' :: below) :=
    ⟨_,_,call.replacement_append codes []⟩
  rw [← List.append_nil (call.replacement codes),split,Text.pieces_append_mark,Text.pieces_append_mark,
    Text.pieces_of_notMem newline]
  exact List.mem_append_right _ List.mem_cons_self

/-- Pairs merge over the built-in table when each of them can be merged; otherwise the first that cannot tells why. In
the merged table the last pair for a code counts, then the built-in entry, then the fallback; the entries are clean and
in strictly increasing order of their codes; and every block that stands for a call under it has a line with an
identifier for the code. -/
theorem CodeTable.override_builtin_exact (pairs : List (String × String)) :
    ((∃ codes, builtin.override pairs = .ok codes) ↔
      ∀ pair ∈ pairs, Text.trimmed pair.1 ≠ "" ∧ IsIdentifier (Text.trimmed pair.2).toList) ∧
    (∀ error, builtin.override pairs = .error error ↔ ∃ front bad rest, pairs = front ++ bad :: rest ∧
      (∀ pair ∈ front, Text.trimmed pair.1 ≠ "" ∧ IsIdentifier (Text.trimmed pair.2).toList) ∧
      (Text.trimmed bad.1 = "" ∧ error = .emptyLegacy ∨
        Text.trimmed bad.1 ≠ "" ∧ ¬ IsIdentifier (Text.trimmed bad.2).toList ∧
          error = .invalidCanonical (Text.trimmed bad.1) (Text.trimmed bad.2))) ∧
    ∀ codes, builtin.override pairs = .ok codes →
      (∀ legacy, codes.resolve legacy =
        (lastFor? pairs legacy <|> builtin.get? legacy).getD "UNKNOWN_ERROR") ∧
      (∀ entry ∈ codes.entries, entry.1 ≠ "" ∧ Text.trimmed entry.1 = entry.1 ∧ IsIdentifier entry.2.toList) ∧
      (codes.entries.Pairwise fun a b => Text.bytes a.1 < Text.bytes b.1) ∧
      ∀ cs, Text.bytes (String.ofList (CallSite.replaceAll codes cs)) =
          CallSite.spliced codes 0 (Text.bytes (String.ofList cs)) (CallSite.find cs) ∧
        ∀ site ∈ CallSite.find cs, ∃ code, IsIdentifier code ∧
          "      error.code = ErrorCodes.".toList ++ code ∈ Text.pieces '\n' (site.call.replacement codes) := by
  have usable_iff (pair : String × String) :
      IsUsable pair ↔ Text.trimmed pair.1 ≠ "" ∧ IsIdentifier (Text.trimmed pair.2).toList :=
    and_congr_right fun _ => isIdentifier_iff
  refine ⟨by simp only [exists_override_iff,usable_iff],fun error => ?_,fun codes merged => ?_⟩
  · simp only [override_eq_error_iff,← usable_iff,← fault_iff]
  · have valid : codes.Invariant := by
      rw [eq_foldl_of_override merged]
      exact builtin_invariant.foldl ((exists_override_iff _ _).mp ⟨codes,merged⟩)
    refine ⟨fun legacy => ?_,fun entry member => ?_,valid.ordered,
      fun cs => ⟨CallSite.bytes_replaceAll codes cs,fun site _ => ?_⟩⟩
    · rw [resolve,eq_foldl_of_override merged,get?_foldl_insertTrimmed]
      rfl
    · have clean := valid.clean entry member
      exact ⟨clean.filled,clean.trimmed,clean.identifier⟩
    · exact ⟨_,isIdentifier_iff.mp (isIdentifier_resolve ⟨pairs,merged⟩ _),
        site.call.codeLine_mem_pieces ⟨pairs,merged⟩⟩

/-- Two pairs for one built-in code, told apart by blanks only. -/
def CodeTable.collidingPairs : List (String × String) := [("NETWORK_TIMEOUT","A"),("\t NETWORK_TIMEOUT\n"," $b_1 ")]

theorem CodeTable.collidingPairs_merged :
    ∃ codes, builtin.override collidingPairs = .ok codes ∧ codes.resolve "NETWORK_TIMEOUT" = "$b_1" ∧
      codes.resolve "\t NETWORK_TIMEOUT\n" = "UNKNOWN_ERROR" ∧
      codes.entries.Pairwise fun a b => Text.bytes a.1 < Text.bytes b.1 := by
  have outcome := override_builtin_exact collidingPairs
  have usable : ∀ pair ∈ collidingPairs, IsUsable pair := by
    unfold IsUsable
    decide +kernel
  obtain ⟨codes,merged⟩ := outcome.1.mpr fun pair member =>
    ⟨(usable pair member).1,isIdentifier_iff.mp (usable pair member).2⟩
  obtain ⟨resolves,_,ordered,_⟩ := outcome.2.2 codes merged
  refine ⟨codes,merged,?_,?_,ordered⟩
  · rw [resolves]
    decide +kernel
  · rw [resolves]
    decide +kernel

end ErrorMigration
