import ErrorMigration.Proofs.CallHead
import Mathlib.Algebra.BigOperators.Group.Finset.Basic

/-! Passes over one text. The first pass brings in the import line if it is missing, and no later one does; each
replaced call takes a head away, so the passes come to rest. -/
namespace ErrorMigration

namespace Status

variable {before after : List Char}

theorem classify_eq_skipped_iff : classify before after = .skipped ↔ before = after := by
  unfold classify
  split
  · simp_all
  · split <;> simp_all

theorem classify_eq_complete_iff :
    classify before after = .complete ↔ before ≠ after ∧ containsMarker after = false := by
  unfold classify
  split
  · simp_all
  · split <;> simp_all

theorem classify_ne_failed : classify before after ≠ .failed := by
  unfold classify
  split
  · simp
  · split <;> simp

end Status

namespace ImportLine

variable {codes : CodeTable}

theorem isMissing_eq_false_iff {cs : List Char} :
    isMissing cs = false ↔ (baseDeclaration <:+: cs → codesRequire <:+: cs) := by
  rw [isMissing,Bool.and_eq_false_iff,Bool.not_eq_false',Text.occursIn_eq_false_iff,Text.occursIn_iff_isInfix,
    imp_iff_not_or]

theorem codesRequire_infix_added (i : Insertion) : codesRequire <:+: i.added := by
  obtain ⟨indent,ending,_,added⟩ := exists_added_eq i
  have declared : codesRequire <:+ codesDeclaration := List.suffix_append _ _
  rw [added,← List.cons_append]
  exact (declared.isInfix.trans (List.prefix_append _ _).isInfix).trans (List.suffix_append _ _).isInfix

theorem codesRequire_infix_ensure {cs : List Char} (missing : isMissing cs = true) : codesRequire <:+: ensure cs := by
  obtain ⟨i,found⟩ := exists_insertion? missing
  rw [(ensure_of_insertion? found).2]
  exact ((codesRequire_infix_added i).trans (List.prefix_append _ _).isInfix).trans (List.suffix_append _ _).isInfix

theorem isMissing_ensure (cs : List Char) : isMissing (ensure cs) = false := by
  by_cases missing : isMissing cs = true
  · exact isMissing_eq_false_iff.mpr fun _ => codesRequire_infix_ensure missing
  · rw [Bool.not_eq_true] at missing
    rwa [ensure_of_present missing]

theorem isMissing_replaceAll (merged : codes.IsMerged) {cs : List Char} (present : isMissing cs = false) :
    isMissing (CallSite.replaceAll codes cs) = false := by
  rw [isMissing_eq_false_iff] at present ⊢
  intro declared
  exact codesRequire_infix_replaceAll (present (baseDeclaration_infix_of_replaceAll merged declared))

end ImportLine

open Call (headCount)

variable {codes : CodeTable} {cs : List Char}

def pass (codes : CodeTable) (cs : List Char) : List Char := (migrateText codes cs).text

theorem isMissing_pass (merged : codes.IsMerged) (cs : List Char) : ImportLine.isMissing (pass codes cs) = false :=
  ImportLine.isMissing_replaceAll merged (ImportLine.isMissing_ensure cs)

/-- A pass has nothing to do on a text with the import line and without calls. -/
theorem migrateText_of_settled (present : ImportLine.isMissing cs = false) (none : CallSite.count cs = 0) :
    migrateText codes cs = ⟨cs,false,0⟩ := by
  simp only [migrateText,ImportLine.ensure_of_present present,present,CallSite.replaceAll_of_count_eq_zero none,none]

theorem count_of_unmarked (unmarked : containsMarker cs = false) : CallSite.count cs = 0 := by
  have counted := CallSite.count_le_headCount cs
  rw [Call.headCount_eq_zero (Text.occursIn_eq_false_iff.mp unmarked)] at counted
  omega

/-- A pass makes no head, and takes one away for each call it replaces. -/
theorem headCount_pass_add_callCount (merged : codes.IsMerged) (cs : List Char) :
    headCount (pass codes cs) + (migrateText codes cs).callCount ≤ headCount cs :=
  (CallSite.headCount_replaceAll_add_count merged (ImportLine.ensure cs)).trans (ImportLine.headCount_ensure cs)

/-- A text with the import line settles within as many passes as it has heads. -/
theorem exists_settled (merged : codes.IsMerged) (present : ImportLine.isMissing cs = false) :
    ∃ n ≤ headCount cs, migrateText codes ((pass codes)^[n] cs) = ⟨(pass codes)^[n] cs,false,0⟩ := by
  induction bound : headCount cs using Nat.strong_induction_on generalizing cs with
  | _ heads ih =>
    by_cases none : CallSite.count cs = 0
    · exact ⟨0,Nat.zero_le _,migrateText_of_settled present none⟩
    · have step := headCount_pass_add_callCount merged cs
      have counted : (migrateText codes cs).callCount = CallSite.count cs := by
        rw [migrateText,ImportLine.ensure_of_present present]
      obtain ⟨n,few,settled⟩ := ih (headCount (pass codes cs)) (by omega) (isMissing_pass merged cs) rfl
      exact ⟨n + 1,by omega,settled⟩

/-- What a run of passes replaced and the heads it left. -/
theorem sum_callCount_add_headCount (merged : codes.IsMerged) (cs : List Char) (n : Nat) :
    ∑ i ∈ Finset.range n, (migrateText codes ((pass codes)^[i] cs)).callCount + headCount ((pass codes)^[n] cs) ≤
      headCount cs := by
  induction n with
  | zero => simp
  | succ n ih =>
    have step := headCount_pass_add_callCount merged ((pass codes)^[n] cs)
    rw [Finset.sum_range_succ,Function.iterate_succ_apply']
    omega

/-- A second pass never adds the import line, and a text from which the first pass took the marker stays as it is. -/
theorem second_pass_inserts_nothing (merged : codes.IsMerged) (cs : List Char) :
    ImportLine.ensure (pass codes cs) = pass codes cs ∧
    (migrateText codes (pass codes cs)).importInserted = false ∧
    (Status.classify cs (pass codes cs) = .complete →
      migrateText codes (pass codes cs) = ⟨pass codes cs,false,0⟩) := by
  have present := isMissing_pass merged cs
  refine ⟨ImportLine.ensure_of_present present,present,fun complete => ?_⟩
  exact migrateText_of_settled present (count_of_unmarked (Status.classify_eq_complete_iff.mp complete).2)

def declaredCall : List Char :=
  ImportLine.baseDeclaration ++
    "\nthrow new StandardErrorWrapper('NETWORK_TIMEOUT', 'timed out', \x7b retry: true \x7d)".toList

theorem declaredCall_settled :
    Status.classify declaredCall (pass .builtin declaredCall) = .complete ∧
    migrateText .builtin (pass .builtin declaredCall) = ⟨pass .builtin declaredCall,false,0⟩ := by
  have complete : Status.classify declaredCall (pass .builtin declaredCall) = .complete := by decide +kernel
  have settled := (second_pass_inserts_nothing ⟨[],rfl⟩ declaredCall).2.2 complete
  exact ⟨complete,settled⟩

/-- Passes come to rest: each takes a head away for every call it replaces, so that after one pass more than the
text has heads nothing changes, and all passes together replace no more calls than the text has heads. -/
theorem passes_converge (merged : codes.IsMerged) (cs : List Char) :
    headCount (pass codes cs) + (migrateText codes cs).callCount ≤ headCount cs ∧
    (∃ n ≤ headCount cs + 1, migrateText codes ((pass codes)^[n] cs) = ⟨(pass codes)^[n] cs,false,0⟩) ∧
    ∀ n, ∑ i ∈ Finset.range n, (migrateText codes ((pass codes)^[i] cs)).callCount ≤ headCount cs := by
  have step := headCount_pass_add_callCount merged cs
  refine ⟨step,?_,fun n => (Nat.le_add_right _ _).trans (sum_callCount_add_headCount merged cs n)⟩
  obtain ⟨n,few,settled⟩ := exists_settled merged (isMissing_pass merged cs)
  exact ⟨n + 1,by omega,settled⟩

/-- A call whose message and details are read with what follows the block as another call. -/
def nestedCall : List Char :=
  "throw new StandardErrorWrapper('A', 'throw new StandardErrorWrapper(', \x7b ', ' \x7d) ', \x7b \x7d)".toList

theorem nestedCall_converges :
    (headCount nestedCall = 2 ∧ (migrateText .builtin (pass .builtin nestedCall)).callCount = 1) ∧
    ∃ n ≤ headCount nestedCall + 1,
      migrateText .builtin ((pass .builtin)^[n] nestedCall) = ⟨(pass .builtin)^[n] nestedCall,false,0⟩ :=
  ⟨by decide +kernel,(passes_converge ⟨[],rfl⟩ nestedCall).2.1⟩

end ErrorMigration
