import ErrorMigration.Diff.Compare
import ErrorMigration.Diff.Slide
import Mathlib.Tactic

/-! What edit scripts say. The comparison of two lists gives a script that starts from the one and ends with the other,
whichever midpoints it is given; sliding an edit is a sequence of exchanges of neighbours, none of which changes what
the script says. No edit is ever without lines. -/
namespace ErrorMigration.Diff

variable {α : Type}

section Readings

/-- The lines of a script that are there before, without those inserted, or after, without those deleted. -/
def reading (absent : Kind) (script : List (Edit α)) : List α :=
  script.flatMap fun e => if e.kind = absent then [] else e.lines

theorem linesBefore_eq (script : List (Edit α)) : linesBefore script = reading .insert script := rfl

theorem linesAfter_eq (script : List (Edit α)) : linesAfter script = reading .delete script := rfl

variable {absent : Kind}

@[simp] theorem reading_nil : reading absent ([] : List (Edit α)) = [] := rfl

@[simp] theorem reading_cons (e : Edit α) (script : List (Edit α)) :
    reading absent (e :: script) = (if e.kind = absent then [] else e.lines) ++ reading absent script := rfl

@[simp] theorem reading_append (xs ys : List (Edit α)) :
    reading absent (xs ++ ys) = reading absent xs ++ reading absent ys := List.flatMap_append

@[simp] theorem reading_edit? (kind : Kind) (lines : List α) :
    reading absent (edit? kind lines) = if kind = absent then [] else lines := by
  cases lines <;> simp [edit?]

theorem reading_keepInFront (kept : Kind.keep ≠ absent) (lines : List α) (below : List (Edit α)) :
    reading absent (keepInFront lines below) = lines ++ reading absent below := by
  cases below with
  | nil => simp [keepInFront,kept]
  | cons e below => by_cases keeps : e.kind = .keep <;> simp [keepInFront,keeps,kept]

theorem reading_keepBehind (kept : Kind.keep ≠ absent) (lines : List α) (above : List (Edit α)) :
    reading absent (keepBehind lines above).reverse = reading absent above.reverse ++ lines := by
  cases above with
  | nil => simp [keepBehind,kept]
  | cons e above => by_cases keeps : e.kind = .keep <;> simp [keepBehind,keeps,kept]

def Filled (script : List (Edit α)) : Prop := ∀ e ∈ script, e.lines ≠ []

@[simp] theorem filled_nil : Filled ([] : List (Edit α)) := nofun

@[simp] theorem filled_cons (e : Edit α) (script : List (Edit α)) :
    Filled (e :: script) ↔ e.lines ≠ [] ∧ Filled script := List.forall_mem_cons

@[simp] theorem filled_append (xs ys : List (Edit α)) : Filled (xs ++ ys) ↔ Filled xs ∧ Filled ys :=
  List.forall_mem_append

@[simp] theorem filled_reverse (xs : List (Edit α)) : Filled xs.reverse ↔ Filled xs := by simp [Filled]

@[simp] theorem filled_edit? (kind : Kind) (lines : List α) : Filled (edit? kind lines) := by
  cases lines <;> simp [edit?]

theorem filled_keepInFront {lines : List α} {below : List (Edit α)} (some : lines ≠ []) (filled : Filled below) :
    Filled (keepInFront lines below) := by
  cases below with
  | nil => simp [keepInFront,some]
  | cons e below => by_cases keeps : e.kind = .keep <;> simp_all [keepInFront]

theorem filled_keepBehind {lines : List α} {above : List (Edit α)} (some : lines ≠ []) (filled : Filled above) :
    Filled (keepBehind lines above) := by
  cases above with
  | nil => simp [keepBehind,some]
  | cons e above => by_cases keeps : e.kind = .keep <;> simp_all [keepBehind]

end Readings

structure Leads (old new : List α) (script : List (Edit α)) : Prop where
  before : linesBefore script = old
  after : linesAfter script = new
  filled : Filled script

theorem Leads.append {old new old' new' : List α} {xs ys : List (Edit α)} (front : Leads old new xs)
    (back : Leads old' new' ys) : Leads (old ++ old') (new ++ new') (xs ++ ys) where
  before := by rw [linesBefore_eq,reading_append,← linesBefore_eq,← linesBefore_eq,front.before,back.before]
  after := by rw [linesAfter_eq,reading_append,← linesAfter_eq,← linesAfter_eq,front.after,back.after]
  filled := (filled_append _ _).mpr ⟨front.filled,back.filled⟩

theorem leads_keep (lines : List α) : Leads lines lines (edit? .keep lines) :=
  ⟨by simp [linesBefore_eq],by simp [linesAfter_eq],by simp⟩

theorem leads_replace (old new : List α) : Leads old new (edit? .delete old ++ edit? .insert new) :=
  ⟨by simp [linesBefore_eq],by simp [linesAfter_eq],by simp⟩

section Common

theorem dropLastN_append_takeLastN (n : Nat) (as : List α) : dropLastN n as ++ takeLastN n as = as :=
  List.take_append_drop _ as

variable [BEq α] [LawfulBEq α]

theorem take_commonStart (as bs : List α) : as.take (commonStart as bs) = bs.take (commonStart as bs) := by
  induction as generalizing bs with
  | nil => cases bs <;> simp [commonStart]
  | cons a as ih =>
    cases bs with
    | nil => simp [commonStart]
    | cons b bs =>
      simp only [commonStart]
      split
      · rename_i same
        rw [eq_of_beq same,List.take_succ_cons,List.take_succ_cons,ih]
      · rfl

theorem takeLastN_commonEnd (as bs : List α) :
    takeLastN (commonEnd as bs) as = takeLastN (commonEnd as bs) bs := by
  have reversed := congrArg List.reverse (take_commonStart as.reverse bs.reverse)
  rwa [List.reverse_take,List.reverse_take,List.reverse_reverse,List.reverse_reverse,List.length_reverse,
    List.length_reverse] at reversed

end Common

/-- The comparison gives a script from the old lines to the new ones. -/
theorem leads_compare [BEq α] [LawfulBEq α] (old new : List α) : Leads old new (compare old new) := by
  fun_induction compare old new with
  | case1 old new start oldRest newRest ending oldPart newPart middle upper lower =>
    have inner : Leads oldPart newPart middle := by
      unfold middle
      split
      · exact leads_replace oldPart newPart
      · rename_i filled
        simp only [Bool.or_eq_true,List.isEmpty_iff,not_or] at filled
        have replaced : Leads oldPart newPart [⟨.delete,oldPart⟩,⟨.insert,newPart⟩] := by
          simpa [edit?,filled] using leads_replace oldPart newPart
        split
        · exact replaced
        · rename_i x y _
          split
          · rename_i inside
            simpa using (upper x y inside).append (lower x y inside)
          · exact replaced
    have whole := ((leads_keep (old.take start)).append inner).append (leads_keep (takeLastN ending oldRest))
    have oldSplit : old.take start ++ oldPart ++ takeLastN ending oldRest = old := by
      rw [List.append_assoc,dropLastN_append_takeLastN,List.take_append_drop]
    have newSplit : old.take start ++ newPart ++ takeLastN ending oldRest = new := by
      rw [take_commonStart,takeLastN_commonEnd,List.append_assoc,dropLastN_append_takeLastN,List.take_append_drop]
    rwa [oldSplit,newSplit] at whole

structure Agrees (script script' : List (Edit α)) : Prop where
  lines : ∀ {absent},Kind.keep ≠ absent → reading absent script' = reading absent script
  filled : Filled script → Filled script'

namespace Agrees

variable {xs ys zs : List (Edit α)}

theorem refl (xs : List (Edit α)) : Agrees xs xs := ⟨fun _ => rfl,id⟩

theorem trans (first : Agrees xs ys) (second : Agrees ys zs) : Agrees xs zs :=
  ⟨fun kept => (second.lines kept).trans (first.lines kept),second.filled ∘ first.filled⟩

/-- An exchange in the middle of a script. -/
theorem within (same : Agrees xs ys) (front back : List (Edit α)) :
    Agrees (front ++ xs ++ back) (front ++ ys ++ back) where
  lines kept := by simp only [reading_append,same.lines kept]
  filled := by
    simp only [filled_append]
    exact fun ⟨⟨first,middle⟩,last⟩ => ⟨⟨first,same.filled middle⟩,last⟩

theorem leads {old new : List α} (same : Agrees xs ys) (given : Leads old new xs) : Leads old new ys where
  before := by rw [linesBefore_eq,same.lines (by decide),← linesBefore_eq,given.before]
  after := by rw [linesAfter_eq,same.lines (by decide),← linesAfter_eq,given.after]
  filled := same.filled given.filled

theorem merge (kind : Kind) (front back : List α) : Agrees [⟨kind,front⟩,⟨kind,back⟩] [⟨kind,front ++ back⟩] where
  lines {absent} _ := by by_cases skipped : kind = absent <;> simp [skipped]
  filled := by
    simp only [filled_cons,filled_nil,and_true,ne_eq,List.append_eq_nil_iff,not_and]
    exact fun ⟨_,back⟩ _ => back

/-- A deletion and an insertion can stand in either order, as each reading has only one of them. -/
theorem swap {e e' : Edit α} (changes : e.kind ≠ .keep) (changes' : e'.kind ≠ .keep) (other : e.kind ≠ e'.kind) :
    Agrees [e,e'] [e',e] where
  lines {absent} kept := by
    have one : e.kind = absent ∨ e'.kind = absent := by
      revert changes changes' other kept
      cases e.kind <;> cases e'.kind <;> cases absent <;> decide
    rcases one with skipped | skipped <;> simp [skipped]
  filled := by simp [and_comm]

theorem vanish {e : Edit α} (empty : e.lines = []) : Agrees [e] [] := ⟨fun _ => by simp [empty],by simp⟩

/-- A change that ends as the kept lines above it do can stand above that end. -/
theorem rise (kind : Kind) {moved : List α} (some : moved ≠ []) (kept lines : List α) (below : List (Edit α)) :
    Agrees (⟨.keep,kept ++ moved⟩ :: ⟨kind,lines ++ moved⟩ :: below)
      (edit? .keep kept ++ ⟨kind,moved ++ lines⟩ :: keepInFront moved below) where
  lines {absent} keeps := by by_cases skipped : kind = absent <;> simp [skipped,keeps,reading_keepInFront]
  filled := by simp +contextual [some,filled_keepInFront]

/-- A change that starts as the kept lines below it do can stand below that start. -/
theorem sink (kind : Kind) {moved : List α} (some : moved ≠ []) (kept lines : List α) (above : List (Edit α)) :
    Agrees (above.reverse ++ [⟨kind,moved ++ lines⟩,⟨.keep,moved ++ kept⟩])
      ((keepBehind moved above).reverse ++ ⟨kind,lines ++ moved⟩ :: edit? .keep kept) where
  lines {absent} keeps := by by_cases skipped : kind = absent <;> simp [skipped,keeps,reading_keepBehind]
  filled := by simp +contextual [some,filled_keepBehind]

end Agrees

section Slide

def Focus.script (f : Focus α) : List (Edit α) := f.above.reverse ++ f.edit :: f.below

variable [BEq α]

theorem slideUp_kind (above below : List (Edit α)) (edit : Edit α) :
    (slideUp above edit below).edit.kind = edit.kind := by
  fun_induction slideUp above edit below <;> simp_all

variable [LawfulBEq α]

/-- Each step of a slide up exchanges the edit and the one above it. -/
theorem agrees_slideUp (above below : List (Edit α)) {edit : Edit α} (changes : edit.kind ≠ .keep) :
    Agrees (above.reverse ++ edit :: below) (slideUp above edit below).script := by
  fun_induction slideUp above edit below with
  | case1 edit below => exact Agrees.refl _
  | case2 edit below next rest keeps run found moved kept ih =>
    have common : moved = takeLastN run next.lines := takeLastN_commonEnd edit.lines next.lines
    have some : moved ≠ [] := by
      have inside : run ≤ next.lines.length := commonEnd_le_right edit.lines next.lines
      rw [common,takeLastN,ne_eq,List.drop_eq_nil_iff]
      omega
    have above : next = ⟨.keep,kept ++ moved⟩ := by
      rw [← keeps,common,dropLastN_append_takeLastN]
    have self : edit = ⟨edit.kind,dropLastN run edit.lines ++ moved⟩ := by rw [dropLastN_append_takeLastN]
    have step := (Agrees.rise edit.kind some kept (dropLastN run edit.lines) below).within rest.reverse []
    rw [← self,← above] at step
    have order : (edit? .keep kept).reverse = edit? .keep kept := by cases kept <;> rfl
    exact Agrees.trans (by simpa [order] using step) (ih changes)
  | case3 edit below next rest _ _ _ empty ih =>
    have step := (Agrees.vanish (List.isEmpty_iff.mp empty)).within rest.reverse (edit :: below)
    exact Agrees.trans (by simpa using step) (ih changes)
  | case4 edit below next rest => exact Agrees.refl _
  | case5 edit below next rest _ same ih =>
    have step := (Agrees.merge edit.kind next.lines edit.lines).within rest.reverse below
    rw [show (⟨edit.kind,next.lines⟩ : Edit α) = next by rw [← same]] at step
    exact Agrees.trans (by simpa using step) (ih changes)
  | case6 edit below next rest changesAbove other ih =>
    have step := (Agrees.swap changesAbove changes other).within rest.reverse below
    exact Agrees.trans (by simpa using step) (ih changes)

/-- Each step of a slide down exchanges the edit and the one below it. -/
theorem agrees_slideDown (above below : List (Edit α)) {edit : Edit α} (changes : edit.kind ≠ .keep) :
    Agrees (above.reverse ++ edit :: below) (slideDown above edit below).script := by
  fun_induction slideDown above edit below with
  | case1 above edit => exact Agrees.refl _
  | case2 above edit next rest keeps run found moved kept ih =>
    have common : moved = next.lines.take run := take_commonStart edit.lines next.lines
    have some : moved ≠ [] := by
      have inside : run ≤ next.lines.length := commonStart_le_right edit.lines next.lines
      rw [common,ne_eq,← List.length_eq_zero_iff,List.length_take]
      omega
    have below : next = ⟨.keep,moved ++ kept⟩ := by
      rw [← keeps,common,List.take_append_drop]
    have self : edit = ⟨edit.kind,moved ++ edit.lines.drop run⟩ := by rw [List.take_append_drop]
    have step := (Agrees.sink edit.kind some kept (edit.lines.drop run) above).within [] rest
    rw [← self,← below] at step
    exact Agrees.trans (by simpa using step) (ih changes)
  | case3 above edit next rest _ _ _ empty ih =>
    have step := (Agrees.vanish (List.isEmpty_iff.mp empty)).within (above.reverse ++ [edit]) rest
    exact Agrees.trans (by simpa using step) (ih changes)
  | case4 above edit next rest => exact Agrees.refl _
  | case5 above edit next rest _ same ih =>
    have step := (Agrees.merge edit.kind edit.lines next.lines).within above.reverse rest
    rw [show (⟨edit.kind,next.lines⟩ : Edit α) = next by rw [← same]] at step
    exact Agrees.trans (by simpa using step) (ih changes)
  | case6 above edit next rest changesBelow other ih =>
    have step := (Agrees.swap changes changesBelow (Ne.symm other)).within above.reverse rest
    exact Agrees.trans (by simpa using step) (ih changes)

theorem agrees_slideKind {kind : Kind} (changes : kind ≠ .keep) (bound : Nat) (above below : List (Edit α)) :
    Agrees (above.reverse ++ below) (slideKind kind bound above below) := by
  fun_induction slideKind kind bound above below with
  | case1 above below => exact Agrees.refl _
  | case2 above => simpa using Agrees.refl _
  | case3 bound above edit below same up down ih =>
    have moves : up.edit.kind ≠ .keep := by rwa [slideUp_kind,same]
    have slid := (agrees_slideUp above below (same ▸ changes)).trans (agrees_slideDown up.above up.below moves)
    exact slid.trans (by simpa [Focus.script,down] using ih)
  | case4 bound above edit below _ ih => simpa using ih

theorem agrees_compact (script : List (Edit α)) : Agrees script (compact script) :=
  (agrees_slideKind (by decide) _ [] script).trans (agrees_slideKind (by decide) _ [] _)

theorem leads_compact_compare (old new : List α) : Leads old new (compact (compare old new)) :=
  (agrees_compact _).leads (leads_compare old new)

end Slide

end ErrorMigration.Diff
