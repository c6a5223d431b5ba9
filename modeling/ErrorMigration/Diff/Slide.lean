import ErrorMigration.Diff.Script

/-! A change can often stand in several places: when the lines next to it repeat the lines it ends
or starts with, it can slide along them. Sliding each change up as far as it goes and then down as
far as it goes brings it to its last possible place and merges it with the changes it meets. -/
namespace ErrorMigration.Diff

variable {α : Type}

/-- An edit with those above it, nearest first, and those below it. -/
structure Focus (α : Type) where
  above : List (Edit α)
  edit : Edit α
  below : List (Edit α)

/-- Edits and lines together; every step of a slide takes some away on the side it goes to. -/
def weight : List (Edit α) → Nat
  | [] => 0
  | e :: rest => e.lines.length + 1 + weight rest

def keepInFront (lines : List α) : List (Edit α) → List (Edit α)
  | [] => [⟨.keep, lines⟩]
  | e :: rest => if e.kind = .keep then ⟨.keep, lines ++ e.lines⟩ :: rest else ⟨.keep, lines⟩ :: e :: rest

/-- Put kept lines behind what comes before, given nearest first. -/
def keepBehind (lines : List α) : List (Edit α) → List (Edit α)
  | [] => [⟨.keep, lines⟩]
  | e :: rest => if e.kind = .keep then ⟨.keep, e.lines ++ lines⟩ :: rest else ⟨.keep, lines⟩ :: e :: rest

variable [BEq α]

theorem commonStart_le_right (as bs : List α) : commonStart as bs ≤ bs.length := by
  induction as generalizing bs with
  | nil => cases bs <;> simp [commonStart]
  | cons a as ih =>
    cases bs with
    | nil => simp [commonStart]
    | cons b bs =>
      simp only [commonStart, List.length_cons]
      split
      · exact Nat.succ_le_succ (ih bs)
      · exact Nat.zero_le _

theorem commonEnd_le_right (as bs : List α) : commonEnd as bs ≤ bs.length := by
  simpa [commonEnd] using commonStart_le_right as.reverse bs.reverse

def slideUp (above : List (Edit α)) (edit : Edit α) (below : List (Edit α)) : Focus α :=
  match above with
  | [] => ⟨[], edit, below⟩
  | next :: rest =>
    if next.kind = .keep then
      let run := commonEnd edit.lines next.lines
      if _found : 0 < run then
        let moved := takeLastN run edit.lines
        let kept := dropLastN run next.lines
        slideUp (edit? .keep kept ++ rest) ⟨edit.kind, moved ++ dropLastN run edit.lines⟩
          (keepInFront moved below)
      else if next.lines.isEmpty then slideUp rest edit below
      else ⟨next :: rest, edit, below⟩
    else if next.kind = edit.kind then slideUp rest ⟨edit.kind, next.lines ++ edit.lines⟩ below
    else slideUp rest edit (next :: below)
termination_by weight above
decreasing_by
  · have bound := commonEnd_le_right edit.lines next.lines
    simp only [edit?, dropLastN, List.isEmpty_iff, weight]
    split
    · simp
    · simp [weight]
      omega
  all_goals simp [weight]

def slideDown (above : List (Edit α)) (edit : Edit α) (below : List (Edit α)) : Focus α :=
  match below with
  | [] => ⟨above, edit, []⟩
  | next :: rest =>
    if next.kind = .keep then
      let run := commonStart edit.lines next.lines
      if _found : 0 < run then
        let moved := edit.lines.take run
        let kept := next.lines.drop run
        slideDown (keepBehind moved above) ⟨edit.kind, edit.lines.drop run ++ moved⟩
          (edit? .keep kept ++ rest)
      else if next.lines.isEmpty then slideDown above edit rest
      else ⟨above, edit, next :: rest⟩
    else if next.kind = edit.kind then slideDown above ⟨edit.kind, edit.lines ++ next.lines⟩ rest
    else slideDown (next :: above) edit rest
termination_by weight below
decreasing_by
  · have bound := commonStart_le_right edit.lines next.lines
    simp only [edit?, List.isEmpty_iff, weight]
    split
    · simp
    · simp [weight]
      omega
  all_goals simp [weight]

/-- Slide every edit of one kind, from the first to the last; `above` is done, nearest first. -/
def slideKind (kind : Kind) : Nat → List (Edit α) → List (Edit α) → List (Edit α)
  | 0, above, below => above.reverse ++ below
  | _ + 1, above, [] => above.reverse
  | bound + 1, above, edit :: below =>
    if edit.kind = kind then
      let up := slideUp above edit below
      let down := slideDown up.above up.edit up.below
      slideKind kind bound (down.edit :: down.above) down.below
    else slideKind kind bound (edit :: above) below

/-- First all deletions, then all insertions. -/
def compact (script : List (Edit α)) : List (Edit α) :=
  let deleted := slideKind .delete (2 * weight script + 1) [] script
  slideKind .insert (2 * weight deleted + 1) [] deleted

end ErrorMigration.Diff
