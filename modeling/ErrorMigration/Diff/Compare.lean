import ErrorMigration.Diff.Midpoint

/-! Comparison of two line lists. What they have in common at both ends is kept; what is left is
split at a midpoint and compared part by part. -/
namespace ErrorMigration.Diff

variable {α : Type} [BEq α]

/-- An edit script from `old` to `new`. A midpoint that does not make both parts smaller is not
used; then all of what is left is deleted and inserted. -/
def compare (old new : List α) : List (Edit α) :=
  let start := commonStart old new
  let oldRest := old.drop start
  let newRest := new.drop start
  let ending := commonEnd oldRest newRest
  let oldPart := dropLastN ending oldRest
  let newPart := dropLastN ending newRest
  let middle :=
    if oldPart.isEmpty || newPart.isEmpty then edit? .delete oldPart ++ edit? .insert newPart
    else
      match midpoint? oldPart newPart with
      | none => [⟨.delete, oldPart⟩, ⟨.insert, newPart⟩]
      | some (x, y) =>
        if _inside : 0 < min x oldPart.length + min y newPart.length ∧
            min x oldPart.length + min y newPart.length < oldPart.length + newPart.length then
          compare (oldPart.take x) (newPart.take y) ++ compare (oldPart.drop x) (newPart.drop y)
        else [⟨.delete, oldPart⟩, ⟨.insert, newPart⟩]
  edit? .keep (old.take start) ++ middle ++ edit? .keep (takeLastN ending oldRest)
termination_by old.length + new.length
decreasing_by
  all_goals
    have oldShorter : oldPart.length ≤ old.length := by
      simp only [oldPart, oldRest, dropLastN, List.length_take, List.length_drop]; omega
    have newShorter : newPart.length ≤ new.length := by
      simp only [newPart, newRest, dropLastN, List.length_take, List.length_drop]; omega
  · change (oldPart.take x).length + (newPart.take y).length < _
    simp only [List.length_take]; omega
  · change (oldPart.drop x).length + (newPart.drop y).length < _
    simp only [List.length_drop]; omega

end ErrorMigration.Diff
