/-! Substring search over any alphabet. The same definition searches characters and bytes, so the
two searches can be compared. -/
namespace ErrorMigration.Text

variable {α : Type} [BEq α]

/-- Whether `needle` stands somewhere in the list; the empty needle always does. -/
def occursIn (needle : List α) : List α → Bool
  | [] => needle.isEmpty
  | c :: rest => needle.isPrefixOf (c :: rest) || occursIn needle rest

/-- What follows `word` at the head of the list, if `word` stands there. -/
def skip? : List α → List α → Option (List α)
  | [], cs => some cs
  | _ :: _, [] => none
  | w :: word, c :: cs => if w == c then skip? word cs else none

/-- Cut at the first `mark`: what stands before it and what follows it. -/
def cut? (mark : α) : List α → Option (List α × List α)
  | [] => none
  | c :: cs => if c == mark then some ([], cs) else (cut? mark cs).map fun p => (c :: p.1, p.2)

/-- Cut at every `mark`; `n` marks give `n + 1` pieces. -/
def pieces (mark : α) : List α → List (List α)
  | [] => [[]]
  | c :: cs =>
    if c == mark then [] :: pieces mark cs
    else match pieces mark cs with
      | [] => [[c]]
      | piece :: rest => (c :: piece) :: rest

def glue (mark : α) : List (List α) → List α
  | [] => []
  | [piece] => piece
  | piece :: rest => piece ++ mark :: glue mark rest

end ErrorMigration.Text
