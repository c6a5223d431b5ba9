import ErrorMigration.Diff.Compare
import ErrorMigration.Diff.Slide

/-! Hunks: changes with up to three lines of context around them. Changes whose contexts touch
share a hunk. -/
namespace ErrorMigration.Diff

/-- A run of deletions and insertions as half-open line ranges before and after. -/
structure Change where
  oldStart : Nat
  oldStop : Nat
  newStart : Nat
  newStop : Nat
  deriving DecidableEq, Repr

variable {α : Type}

/-- The changes of a script that goes on at the given line numbers, in a change or not. -/
def changesFrom (oldLine newLine : Nat) (current : Option Change) : List (Edit α) → List Change
  | [] => current.toList
  | e :: rest =>
    let n := e.lines.length
    let change := current.getD ⟨oldLine, oldLine, newLine, newLine⟩
    match e.kind with
    | .keep => current.toList ++ changesFrom (oldLine + n) (newLine + n) none rest
    | .delete => changesFrom (oldLine + n) newLine (some { change with oldStop := change.oldStop + n }) rest
    | .insert => changesFrom oldLine (newLine + n) (some { change with newStop := change.newStop + n }) rest

def changes (script : List (Edit α)) : List Change := changesFrom 0 0 none script

inductive Mark where
  | context
  | removed
  | added
  deriving DecidableEq, Repr

/-- Line ranges before and after, counted from zero, and the marked lines. -/
structure Hunk (α : Type) where
  oldStart : Nat
  oldCount : Nat
  newStart : Nat
  newCount : Nat
  body : List (Mark × α)
  deriving DecidableEq, Repr

def contextSize : Nat := 3

def slice (start stop : Nat) (lines : List α) : List α := (lines.take stop).drop start

def marked (mark : Mark) (lines : List α) : List (Mark × α) := lines.map fun line => (mark, line)

/-- How many lines of context can follow a change. -/
def Change.trailing (old new : List α) (c : Change) : Nat :=
  min contextSize (min (old.length - c.oldStop) (new.length - c.newStop))

/-- Whether the context of the next change reaches into the context of this one. -/
def Change.touches (old new : List α) (c next : Change) : Bool :=
  min next.oldStart (old.length - 1) - contextSize < c.oldStop + c.trailing old new

/-- The marked lines of a change, and the lines kept up to the next change of its hunk. -/
def Change.body (old new : List α) (c : Change) (next : Option Change) : List (Mark × α) :=
  let kept := match next with
    | some next => min (next.oldStart - c.oldStop) (next.newStart - c.newStop)
    | none => c.trailing old new
  marked .removed (slice c.oldStart c.oldStop old) ++ marked .added (slice c.newStart c.newStop new) ++
    marked .context (slice c.newStop (c.newStop + kept) new)

def bodies (old new : List α) : List Change → List (Mark × α)
  | [] => []
  | [last] => last.body old new none
  | c :: next :: rest => c.body old new (some next) ++ bodies old new (next :: rest)

/-- One hunk for changes that touch, given as the first one and the others. -/
def Hunk.ofChanges (old new : List α) (first : Change) (others : List Change) : Hunk α :=
  let last := others.getLast?.getD first
  let trailing := last.trailing old new
  let oldStart := first.oldStart - contextSize
  let newStart := first.newStart - contextSize
  { oldStart, newStart
    oldCount := last.oldStop + trailing - oldStart
    newCount := last.newStop + trailing - newStart
    body := marked .context (slice newStart first.newStart new) ++ bodies old new (first :: others) }

variable [BEq α]

def hunks (old new : List α) : List (Hunk α) :=
  ((changes (compact (compare old new))).splitBy (Change.touches old new)).flatMap fun
    | [] => []
    | first :: others => [Hunk.ofChanges old new first others]

end ErrorMigration.Diff
