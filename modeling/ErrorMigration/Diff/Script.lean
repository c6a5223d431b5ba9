/-! Edit scripts: stretches of lines that are kept, deleted or inserted, in order. A script has
two readings, the lines before and the lines after, and everything that is done to a script has
to leave both as they are. -/
namespace ErrorMigration.Diff

inductive Kind where
  | keep
  | delete
  | insert
  deriving DecidableEq, Repr

structure Edit (α : Type) where
  kind : Kind
  lines : List α
  deriving DecidableEq, Repr

variable {α : Type}

def linesBefore (script : List (Edit α)) : List α :=
  script.flatMap fun e => if e.kind = .insert then [] else e.lines

def linesAfter (script : List (Edit α)) : List α :=
  script.flatMap fun e => if e.kind = .delete then [] else e.lines

def edit? (kind : Kind) (lines : List α) : List (Edit α) :=
  if lines.isEmpty then [] else [⟨kind, lines⟩]

def commonStart [BEq α] : List α → List α → Nat
  | a :: as, b :: bs => if a == b then commonStart as bs + 1 else 0
  | _, _ => 0

def commonEnd [BEq α] (as bs : List α) : Nat := commonStart as.reverse bs.reverse

def dropLastN (n : Nat) (as : List α) : List α := as.take (as.length - n)

def takeLastN (n : Nat) (as : List α) : List α := as.drop (as.length - n)

end ErrorMigration.Diff
