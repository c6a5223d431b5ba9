import ErrorMigration.Text.Lines
import Mathlib.Data.List.Basic
import Mathlib.Tactic

/-! The lines of a text make up the text, and each has its newline at the end or none at all. Lines that all have one
are found again in the text that they make up. -/
namespace ErrorMigration.Text

theorem flatten_lines (cs : List Char) : (lines cs).flatten = cs := by
  fun_induction lines cs with
  | case1 => rfl
  | case2 c cs newline ih => simp [ih]
  | case3 c cs _ none ih => simp_all
  | case4 c cs _ line rest found ih => simp_all

theorem lines_injective : Function.Injective lines := by
  intro xs ys same
  rw [← flatten_lines xs,same,flatten_lines]

/-- A newline stands at the end or nowhere. -/
def IsLine (line : List Char) : Prop := '\n' ∉ line.dropLast

/-- A newline stands at the end and nowhere else. -/
def Ended (line : List Char) : Prop := ∃ front,line = front ++ ['\n'] ∧ '\n' ∉ front

theorem IsLine.cases {line : List Char} (isLine : IsLine line) :
    Ended line ∨ line.getLast? ≠ some '\n' ∧ '\n' ∉ line := by
  rcases List.eq_nil_or_concat line with rfl | ⟨front,last,rfl⟩
  · exact .inr ⟨nofun,nofun⟩
  · have plain : '\n' ∉ front := by simpa [IsLine] using isLine
    by_cases newline : last = '\n'
    · exact .inl ⟨front,by simp [newline],plain⟩
    · exact .inr (by simp [newline,plain,Ne.symm newline])

theorem isLine_of_mem_lines {cs line : List Char} (member : line ∈ lines cs) : IsLine line := by
  fun_induction lines cs generalizing line with
  | case1 => cases member
  | case2 c cs newline ih =>
    rcases List.mem_cons.mp member with rfl | member
    · simp [IsLine]
    · exact ih member
  | case3 c cs _ none ih =>
    obtain rfl := List.mem_singleton.mp member
    simp [IsLine]
  | case4 c cs other first rest found ih =>
    rw [found] at ih
    rcases List.mem_cons.mp member with rfl | member
    · have inner : IsLine first := ih List.mem_cons_self
      have different : '\n' ≠ c := fun same => other (beq_iff_eq.mpr same.symm)
      cases first with
      | nil => simp [IsLine]
      | cons d first => simpa [IsLine,different] using inner
    · exact ih (List.mem_cons_of_mem _ member)

theorem lines_append_newline {line : List Char} (plain : '\n' ∉ line) (rest : List Char) :
    lines (line ++ '\n' :: rest) = (line ++ ['\n']) :: lines rest := by
  induction line with
  | nil => simp [lines]
  | cons c line ih =>
    have other : ¬ c = '\n' := fun same => plain (by simp [same])
    simp [lines,other,ih (fun member => plain (List.mem_cons_of_mem _ member))]

theorem lines_flatten {parts : List (List Char)} (ended : ∀ part ∈ parts,Ended part) : lines parts.flatten = parts := by
  induction parts with
  | nil => rfl
  | cons part parts ih =>
    obtain ⟨front,rfl,plain⟩ := ended part List.mem_cons_self
    rw [List.flatten_cons,List.append_assoc,List.singleton_append,lines_append_newline plain,
      ih fun part member => ended part (List.mem_cons_of_mem _ member)]

end ErrorMigration.Text
