import ErrorMigration.Patch
import ErrorMigration.Proofs.Diff.Hunk
import ErrorMigration.Proofs.Text.Digits
import ErrorMigration.Proofs.Text.Lines
import ErrorMigration.Proofs.Text.Search

/-! A patch can be read. The reader knows hunk headers, marked lines, a bare newline as a blank line of context and the
note behind a line without a newline; it finds in the section of a file the very hunks that were written there, and
these lead from the text before to the text after. -/
namespace ErrorMigration.Patch

open Diff

section Reader

def readNumber? (digits : List Char) : Option Nat :=
  if digits ≠ [] ∧ digits.all Char.isDigit then some (Text.numberOf digits) else none

/-- First line, counted from zero, and number of lines. -/
def readRange? (text : List Char) : Option (Nat × Nat) :=
  match Text.cut? ',' text with
  | none => do
    let line ← readNumber? text
    if line = 0 then none else some (line - 1,1)
  | some (first,size) => do
    let line ← readNumber? first
    let count ← readNumber? size
    if count = 0 then some (line,0) else if line = 0 then none else some (line - 1,count)

def readHeader? (line : List Char) : Option ((Nat × Nat) × (Nat × Nat)) := do
  let line ← Text.skip? "@@ -".toList line
  let (old,line) ← Text.cut? ' ' line
  let line ← Text.skip? "+".toList line
  let (new,line) ← Text.cut? ' ' line
  guard (line = "@@\n".toList)
  return (← readRange? old,← readRange? new)

def readEntry? : List Char → Option (Mark × List Char)
  | ['\n'] => some (.context,['\n'])
  | ' ' :: line => some (.context,line)
  | '-' :: line => some (.removed,line)
  | '+' :: line => some (.added,line)
  | _ => none

def note : List Char := "\\ No newline at end of file\n".toList

/-- Take the newline from each line that is followed by the note, and the note. -/
def honourNotes : List (List Char) → List (List Char)
  | line :: next :: lines =>
    if next = note then line.dropLast :: honourNotes lines else line :: honourNotes (next :: lines)
  | lines => lines

/-- The marked lines up to the first header, and the hunks from there on. -/
def readLines? : List (List Char) → Option (List (Mark × List Char) × List (Hunk (List Char)))
  | [] => some ([],[])
  | line :: lines => do
    let (body,hunks) ← readLines? lines
    match readEntry? line with
    | some entry => some (entry :: body,hunks)
    | none =>
      let (old,new) ← readHeader? line
      some ([],⟨old.1,old.2,new.1,new.2,body⟩ :: hunks)

def readHunks? (text : List Char) : Option (List (Hunk (List Char))) :=
  match readLines? (honourNotes (Text.lines text)) with
  | some ([],hunks) => some hunks
  | _ => none

end Reader

section Ranges

theorem readNumber?_toDigits (n : Nat) : readNumber? (Nat.toDigits 10 n) = some n := by
  have all : (Nat.toDigits 10 n).all Char.isDigit = true := List.all_eq_true.mpr fun _ => Text.isDigit_of_mem_toDigits
  rw [readNumber?,if_pos ⟨Nat.toDigits_ne_nil,all⟩,Text.numberOf_toDigits]

theorem notMem_toDigits {n : Nat} {c : Char} (other : c.isDigit = false) : c ∉ Nat.toDigits 10 n := by
  intro member
  rw [Text.isDigit_of_mem_toDigits member] at other
  cases other

theorem cut?_eq_none {c : Char} {cs : List Char} (absent : c ∉ cs) : Text.cut? c cs = none := by
  rw [Option.eq_none_iff_forall_ne_some]
  rintro ⟨before,rest⟩ found
  exact absent (by simp [(Text.cut?_eq_some_iff.mp found).1])

theorem rangeText_toList (start count : Nat) : (rangeText start count).toList =
    if count = 1 then Nat.toDigits 10 (start + 1)
    else Nat.toDigits 10 (if count = 0 then start else start + 1) ++ ',' :: Nat.toDigits 10 count := by
  have comma : (toString ",").toList = [','] := rfl
  have none : (toString ",0").toList = [',','0'] := rfl
  unfold rangeText
  split
  · simp
  · split
    · rename_i empty
      subst empty
      simp [none]
    · simp [comma]

theorem readRange?_rangeText (start count : Nat) : readRange? (rangeText start count).toList = some (start,count) := by
  have comma {n : Nat} : ',' ∉ Nat.toDigits 10 n := notMem_toDigits rfl
  rw [rangeText_toList]
  by_cases single : count = 1
  · subst single
    simp [readRange?,cut?_eq_none comma,readNumber?_toDigits]
  · rw [if_neg single,readRange?,Text.cut?_eq_some_iff.mpr ⟨rfl,comma⟩]
    simp only [readNumber?_toDigits,Option.bind_eq_bind,Option.bind_some]
    by_cases empty : count = 0 <;> simp [empty]

/-- A range has digits and perhaps a comma. -/
theorem notMem_rangeText {c : Char} (other : c.isDigit = false) (noComma : c ≠ ',') (start count : Nat) :
    c ∉ (rangeText start count).toList := by
  rw [rangeText_toList]
  split
  · exact notMem_toDigits other
  · simp only [List.mem_append,List.mem_cons,not_or]
    exact ⟨notMem_toDigits other,noComma,notMem_toDigits other⟩

end Ranges

section Lines

def headerLine (hunk : Hunk (List Char)) : List Char :=
  s!"@@ -{rangeText hunk.oldStart hunk.oldCount} +{rangeText hunk.newStart hunk.newCount} @@\n".toList

theorem headerLine_eq (hunk : Hunk (List Char)) : headerLine hunk = "@@ -".toList ++
    ((rangeText hunk.oldStart hunk.oldCount).toList ++ ' ' :: ("+".toList ++
      ((rangeText hunk.newStart hunk.newCount).toList ++ ' ' :: "@@\n".toList))) := by
  simp [headerLine,toString]

theorem ended_headerLine (hunk : Hunk (List Char)) : Text.Ended (headerLine hunk) := by
  have oldRange := notMem_rangeText (c := '\n') rfl (by decide) hunk.oldStart hunk.oldCount
  have newRange := notMem_rangeText (c := '\n') rfl (by decide) hunk.newStart hunk.newCount
  refine ⟨"@@ -".toList ++ ((rangeText hunk.oldStart hunk.oldCount).toList ++ " +".toList ++
    ((rangeText hunk.newStart hunk.newCount).toList ++ " @@".toList)),?_,?_⟩
  · simp [headerLine_eq]
  · simp [oldRange,newRange]

theorem readHeader?_headerLine (hunk : Hunk (List Char)) :
    readHeader? (headerLine hunk) = some ((hunk.oldStart,hunk.oldCount),(hunk.newStart,hunk.newCount)) := by
  rw [headerLine_eq,readHeader?,Text.skip?_eq_some_iff.mpr rfl]
  simp only [Option.bind_eq_bind,Option.bind_some]
  rw [Text.cut?_eq_some_iff.mpr ⟨rfl,notMem_rangeText rfl (by decide) _ _⟩]
  simp only [Option.bind_some]
  rw [Text.skip?_eq_some_iff.mpr rfl]
  simp only [Option.bind_some]
  rw [Text.cut?_eq_some_iff.mpr ⟨rfl,notMem_rangeText rfl (by decide) _ _⟩]
  simp [readRange?_rangeText]

def entryLine (entry : Mark × List Char) : List Char :=
  if entry = (.context,['\n']) then ['\n'] else Mark.char entry.1 :: entry.2

def entryLines (entry : Mark × List Char) : List (List Char) :=
  if entry.2.getLast? = some '\n' then [entryLine entry] else [entryLine entry ++ ['\n'],note]

theorem missingNewline_eq : missingNewline = '\n' :: note := by decide

theorem flatten_entryLines (entry : Mark × List Char) : (entryLines entry).flatten = lineText entry := by
  by_cases blank : entry = (.context,['\n'])
  · simp [blank,entryLines,entryLine,lineText]
  · by_cases ended : entry.2.getLast? = some '\n' <;>
      simp [entryLines,entryLine,lineText,blank,ended,missingNewline_eq]

theorem ended_note : Text.Ended note := ⟨note.dropLast,by decide,by decide⟩

theorem ended_entryLines {entry : Mark × List Char} (isLine : Text.IsLine entry.2) {part : List Char}
    (member : part ∈ entryLines entry) : Text.Ended part := by
  obtain ⟨mark,line⟩ := entry
  have other : '\n' ≠ Mark.char mark := by cases mark <;> decide
  rcases isLine.cases with ⟨front,rfl,plain⟩ | ⟨open',plain⟩
  · obtain rfl : part = entryLine (mark,front ++ ['\n']) := by simpa [entryLines] using member
    unfold entryLine
    split
    · exact ⟨[],rfl,nofun⟩
    · exact ⟨Mark.char mark :: front,rfl,by simp [other,plain]⟩
  · have unblank : (mark,line) ≠ (.context,['\n']) := by
      rintro ⟨rfl,rfl⟩
      exact open' rfl
    simp only [entryLines,if_neg open',List.mem_cons,List.not_mem_nil,or_false] at member
    rcases member with rfl | rfl
    · exact ⟨entryLine (mark,line),rfl,by simp [entryLine,unblank,other,plain]⟩
    · exact ended_note

theorem readEntry?_entryLine (entry : Mark × List Char) : readEntry? (entryLine entry) = some entry := by
  unfold entryLine
  split
  · rename_i blank
    rw [blank]
    rfl
  · obtain ⟨mark,line⟩ := entry
    cases mark <;> rfl

theorem note_head? : note.head? = some '\\' := by decide

theorem entryLine_cons (entry : Mark × List Char) : ∃ c line,entryLine entry = c :: line ∧ c ≠ '\\' := by
  unfold entryLine
  split
  · exact ⟨'\n',[],rfl,by decide⟩
  · refine ⟨Mark.char entry.1,entry.2,rfl,?_⟩
    cases entry.1 <;> decide

/-- Every line of a hunk tells by its first character that it is not the note. -/
theorem entryLine_append_ne_note (entry : Mark × List Char) (more : List Char) : entryLine entry ++ more ≠ note := by
  obtain ⟨c,line,starts,other⟩ := entryLine_cons entry
  intro same
  have first := congrArg List.head? same
  rw [starts,note_head?] at first
  exact other (Option.some.inj first)

theorem headerLine_head? (hunk : Hunk (List Char)) : (headerLine hunk).head? = some '@' := by
  rw [headerLine_eq]
  rfl

theorem readEntry?_headerLine (hunk : Hunk (List Char)) : readEntry? (headerLine hunk) = none := by
  rw [headerLine_eq]
  rfl

theorem honourNotes_cons {line : List Char} {lines : List (List Char)} (other : lines.head? ≠ some note) :
    honourNotes (line :: lines) = line :: honourNotes lines := by
  cases lines with
  | nil => rfl
  | cons next lines => rw [honourNotes,if_neg (by simpa using other)]

theorem honourNotes_entryLines (entry : Mark × List Char) {lines : List (List Char)} (other : lines.head? ≠ some note) :
    honourNotes (entryLines entry ++ lines) = entryLine entry :: honourNotes lines := by
  unfold entryLines
  split
  · exact honourNotes_cons other
  · rw [List.cons_append,List.cons_append,List.nil_append,honourNotes,if_pos rfl,List.dropLast_concat]

theorem head?_entryLines (entry : Mark × List Char) (lines : List (List Char)) :
    (entryLines entry ++ lines).head? ≠ some note := by
  unfold entryLines
  split
  · simpa using entryLine_append_ne_note entry []
  · simpa using entryLine_append_ne_note entry ['\n']

theorem honourNotes_body (body : List (Mark × List Char)) {lines : List (List Char)} (other : lines.head? ≠ some note) :
    honourNotes (body.flatMap entryLines ++ lines) = body.map entryLine ++ honourNotes lines ∧
      (body.flatMap entryLines ++ lines).head? ≠ some note := by
  induction body with
  | nil => exact ⟨rfl,other⟩
  | cons entry body ih =>
    rw [List.flatMap_cons,List.append_assoc]
    exact ⟨by rw [honourNotes_entryLines entry ih.2,ih.1]; rfl,head?_entryLines entry _⟩

def hunkLines (hunk : Hunk (List Char)) : List (List Char) := headerLine hunk :: hunk.body.flatMap entryLines

theorem flatten_hunkLines (hunk : Hunk (List Char)) : (hunkLines hunk).flatten = hunkText hunk := by
  have body : (hunk.body.flatMap entryLines).flatten = hunk.body.flatMap lineText := by
    simp [List.flatMap_def,List.flatten_flatten,Function.comp_def,flatten_entryLines]
  simp only [hunkLines,List.flatten_cons,body]
  rfl

theorem ended_hunkLines {hunk : Hunk (List Char)} (isLine : ∀ entry ∈ hunk.body,Text.IsLine entry.2) {part : List Char}
    (member : part ∈ hunkLines hunk) : Text.Ended part := by
  rcases List.mem_cons.mp member with rfl | member
  · exact ended_headerLine hunk
  · obtain ⟨entry,inside,member⟩ := List.mem_flatMap.mp member
    exact ended_entryLines (isLine entry inside) member

theorem head?_hunkLines (hunks : List (Hunk (List Char))) : (hunks.flatMap hunkLines).head? ≠ some note := by
  cases hunks with
  | nil => nofun
  | cons hunk hunks =>
    intro same
    have same : headerLine hunk = note := by simpa [hunkLines] using same
    have first := headerLine_head? hunk
    rw [same,note_head?] at first
    cases first

theorem readLines?_body (body : List (Mark × List Char)) {lines : List (List Char)} {rest : List (Mark × List Char)}
    {hunks : List (Hunk (List Char))} (read : readLines? lines = some (rest,hunks)) :
    readLines? (body.map entryLine ++ lines) = some (body ++ rest,hunks) := by
  induction body with
  | nil => exact read
  | cons entry body ih => simp [readLines?,ih,readEntry?_entryLine]

theorem readLines?_hunkLines (hunks : List (Hunk (List Char))) :
    readLines? (honourNotes (hunks.flatMap hunkLines)) = some ([],hunks) := by
  induction hunks with
  | nil => rfl
  | cons hunk hunks ih =>
    obtain ⟨honoured,other⟩ := honourNotes_body hunk.body (head?_hunkLines hunks)
    rw [List.flatMap_cons,hunkLines,List.cons_append,honourNotes_cons other,honoured,readLines?,
      readLines?_body hunk.body ih]
    simp [readEntry?_headerLine,readHeader?_headerLine]

theorem flatMap_hunkText (hunks : List (Hunk (List Char))) :
    hunks.flatMap hunkText = (hunks.flatMap hunkLines).flatten := by
  simp [List.flatMap_def,List.flatten_flatten,Function.comp_def,flatten_hunkLines]

variable {hunks : List (Hunk (List Char))} (isLine : ∀ hunk ∈ hunks,∀ entry ∈ hunk.body,Text.IsLine entry.2)

include isLine

theorem ended_of_mem_hunkLines {part : List Char} (member : part ∈ hunks.flatMap hunkLines) :
    Text.Ended part := by
  obtain ⟨hunk,inside,member⟩ := List.mem_flatMap.mp member
  exact ended_hunkLines (isLine hunk inside) member

/-- Hunks are read as they were written. -/
theorem readHunks?_hunkText : readHunks? (hunks.flatMap hunkText) = some hunks := by
  rw [flatMap_hunkText,readHunks?,Text.lines_flatten fun _ => ended_of_mem_hunkLines isLine,readLines?_hunkLines]

theorem getLast?_hunkText (filled : hunks ≠ []) : (hunks.flatMap hunkText).getLast? = some '\n' := by
  have some : hunks.flatMap hunkLines ≠ [] := by
    obtain ⟨hunk,others,rfl⟩ := List.exists_cons_of_ne_nil filled
    simp [hunkLines]
  obtain ⟨parts,part,isLast⟩ := (List.eq_nil_or_concat _).resolve_left some
  have member : part ∈ hunks.flatMap hunkLines := by simp [isLast]
  obtain ⟨front,rfl,_⟩ := ended_of_mem_hunkLines isLine member
  rw [flatMap_hunkText,isLast]
  simp

end Lines

section Cut

def splitOnce? (word : List Char) : List Char → Option (List Char × List Char)
  | [] => none
  | c :: cs =>
    match Text.skip? word (c :: cs) with
    | some rest => some ([],rest)
    | none => (splitOnce? word cs).map fun p => (c :: p.1,p.2)

def cutHunks (body : List Char) : List Char :=
  match splitOnce? "\n@@".toList body with
  | some (_,rest) => "@@".toList ++ rest
  | none => []

def closed (text : List Char) : List Char := if text.getLast? = some '\n' then text else text ++ ['\n']

/-- A name that takes no more than a line. -/
abbrev Label := { label : List Char // '\n' ∉ label }

def ownHeader (old new : Label) : List Char :=
  ['-','-','-',' '] ++ old.val ++ '\n' :: (['+','+','+',' '] ++ new.val) ++ ['\n']

theorem splitOnce?_found {word cs rest : List Char} {c : Char} (found : Text.skip? word (c :: cs) = some rest) :
    splitOnce? word (c :: cs) = some ([],rest) := by rw [splitOnce?,found]

theorem splitOnce?_passed {word cs : List Char} {c : Char} (other : Text.skip? word (c :: cs) = none) :
    splitOnce? word (c :: cs) = (splitOnce? word cs).map fun p => (c :: p.1,p.2) := by rw [splitOnce?,other]

theorem splitOnce?_append {word front : List Char} {c : Char} (first : word.head? = some c) (absent : c ∉ front)
    (cs : List Char) : splitOnce? word (front ++ cs) = (splitOnce? word cs).map fun p => (front ++ p.1,p.2) := by
  obtain ⟨word,rfl⟩ : ∃ tail,word = c :: tail := ⟨word.tail,(List.cons_head?_tail first).symm⟩
  induction front with
  | nil => simp
  | cons d front ih =>
    simp only [List.mem_cons,not_or] at absent
    have other : Text.skip? (c :: word) (d :: (front ++ cs)) = none := by simp [Text.skip?,absent.1]
    rw [List.cons_append,splitOnce?_passed other,ih absent.2,Option.map_map]
    rfl

theorem cutHunks_ownHeader (old new : Label) (rest : List Char) :
    cutHunks (ownHeader old new ++ ("@@".toList ++ rest)) = "@@".toList ++ rest := by
  have oldLine : '\n' ∉ ['-','-','-',' '] ++ old.val := by simpa using old.property
  have newLine : '\n' ∉ ['+','+','+',' '] ++ new.val := by simpa using new.property
  have lines : ownHeader old new ++ ("@@".toList ++ rest) = ['-','-','-',' '] ++ old.val ++
      '\n' :: (['+','+','+',' '] ++ new.val ++ '\n' :: '@' :: '@' :: rest) := by
    simp [ownHeader]
  have second : Text.skip? "\n@@".toList
      ('\n' :: (['+','+','+',' '] ++ new.val ++ '\n' :: '@' :: '@' :: rest)) = none := rfl
  have third : Text.skip? "\n@@".toList ('\n' :: '@' :: '@' :: rest) = some rest := rfl
  rw [cutHunks,lines,splitOnce?_append rfl oldLine,splitOnce?_passed second,splitOnce?_append rfl newLine,
    splitOnce?_found third]
  rfl

end Cut

section Section

def hunksText (change : FileChange) : List Char :=
  (hunks (Text.lines change.before) (Text.lines change.after)).flatMap hunkText

theorem isLine_hunks (before after : List Char) :
    ∀ hunk ∈ hunks (Text.lines before) (Text.lines after),∀ entry ∈ hunk.body,Text.IsLine entry.2 := by
  intro hunk inside entry member
  rcases ((tiled_hunks _ _).fits hunk inside).mem member with line | line <;> exact Text.isLine_of_mem_lines line

theorem hunks_ne_nil_of_ne {before after : List Char} (changed : before ≠ after) :
    hunks (Text.lines before) (Text.lines after) ≠ [] := hunks_ne_nil (Text.lines_injective.ne changed)

theorem hunksText_starts {change : FileChange} (changed : change.before ≠ change.after) :
    ∃ rest,hunksText change = "@@".toList ++ rest := by
  obtain ⟨hunk,others,isCons⟩ := List.exists_cons_of_ne_nil (hunks_ne_nil_of_ne changed)
  rw [hunksText,isCons,List.flatMap_cons,← flatten_hunkLines,hunkLines,List.flatten_cons,headerLine_eq]
  exact ⟨_,rfl⟩

/-- What is cut from a body with a header of its own is that header and never part of a hunk. -/
theorem closed_cutHunks {change : FileChange} (changed : change.before ≠ change.after) (header : List Char)
    (old new : Label) :
    closed (header ++ cutHunks (ownHeader old new ++ hunksText change)) = header ++ hunksText change := by
  obtain ⟨rest,starts⟩ := hunksText_starts changed
  have ends := getLast?_hunkText (isLine_hunks change.before change.after) (hunks_ne_nil_of_ne changed)
  rw [starts,cutHunks_ownHeader,← starts,closed,if_pos]
  rw [List.getLast?_append,hunksText,ends]
  rfl

/-- A patch is faithful. It has one section for each file that changed, in order, and none for another. A section has
the header lines of its path and then at least one hunk, and the hunks that are read from it lead from the text before
to the text after. What is cut from a body with a header of its own is never part of a hunk. -/
theorem render_faithful (xs ys : List FileChange) (change : FileChange) :
    render (xs ++ ys) = render xs ++ render ys ∧
      (change.before = change.after ∧ render [change] = [] ∨
        change.before ≠ change.after ∧ ∃ header body read,render [change] = header ++ body ∧
          header = ("diff --git a/" ++ change.path.spelling ++ " b/" ++ change.path.spelling ++ "\n").toList ++
            ("--- a/" ++ change.path.spelling ++ "\n").toList ++ ("+++ b/" ++ change.path.spelling ++ "\n").toList ∧
          readHunks? body = some read ∧ read ≠ [] ∧
          (applyHunks read 0 0 (Text.lines change.before)).map List.flatten = some change.after ∧
          ∀ old new : Label,render [change] = closed (header ++ cutHunks (ownHeader old new ++ body))) := by
  refine ⟨List.flatMap_append,?_⟩
  by_cases same : change.before = change.after
  · exact .inl ⟨same,by simp [render,fileSection,same]⟩
  · have written : render [change] = headerText change.path ++ hunksText change := by
      simp [render,fileSection,same,hunksText]
    refine .inr ⟨same,headerText change.path,hunksText change,hunks _ _,written,?_,
      readHunks?_hunkText (isLine_hunks _ _),hunks_ne_nil_of_ne same,?_,?_⟩
    · simp [headerText,toString]
    · rw [applyHunks_hunks,Option.map_some,Text.flatten_lines]
    · intro old new
      rw [written,closed_cutHunks same]

end Section

end ErrorMigration.Patch
