import ErrorMigration.Proofs.ImportLine
import ErrorMigration.Proofs.Replacement

/-! Heads of calls. Every call begins with a head, but a head need not begin a call. Quotes, braces and dots stand in
no head, so the heads of a block are those of its message and its details: replacing a call takes one head away and
makes none, and neither does the import line. -/
namespace ErrorMigration

namespace Call

/-- At how many places of a text a head is read. -/
def headCount (cs : List Char) : Nat := cs.tails.countP fun rest => (head? rest).isSome

namespace Head

/-- What stands in a head besides blanks. -/
def letters : List Char := ['t','h','r','o','w','n','e','S','a','d','E','W','p','(']

theorem source_eq_cons (h : Head) : ∃ tail, h.source = 't' :: tail := ⟨_,rfl⟩

theorem getLast?_source (h : Head) : h.source.getLast? = some '(' := by
  rw [source,List.getLast?_concat]

theorem notMem_source (h : Head) {c : Char} (solid : Text.isBlank c = false)
    (other : c ∉ letters) : c ∉ h.source := by
  have inside : deprecatedMarker.toList ⊆ letters := by decide
  have marker : c ∉ deprecatedMarker.toList := fun member => other (inside member)
  simp only [letters,List.mem_cons,not_or] at other
  simp [source,notMem_gap _ solid,marker,other]

theorem marker_infix_source (h : Head) : deprecatedMarker.toList <:+: h.source :=
  (List.suffix_append _ _).isInfix.trans (List.prefix_append _ _).isInfix

end Head

theorem isSome_head?_iff {cs : List Char} : (head? cs).isSome = true ↔ ∃ h : Head, h.source <+: cs := by
  rw [Option.isSome_iff_exists]
  constructor
  · rintro ⟨rest,read⟩
    obtain ⟨h,split⟩ := head?_eq_some_iff.mp read
    exact ⟨h,rest,split.symm⟩
  · rintro ⟨h,rest,split⟩
    exact ⟨rest,head?_eq_some_iff.mpr ⟨h,split.symm⟩⟩

@[simp] theorem headCount_nil : headCount [] = 0 := rfl

theorem headCount_cons (c : Char) (cs : List Char) :
    headCount (c :: cs) = headCount cs + if (head? (c :: cs)).isSome then 1 else 0 := by
  rw [headCount,List.tails_cons,List.countP_cons]
  rfl

theorem headCount_cons_of_ne {c : Char} (other : c ≠ 't') (cs : List Char) : headCount (c :: cs) = headCount cs := by
  have unread : ¬ (head? (c :: cs)).isSome = true := by
    rw [isSome_head?_iff]
    rintro ⟨h,here⟩
    obtain ⟨tail,split⟩ := h.source_eq_cons
    rw [split,List.cons_prefix_cons] at here
    exact other here.1.symm
  rw [headCount_cons,if_neg unread,Nat.add_zero]

section Append

variable {xs ys : List Char}

/-- Texts that no head reaches across have their heads apart. -/
theorem headCount_append (apart : ∀ (h : Head) (tail : List Char), h.source <+: tail ++ ys → h.source <+: tail) :
    headCount (xs ++ ys) = headCount xs + headCount ys := by
  induction xs with
  | nil => simp
  | cons x xs ih =>
    have same : (head? (x :: (xs ++ ys))).isSome = (head? (x :: xs)).isSome := by
      rw [Bool.eq_iff_iff,isSome_head?_iff,isSome_head?_iff]
      constructor
      · rintro ⟨h,here⟩
        exact ⟨h,apart h (x :: xs) here⟩
      · rintro ⟨h,here⟩
        exact ⟨h,here.trans (List.prefix_append (x :: xs) ys)⟩
    rw [List.cons_append,headCount_cons,headCount_cons,same,ih]
    omega

theorem add_headCount_le (xs ys : List Char) : headCount xs + headCount ys ≤ headCount (xs ++ ys) := by
  induction xs with
  | nil => simp
  | cons x xs ih =>
    rw [List.cons_append,headCount_cons,headCount_cons]
    by_cases here : (head? (x :: xs)).isSome = true
    · obtain ⟨h,start⟩ := isSome_head?_iff.mp here
      have longer : (head? (x :: (xs ++ ys))).isSome = true :=
        isSome_head?_iff.mpr ⟨h,start.trans (List.prefix_append (x :: xs) ys)⟩
      rw [if_pos here,if_pos longer]
      omega
    · rw [if_neg here]
      omega

theorem headCount_append_of_notMem_left (absent : 't' ∉ xs) (ys : List Char) :
    headCount (xs ++ ys) = headCount ys := by
  induction xs with
  | nil => rfl
  | cons x xs ih =>
    simp only [List.mem_cons,not_or] at absent
    rw [List.cons_append,headCount_cons_of_ne (fun same => absent.1 same.symm),ih absent.2]

theorem headCount_eq_zero (absent : ¬ deprecatedMarker.toList <:+: xs) : headCount xs = 0 := by
  rw [headCount,List.countP_eq_zero]
  intro tail ends read
  obtain ⟨h,start⟩ := isSome_head?_iff.mp read
  exact absent ((h.marker_infix_source.trans start.isInfix).trans ((List.mem_tails _ _).mp ends).isInfix)

theorem headCount_append_of_notMem_right (xs : List Char) (absent : '(' ∉ ys) :
    headCount (xs ++ ys) = headCount xs := by
  have quiet : headCount ys = 0 := by
    rw [headCount,List.countP_eq_zero]
    intro tail ends read
    obtain ⟨h,start⟩ := isSome_head?_iff.mp read
    have member : '(' ∈ h.source := List.mem_of_getLast? h.getLast?_source
    exact absent (((List.mem_tails _ _).mp ends).subset (start.subset member))
  rw [headCount_append fun h tail found => Text.prefix_of_last_notMem h.getLast?_source absent found,quiet,
    Nat.add_zero]

/-- A character that stands in no head has the heads on its two sides. -/
theorem headCount_append_wall (xs : List Char) {wall : Char} (ys : List Char) (solid : Text.isBlank wall = false)
    (other : wall ∉ Head.letters) :
    headCount (xs ++ wall :: ys) = headCount xs + headCount ys := by
  have letter : wall ≠ 't' := by
    rintro rfl
    exact other (by decide)
  rw [headCount_append fun h tail found =>
    (Text.prefix_append_mark tail ys (h.notMem_source solid other)).mp found,headCount_cons_of_ne letter]

end Append

theorem headCount_trim (cs : List Char) : headCount (Text.trim cs) = headCount cs := by
  obtain ⟨before,after,split⟩ := exists_trim cs
  conv_rhs => rw [split]
  rw [headCount_append_of_notMem_left (notMem_gap before (by decide)),
    headCount_append_of_notMem_right _ (notMem_gap after (by decide))]

/-- What follows a block begins no head with its last line. -/
theorem headCount_throw_error (rest : List Char) :
    headCount ("\n      throw error".toList ++ rest) = headCount rest := by
  have split : "\n      throw error".toList = "\n      ".toList ++ 't' :: "hrow error".toList := by simp
  have unread : head? ('t' :: ("hrow error".toList ++ rest)) = none := rfl
  rw [split,List.append_assoc,headCount_append_of_notMem_left (by decide),List.cons_append,headCount_cons,unread,
    headCount_append_of_notMem_left (by decide)]
  rfl

/-- The block between the characters that stand in no head. -/
theorem replacement_append_walls (codes : CodeTable) (call : Call) (rest : List Char) :
    replacement codes call ++ rest =
      "const error = new Error(".toList ++ '\x27' :: (Text.trim call.message ++ '\x27' ::
        (")\n      error".toList ++ '.' :: ("code = ErrorCodes".toList ++ '.' ::
          (((codes.resolve (String.ofList (Text.trim call.code))).toList ++ "\n      error".toList) ++ '.' ::
            ("details = ".toList ++ '\x7b' :: (' ' :: (Text.trim call.details ++ [' ']) ++ '\x7d' ::
              ("\n      throw error".toList ++ rest))))))) := by
  have opening : "const error = new Error('".toList = "const error = new Error(".toList ++ ['\x27'] := by
    simp
  have code : "')\n      error.code = ErrorCodes.".toList =
      '\x27' :: (")\n      error".toList ++ '.' :: ("code = ErrorCodes".toList ++ ['.'])) := by simp
  have details : "\n      error.details = \x7b ".toList =
      "\n      error".toList ++ '.' :: ("details = ".toList ++ '\x7b' :: [' ']) := by simp
  have closing : " \x7d\n      throw error".toList = [' '] ++ '\x7d' :: "\n      throw error".toList := by
    simp
  unfold replacement
  rewrite [opening,code,details,closing]
  simp only [List.append_assoc,List.cons_append,List.nil_append]

/-- The heads of a block are those of its message and its details. -/
theorem headCount_replacement {codes : CodeTable} (merged : codes.IsMerged) (call : Call) (rest : List Char) :
    headCount (replacement codes call ++ rest) =
      headCount call.message + headCount call.details + headCount rest := by
  have quote (xs ys : List Char) : headCount (xs ++ '\x27' :: ys) = headCount xs + headCount ys :=
    headCount_append_wall xs ys (by decide) (by decide)
  have dot (xs ys : List Char) : headCount (xs ++ '.' :: ys) = headCount xs + headCount ys :=
    headCount_append_wall xs ys (by decide) (by decide)
  have opening (xs ys : List Char) : headCount (xs ++ '\x7b' :: ys) = headCount xs + headCount ys :=
    headCount_append_wall xs ys (by decide) (by decide)
  have closing (xs ys : List Char) : headCount (xs ++ '\x7d' :: ys) = headCount xs + headCount ys :=
    headCount_append_wall xs ys (by decide) (by decide)
  have code :
      headCount ((codes.resolve (String.ofList (Text.trim call.code))).toList ++ "\n      error".toList) = 0 := by
    have identifier := CodeTable.isIdentifier_resolve merged (String.ofList (Text.trim call.code))
    rw [headCount_append_of_notMem_right _ (by decide)]
    exact headCount_append_of_notMem_right [] (CodeTable.notMem_of_isIdentifier identifier (by decide))
  have details : headCount (' ' :: (Text.trim call.details ++ [' '])) = headCount call.details := by
    rw [headCount_cons_of_ne (by decide),headCount_append_of_notMem_right _ (by decide),headCount_trim]
  have fixed : headCount "const error = new Error(".toList = 0 ∧ headCount ")\n      error".toList = 0 ∧
      headCount "code = ErrorCodes".toList = 0 ∧ headCount "details = ".toList = 0 := by decide +kernel
  rewrite [replacement_append_walls,quote,quote,dot,dot,dot,opening,closing,headCount_trim,code,details,
    headCount_throw_error]
  omega

theorem Head.headCount_lt (h : Head) (rest : List Char) : headCount rest < headCount (h.source ++ rest) := by
  obtain ⟨tail,split⟩ := h.source_eq_cons
  have read : (head? ('t' :: (tail ++ rest))).isSome = true := by
    rw [← List.cons_append,← split,h.head?_source,Option.isSome_some]
  have later := add_headCount_le tail rest
  rw [split,List.cons_append,headCount_cons,if_pos read]
  omega

/-- A call has its own head besides those of its message and its details. -/
theorem Spelling.headCount_source (s : Spelling) (rest : List Char) :
    headCount s.call.message + headCount s.call.details + headCount rest < headCount (s.source ++ rest) := by
  obtain ⟨first,second,third,split⟩ : ∃ first second third, s.source ++ rest =
      s.head ++ (first ++ (s.call.message ++ (second ++ (s.call.details ++ (third ++ rest))))) := by
    refine ⟨s.beforeCode.val ++ s.code.source ++ s.afterCode.val ++ [','] ++ s.beforeMessage.val ++
        [s.message.opening],s.message.closing :: (s.afterMessage.val ++ [','] ++ s.beforeDetails.val ++ ['\x7b']),
      '\x7d' :: (s.afterDetails.val ++ [')']),?_⟩
    simp [source,call,Literal.source]
  have own := s.lead.headCount_lt
    (first ++ (s.call.message ++ (second ++ (s.call.details ++ (third ++ rest)))))
  have behindCode := add_headCount_le first (s.call.message ++ (second ++ (s.call.details ++ (third ++ rest))))
  have message := add_headCount_le s.call.message (second ++ (s.call.details ++ (third ++ rest)))
  have behindMessage := add_headCount_le second (s.call.details ++ (third ++ rest))
  have details := add_headCount_le s.call.details (third ++ rest)
  have behindDetails := add_headCount_le third rest
  rw [split,s.head_eq]
  omega

end Call

namespace CallSite

open Call (headCount)

variable {codes : CodeTable}

/-- Replacing the calls takes away a head for each of them. -/
theorem headCount_replaceAll_add_count (merged : codes.IsMerged) (cs : List Char) :
    headCount (replaceAll codes cs) + count cs ≤ headCount cs := by
  induction cs using Segment.induction_on with
  | nil => simp
  | call s rest ih =>
    have own := s.headCount_source rest
    rw [replaceAll_source,Call.headCount_replacement merged,count_source]
    omega
  | plain c cs unread ih =>
    by_cases here : (Call.head? (c :: replaceAll codes cs)).isSome = true
    · -- no block begins within a head, so the head stood there before
      obtain ⟨h,start⟩ := Call.isSome_head?_iff.mp here
      have foreign : Foreign h.source := foreign_of_notMem (h.notMem_source (by decide) (by decide))
      rw [← replaceAll_plain unread] at start
      have before := Call.isSome_head?_iff.mpr ⟨h,prefix_of_prefix_replaceAll foreign start⟩
      rw [replaceAll_plain unread,count_plain unread,Call.headCount_cons,Call.headCount_cons,if_pos here,if_pos before]
      omega
    · rw [replaceAll_plain unread,count_plain unread,Call.headCount_cons,Call.headCount_cons,if_neg here]
      omega

theorem count_le_headCount (cs : List Char) : count cs ≤ headCount cs := by
  have merged : CodeTable.builtin.IsMerged := ⟨[],rfl⟩
  exact Nat.le_of_add_left_le (headCount_replaceAll_add_count merged cs)

end CallSite

namespace ImportLine

open Call (headCount)

/-- The import line has no head, and none reaches across it. -/
theorem headCount_ensure (cs : List Char) : headCount (ensure cs) ≤ headCount cs := by
  cases found : insertion? cs with
  | none => rw [ensure_of_no_insertion found]
  | some i =>
    obtain ⟨whole,grown⟩ := ensure_of_insertion? found
    obtain ⟨indent,ending,ends,added⟩ := exists_added_eq i
    have declared : codesDeclaration =
        'c' :: ("onst \x7b ErrorCodes \x7d = require('src/core/errors/ErrorCodes".toList ++ ['\x27',')']) := by
      decide +kernel
    have fixed : headCount "onst \x7b ErrorCodes \x7d = require('src/core/errors/ErrorCodes".toList = 0 := by
      decide +kernel
    have split : i.above ++ (i.added ++ i.below) = (i.above ++ '\n' :: indent.val) ++ 'c' ::
        ("onst \x7b ErrorCodes \x7d = require('src/core/errors/ErrorCodes".toList ++ '\x27' ::
          (')' :: ending ++ i.below)) := by
      rewrite [added,declared]
      simp only [List.append_assoc,List.cons_append,List.nil_append]
    have blank : '(' ∉ '\n' :: indent.val := by simp [Call.notMem_gap indent (c := '(') (by decide)]
    have closing : 't' ∉ ')' :: ending := by
      intro member
      rcases List.mem_cons.mp member with letter | letter
      · exact absurd letter (by decide)
      · exact absurd (ends letter) (by decide)
    have parts := Call.add_headCount_le i.above i.below
    rewrite [grown,split,Call.headCount_append_wall _ _ (by decide) (by decide),
      Call.headCount_append_of_notMem_right _ blank,Call.headCount_append_wall _ _ (by decide) (by decide),fixed,
      Call.headCount_append_of_notMem_left closing,Nat.zero_add,whole]
    exact parts

end ImportLine

end ErrorMigration
