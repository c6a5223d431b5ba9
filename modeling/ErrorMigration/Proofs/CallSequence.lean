import ErrorMigration.Proofs.CallHead

/-! Calls one after the other. No head of a call can begin in a text without the marker and end in the call behind it,
since a head has only one `th`, its first two letters. So the calls of a text that are apart by such texts are found as
they were written, whatever they hold between their quotes and braces, and each is replaced for itself. -/
namespace ErrorMigration

def Quiet : Type := { cs : List Char // containsMarker cs = false }

theorem containsMarker_tail {c : Char} {cs : List Char} (quiet : containsMarker (c :: cs) = false) :
    containsMarker cs = false := (Bool.or_eq_false_iff.mp quiet).2

namespace Call

theorem Head.not_infix_tail {h : Head} {tail : List Char} (split : h.source = 't' :: tail) : ¬ ['t','h'] <:+: tail := by
  obtain rfl : tail = 'h' :: (['r','o','w'] ++ h.afterThrow.val ++ ['n','e','w'] ++ h.afterNew.val ++
    deprecatedMarker.toList ++ ['(']) := (List.cons.inj split).2.symm
  have marker : 'h' ∉ deprecatedMarker.toList := by decide
  have letter : 'h' ∉ ['r','o','w'] ++ h.afterThrow.val ++ ['n','e','w'] ++ h.afterNew.val ++
      deprecatedMarker.toList ++ ['('] := by
    simp [notMem_gap _ (show Text.isBlank 'h' = false by decide),marker]
  intro found
  rcases List.infix_cons_iff.mp found with here | later
  · exact absurd (List.cons_prefix_cons.mp here).1 (by decide)
  · exact letter (later.subset (by simp))

/-- A head that begins in a text without the marker does not reach into a call behind it. -/
theorem Head.not_prefix_of_quiet (h : Head) {cs : List Char} (filled : cs ≠ []) (quiet : containsMarker cs = false)
    (s : Spelling) (rest : List Char) : ¬ h.source <+: cs ++ (s.source ++ rest) := by
  intro found
  rw [containsMarker,Text.occursIn_eq_false_iff] at quiet
  rcases List.prefix_or_prefix_of_prefix found (List.prefix_append cs _) with within | ⟨beyond,split⟩
  · exact quiet (h.marker_infix_source.trans within.isInfix)
  · rw [← split,List.prefix_append_right_inj] at found
    obtain ⟨tail,start⟩ := s.exists_source_eq
    rw [start] at found
    have last := h.getLast?_source
    rw [← split,List.getLast?_append] at last
    obtain ⟨first,others,rfl⟩ := List.exists_cons_of_ne_nil filled
    rcases beyond with _ | ⟨x,_ | ⟨y,more⟩⟩
    · rw [List.append_nil] at split
      exact quiet (split ▸ h.marker_infix_source)
    · obtain rfl := (List.cons_prefix_cons.mp found).1
      simp at last
    · obtain ⟨rfl,next⟩ := List.cons_prefix_cons.mp found
      obtain rfl := (List.cons_prefix_cons.mp next).1
      obtain ⟨letters,begun⟩ := h.source_eq_cons
      have same := begun
      rw [← split,List.cons_append,List.cons.injEq] at same
      exact Head.not_infix_tail begun (same.2 ▸ ⟨others,more,by simp⟩)

theorem exists_head_of_scan? {cs : List Char} {found : Call × List Char} (read : scan? cs = some found) :
    ∃ h : Head, h.source <+: cs := by
  obtain ⟨s,_,split⟩ := scan?_eq_some_iff.mp read
  refine ⟨s.lead,?_⟩
  rw [split,← s.head_eq,Spelling.source]
  simp only [List.append_assoc]
  exact List.prefix_append _ _

end Call

namespace Segment

/-- A text without the marker is read character by character. -/
theorem scan_quiet {cs : List Char} (quiet : containsMarker cs = false) : scan cs = cs.map .plain := by
  induction cs with
  | nil => rfl
  | cons c cs ih =>
    have unread : Call.scan? (c :: cs) = none := by
      by_contra read
      obtain ⟨found,read⟩ := Option.ne_none_iff_exists'.mp read
      obtain ⟨h,here⟩ := Call.exists_head_of_scan? read
      exact Text.occursIn_eq_false_iff.mp quiet (h.marker_infix_source.trans here.isInfix)
    rw [scan_plain unread,ih (containsMarker_tail quiet),List.map_cons]

/-- Behind a text without the marker a call is read as it was written. -/
theorem scan_quiet_append {cs : List Char} (quiet : containsMarker cs = false) (s : Call.Spelling) (rest : List Char) :
    scan (cs ++ (s.source ++ rest)) = cs.map .plain ++ .call s.source s.call :: scan rest := by
  induction cs with
  | nil => exact scan_source s rest
  | cons c cs ih =>
    have unread : Call.scan? (c :: (cs ++ (s.source ++ rest))) = none := by
      by_contra read
      obtain ⟨found,read⟩ := Option.ne_none_iff_exists'.mp read
      obtain ⟨h,here⟩ := Call.exists_head_of_scan? read
      exact h.not_prefix_of_quiet (by simp) quiet s rest here
    rw [List.cons_append,scan_plain unread,ih (containsMarker_tail quiet)]
    rfl

end Segment

/-- Calls in a row, each with the text that follows it, written out with the given text for each call. -/
def woven (write : Call.Spelling → List Char) (parts : List (Call.Spelling × Quiet)) : List Char :=
  parts.flatMap fun part => write part.1 ++ part.2.val

def wovenSegments (parts : List (Call.Spelling × Quiet)) : List Segment :=
  parts.flatMap fun part => .call part.1.source part.1.call :: part.2.val.map .plain

theorem Segment.scan_woven (front : Quiet) (parts : List (Call.Spelling × Quiet)) :
    scan (front.val ++ woven Call.Spelling.source parts) = front.val.map .plain ++ wovenSegments parts := by
  induction parts generalizing front with
  | nil => simpa [woven,wovenSegments] using scan_quiet front.property
  | cons part parts ih =>
    have later := ih part.2
    simp only [woven,wovenSegments,List.flatMap_cons,List.append_assoc] at later ⊢
    rw [scan_quiet_append front.property,later]
    rfl

/-- The four lines that stand for a call, with its arguments as they are without the blanks around them. -/
def Call.Spelling.blockLines (codes : CodeTable) (s : Call.Spelling) : List (List Char) :=
  ["const error = new Error('".toList ++ Text.trim s.message.text ++ "')".toList,
   "      error.code = ErrorCodes.".toList ++
     ((codes.get? (String.ofList (Text.trim s.code.text))).getD "UNKNOWN_ERROR").toList,
   "      error.details = \x7b ".toList ++ Text.trim s.details ++ " \x7d".toList,
   "      throw error".toList]

def Call.Spelling.block (codes : CodeTable) (s : Call.Spelling) : List Char := Text.glue '\n' (s.blockLines codes)

namespace CallSite

theorem replacement_eq_block (codes : CodeTable) (s : Call.Spelling) :
    Call.replacement codes s.call = s.block codes := by
  have opening : "const error = new Error('".toList = "const error = ne".toList ++ 'w' :: " Error('".toList := by simp
  have closed : " \x7d".toList = [' ','\x7d'] ∧ "')".toList = ['\x27',')'] := by simp
  have lines := Call.replacement_append codes s.call []
  rw [List.append_nil,List.append_nil] at lines
  unfold Call.Spelling.block Call.Spelling.blockLines
  rewrite [lines,opening,closed.1,closed.2]
  simp only [Text.glue,List.append_assoc,List.cons_append]
  rfl

/-- Calls that are apart by texts without the marker are replaced one by one: the texts stay, each call becomes its own
block, and as many calls are counted as were written. -/
theorem replaceAll_woven (codes : CodeTable) (front : Quiet) (parts : List (Call.Spelling × Quiet)) :
    replaceAll codes (front.val ++ woven Call.Spelling.source parts) =
      front.val ++ woven (Call.Spelling.block codes) parts ∧
    count (front.val ++ woven Call.Spelling.source parts) = parts.length := by
  have plain (cs : List Char) : (cs.map Segment.plain).flatMap (Segment.replaced codes) = cs := by
    rw [List.flatMap_map]
    exact List.flatMap_singleton' cs
  have none (cs : List Char) : (cs.map Segment.plain).countP Segment.isCall = 0 := by
    simp [List.countP_eq_zero,Segment.isCall]
  unfold replaceAll count
  rw [Segment.scan_woven,List.flatMap_append,plain,List.countP_append,none,Nat.zero_add]
  induction parts with
  | nil => exact ⟨rfl,rfl⟩
  | cons part parts ih =>
    simp only [List.append_cancel_left_eq] at ih ⊢
    constructor
    · simp only [wovenSegments,woven,List.flatMap_cons,List.flatMap_append,plain] at ih ⊢
      rw [ih.1,Segment.replaced,replacement_eq_block,List.append_assoc]
    · simp only [wovenSegments,List.flatMap_cons,List.countP_append,List.countP_cons,none] at ih ⊢
      rw [ih.2,List.length_cons,Segment.isCall,if_pos rfl,Nat.zero_add,Nat.add_comm]

end CallSite

end ErrorMigration
