import ErrorMigration.CallSite
import ErrorMigration.Proofs.Text.Search
import Mathlib.Data.List.TakeWhile

/-! The grammar of a deprecated call. A spelling is a call written out token by token; the scanner accepts
exactly the spellings, so what follows a call never changes how it is read. -/
namespace ErrorMigration.Call

def Gap : Type := { cs : List Char // ∀ c ∈ cs, Text.isBlank c = true }

/-- A quoted text. The two quotes may be of different styles. -/
structure Literal where
  opening : Char
  text : List Char
  closing : Char
  opens : isQuote opening = true
  closes : isQuote closing = true
  unquoted : ∀ c ∈ text, isQuote c = false

def Literal.source (l : Literal) : List Char := l.opening :: l.text ++ [l.closing]

/-- One way to write what starts a call. -/
structure Head where
  afterThrow : Gap
  afterNew : Gap
  throwApart : afterThrow.val ≠ []
  newApart : afterNew.val ≠ []

def Head.source (h : Head) : List Char :=
  ['t','h','r','o','w'] ++ h.afterThrow.val ++ ['n','e','w'] ++ h.afterNew.val ++ deprecatedMarker.toList ++ ['(']

structure Spelling where
  afterThrow : Gap
  afterNew : Gap
  beforeCode : Gap
  code : Literal
  afterCode : Gap
  beforeMessage : Gap
  message : Literal
  afterMessage : Gap
  beforeDetails : Gap
  details : List Char
  afterDetails : Gap
  throwApart : afterThrow.val ≠ []
  newApart : afterNew.val ≠ []
  coded : code.text ≠ []
  unclosed : '\x7d' ∉ details

namespace Spelling

def call (s : Spelling) : Call := ⟨s.code.text,s.message.text,s.details⟩

def head (s : Spelling) : List Char :=
  ['t','h','r','o','w'] ++ s.afterThrow.val ++ ['n','e','w'] ++ s.afterNew.val ++ deprecatedMarker.toList ++ ['(']

def lead (s : Spelling) : Head := ⟨s.afterThrow,s.afterNew,s.throwApart,s.newApart⟩

theorem head_eq (s : Spelling) : s.head = s.lead.source := rfl

@[irreducible] def source (s : Spelling) : List Char :=
  s.head ++ s.beforeCode.val ++ s.code.source ++ s.afterCode.val ++ [','] ++ s.beforeMessage.val ++
    s.message.source ++ s.afterMessage.val ++ [','] ++ s.beforeDetails.val ++ ['\x7b'] ++
    s.details ++ ['\x7d'] ++ s.afterDetails.val ++ [')']

end Spelling

section Tokens

variable {cs rest : List Char} {c : Char}

theorem exists_gap (cs : List Char) : ∃ gap : Gap, cs = gap.val ++ blanks cs :=
  ⟨⟨cs.takeWhile Text.isBlank,fun _ member => List.mem_takeWhile_imp member⟩,
    List.takeWhile_append_dropWhile.symm⟩

theorem blanks_solid {c : Char} (rest : List Char) (solid : Text.isBlank c = false) : blanks (c :: rest) = c :: rest := by
  simp [blanks,solid]

theorem blanks_gap (gap : Gap) (solid : blanks rest = rest) : blanks (gap.val ++ rest) = rest := by
  unfold blanks
  rw [List.dropWhile_append_of_pos gap.property]
  exact solid

theorem exists_gap_of_gap? (read : gap? cs = some rest) : ∃ gap : Gap, gap.val ≠ [] ∧ cs = gap.val ++ rest := by
  cases cs with
  | nil => simp [gap?] at read
  | cons c cs =>
    simp only [gap?,Option.ite_none_right_eq_some,Option.some.injEq] at read
    obtain ⟨blank,rfl⟩ := read
    obtain ⟨gap,split⟩ := exists_gap cs
    refine ⟨⟨c :: gap.val,?_⟩,by simp,by rw [List.cons_append,← split]⟩
    simpa [blank] using gap.property

theorem gap?_gap (gap : Gap) (apart : gap.val ≠ []) (solid : blanks rest = rest) :
    gap? (gap.val ++ rest) = some rest := by
  obtain ⟨_ | ⟨b,bs⟩,all⟩ := gap
  · exact absurd rfl apart
  · have tail : blanks (bs ++ rest) = rest :=
      blanks_gap ⟨bs,fun d member => all d (List.mem_cons_of_mem _ member)⟩ solid
    simp [gap?,all b,tail]

theorem literal?_eq_some_iff {text : List Char} :
    literal? cs = some (text,rest) ↔ ∃ l : Literal, l.text = text ∧ cs = l.source ++ rest := by
  constructor
  · intro read
    cases cs with
    | nil => simp [literal?] at read
    | cons opening cs =>
      simp only [literal?,Option.ite_none_right_eq_some] at read
      obtain ⟨opens,read⟩ := read
      split at read
      case h_2 => simp at read
      case h_1 closing after found =>
        simp only [Option.some.injEq,Prod.mk.injEq] at read
        obtain ⟨rfl,rfl⟩ := read
        have closes : isQuote closing = true := by
          have stopped := List.head?_dropWhile_not (fun c => !isQuote c) cs
          simpa [found] using stopped
        have split := List.takeWhile_append_dropWhile (p := fun c => !isQuote c) (l := cs)
        rw [found] at split
        refine ⟨⟨opening,cs.takeWhile fun c => !isQuote c,closing,opens,closes,?_⟩,rfl,?_⟩
        · intro c member
          simpa using List.mem_takeWhile_imp member
        · simpa [Literal.source] using split.symm
  · rintro ⟨l,rfl,rfl⟩
    have before : ∀ c ∈ l.text, (!isQuote c) = true := by simpa using l.unquoted
    simp [literal?,Literal.source,l.opens,List.dropWhile_append_of_pos before,
      List.takeWhile_append_of_pos before,l.closes]

theorem braced?_eq_some_iff {details : List Char} :
    braced? cs = some (details,rest) ↔ cs = '\x7b' :: details ++ '\x7d' :: rest ∧ '\x7d' ∉ details := by
  cases cs with
  | nil => simp [braced?]
  | cons opening cs =>
    simp only [braced?,beq_iff_eq,Option.ite_none_right_eq_some,Text.cut?_eq_some_iff,List.cons_append,
      List.cons.injEq,and_assoc]

theorem exists_gaps_of_comma? (read : comma? cs = some rest) :
    ∃ before after : Gap, cs = before.val ++ ',' :: (after.val ++ rest) := by
  simp only [comma?,Option.map_eq_some_iff,Text.skip?_eq_some_iff] at read
  obtain ⟨afterComma,found,rfl⟩ := read
  obtain ⟨before,beforeEq⟩ := exists_gap cs
  obtain ⟨after,afterEq⟩ := exists_gap afterComma
  exact ⟨before,after,by rw [← afterEq,beforeEq,found]; rfl⟩

theorem comma?_gaps (before after : Gap) (solid : blanks rest = rest) :
    comma? (before.val ++ ',' :: (after.val ++ rest)) = some rest := by
  have comma : blanks (',' :: (after.val ++ rest)) = ',' :: (after.val ++ rest) := blanks_solid _ (by decide)
  simp [comma?,blanks_gap before comma,Text.skip?,blanks_gap after solid]

theorem isBlank_of_isQuote (quote : isQuote c = true) : Text.isBlank c = false := by
  simp only [isQuote,Bool.or_eq_true,beq_iff_eq] at quote
  rcases quote with (rfl | rfl) | rfl <;> decide

theorem Literal.blanks_source (l : Literal) : blanks (l.source ++ rest) = l.source ++ rest :=
  blanks_solid _ (isBlank_of_isQuote l.opens)

end Tokens

theorem throw_toList : "throw".toList = ['t','h','r','o','w'] := by simp

theorem new_toList : "new".toList = ['n','e','w'] := by simp

theorem deprecatedMarker_toList : deprecatedMarker.toList = 'S' :: "tandardErrorWrapper".toList := by
  simp [deprecatedMarker]

theorem exists_gaps_of_head? {cs rest : List Char} (read : head? cs = some rest) :
    ∃ afterThrow afterNew : Gap, afterThrow.val ≠ [] ∧ afterNew.val ≠ [] ∧
      cs = ['t','h','r','o','w'] ++ afterThrow.val ++ ['n','e','w'] ++ afterNew.val ++ deprecatedMarker.toList ++
        ['('] ++ rest := by
  unfold head? at read
  rw [throw_toList,new_toList] at read
  simp only [bind,Option.bind_eq_some_iff,Text.skip?_eq_some_iff] at read
  obtain ⟨_,rfl,_,throwGap,_,rfl,_,newGap,_,rfl,rfl⟩ := read
  obtain ⟨afterThrow,throwApart,rfl⟩ := exists_gap_of_gap? throwGap
  obtain ⟨afterNew,newApart,rfl⟩ := exists_gap_of_gap? newGap
  exact ⟨afterThrow,afterNew,throwApart,newApart,by simp only [List.append_assoc]⟩

theorem Head.head?_source (h : Head) (rest : List Char) : head? (h.source ++ rest) = some rest := by
  have word (w ys : List Char) : Text.skip? w (w ++ ys) = some ys := Text.skip?_eq_some_iff.mpr rfl
  have throwGap (ys : List Char) : gap? (h.afterThrow.val ++ (['n','e','w'] ++ ys)) = some (['n','e','w'] ++ ys) :=
    gap?_gap h.afterThrow h.throwApart (blanks_solid _ (by decide))
  have newGap (ys : List Char) :
      gap? (h.afterNew.val ++ (deprecatedMarker.toList ++ ys)) = some (deprecatedMarker.toList ++ ys) := by
    rw [deprecatedMarker_toList]
    exact gap?_gap h.afterNew h.newApart (blanks_solid _ (by decide))
  unfold head? Head.source
  rw [throw_toList,new_toList]
  simp only [List.append_assoc,bind,word,throwGap,newGap,Option.bind_some]

theorem head?_eq_some_iff {cs rest : List Char} : head? cs = some rest ↔ ∃ h : Head, cs = h.source ++ rest := by
  constructor
  · intro read
    obtain ⟨afterThrow,afterNew,throwApart,newApart,split⟩ := exists_gaps_of_head? read
    exact ⟨⟨afterThrow,afterNew,throwApart,newApart⟩,split⟩
  · rintro ⟨h,rfl⟩
    exact h.head?_source rest

namespace Spelling

theorem head?_head (s : Spelling) (rest : List Char) : head? (s.head ++ rest) = some rest :=
  s.lead.head?_source rest

/-- A spelling is read back as its call, whatever follows it. -/
theorem scan?_source (s : Spelling) (rest : List Char) : scan? (s.source ++ rest) = some (s.call,rest) := by
  have code (ys : List Char) : literal? (s.code.source ++ ys) = some (s.code.text,ys) :=
    literal?_eq_some_iff.mpr ⟨s.code,rfl,rfl⟩
  have message (ys : List Char) : literal? (s.message.source ++ ys) = some (s.message.text,ys) :=
    literal?_eq_some_iff.mpr ⟨s.message,rfl,rfl⟩
  have details (ys : List Char) : braced? ('\x7b' :: (s.details ++ '\x7d' :: ys)) = some (s.details,ys) :=
    braced?_eq_some_iff.mpr ⟨rfl,s.unclosed⟩
  have beforeCode (ys : List Char) : blanks (s.beforeCode.val ++ (s.code.source ++ ys)) = s.code.source ++ ys :=
    blanks_gap s.beforeCode s.code.blanks_source
  have firstComma (ys : List Char) :
      comma? (s.afterCode.val ++ ',' :: (s.beforeMessage.val ++ (s.message.source ++ ys))) =
        some (s.message.source ++ ys) :=
    comma?_gaps s.afterCode s.beforeMessage s.message.blanks_source
  have secondComma (ys : List Char) :
      comma? (s.afterMessage.val ++ ',' :: (s.beforeDetails.val ++ '\x7b' :: ys)) = some ('\x7b' :: ys) :=
    comma?_gaps s.afterMessage s.beforeDetails (blanks_solid _ (by decide))
  have closing (ys : List Char) : blanks (s.afterDetails.val ++ ')' :: ys) = ')' :: ys :=
    blanks_gap s.afterDetails (blanks_solid _ (by decide))
  simp [scan?,source,head?_head,beforeCode,code,s.coded,firstComma,message,secondComma,details,closing,
    Text.skip?,call]

end Spelling

/-- The scanner accepts the spellings and nothing else. -/
theorem scan?_eq_some_iff {cs rest : List Char} {found : Call} :
    scan? cs = some (found,rest) ↔ ∃ s : Spelling, s.call = found ∧ cs = s.source ++ rest := by
  constructor
  · intro read
    simp only [scan?,bind,Option.bind_eq_some_iff] at read
    obtain ⟨_,head,⟨code,_⟩,codeRead,read⟩ := read
    split at read
    case isTrue => simp at read
    case isFalse coded =>
      simp only [Option.bind_eq_some_iff,Text.skip?_eq_some_iff,pure,Option.some.injEq,Prod.mk.injEq] at read
      obtain ⟨_,firstComma,⟨message,_⟩,messageRead,_,secondComma,⟨details,afterBrace⟩,detailsRead,_,closed,
        rfl,rfl⟩ := read
      obtain ⟨afterThrow,afterNew,throwApart,newApart,rfl⟩ := exists_gaps_of_head? head
      obtain ⟨beforeCode,codeGap⟩ := exists_gap _
      obtain ⟨code,rfl,codeEq⟩ := literal?_eq_some_iff.mp codeRead
      obtain ⟨afterCode,beforeMessage,rfl⟩ := exists_gaps_of_comma? firstComma
      obtain ⟨message,rfl,rfl⟩ := literal?_eq_some_iff.mp messageRead
      obtain ⟨afterMessage,beforeDetails,rfl⟩ := exists_gaps_of_comma? secondComma
      obtain ⟨rfl,unclosed⟩ := braced?_eq_some_iff.mp detailsRead
      obtain ⟨afterDetails,closeGap⟩ := exists_gap afterBrace
      rw [codeEq] at codeGap
      rw [closed] at closeGap
      subst codeGap closeGap
      refine ⟨⟨afterThrow,afterNew,beforeCode,code,afterCode,beforeMessage,message,afterMessage,beforeDetails,
        details,afterDetails,throwApart,newApart,by simpa using coded,unclosed⟩,rfl,?_⟩
      simp only [Spelling.source,Spelling.head,List.append_assoc,List.cons_append,List.nil_append]
  · rintro ⟨s,same,split⟩
    rw [split,← same]
    exact s.scan?_source rest

end ErrorMigration.Call
