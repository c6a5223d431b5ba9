import ErrorMigration.Proofs.CallMatch
import ErrorMigration.Proofs.Text.Occurrence
import ErrorMigration.Proofs.Unmarked

/-! Where the marker stands before and after a pass. It holds no blank and none of the characters that divide a call
or its block, so that it stands within one token: replacing a call takes away the name of the constructor and the
code, and brings in the canonical code. -/
namespace ErrorMigration

namespace Call

theorem marker_head? : deprecatedMarker.toList.head? = some 'S' := by decide

theorem marker_getLast? : deprecatedMarker.toList.getLast? = some 'r' := by decide

/-- The marker is made of letters. -/
theorem notMem_marker {c : Char} (other : c.isAlpha = false) : c ∉ deprecatedMarker.toList := by
  have letters : deprecatedMarker.toList.all Char.isAlpha = true := by decide
  intro member
  rw [List.all_eq_true.mp letters c member] at other
  contradiction

theorem isQuote_cases {c : Char} (quote : isQuote c = true) : c = '\x27' ∨ c = '"' ∨ c = '\x60' := by
  simpa [isQuote,or_assoc] using quote

theorem notMem_marker_of_isQuote {c : Char} (quote : isQuote c = true) : c ∉ deprecatedMarker.toList := by
  rcases isQuote_cases quote with rfl | rfl | rfl <;> exact notMem_marker (by decide)

theorem ne_of_isQuote {c : Char} (quote : isQuote c = true) : 'S' ≠ c := by
  rcases isQuote_cases quote with rfl | rfl | rfl <;> decide

theorem marker_infix_trim_iff {cs : List Char} :
    deprecatedMarker.toList <:+: Text.trim cs ↔ deprecatedMarker.toList <:+: cs := by
  constructor
  · intro found
    obtain ⟨before,after,split⟩ := exists_trim cs
    rw [split]
    exact (found.trans (List.prefix_append _ _).isInfix).trans (List.suffix_append _ _).isInfix
  · exact infix_trim marker_head? marker_getLast? (by decide) (by decide)

def canonical (codes : CodeTable) (call : Call) : List Char :=
  (codes.resolve (String.ofList call.trimmed.code)).toList

/-- The marker stands in a block where it stands in the message, in the canonical code or in the details. -/
theorem marker_infix_replacement_iff (codes : CodeTable) (call : Call) (rest : List Char) :
    deprecatedMarker.toList <:+: replacement codes call ++ rest ↔
      deprecatedMarker.toList <:+: call.message ∨ deprecatedMarker.toList <:+: call.canonical codes ∨
      deprecatedMarker.toList <:+: call.details ∨ deprecatedMarker.toList <:+: rest := by
  have wall {c : Char} (other : c.isAlpha = false) (xs ys : List Char) :
      deprecatedMarker.toList <:+: xs ++ c :: ys ↔
        deprecatedMarker.toList <:+: xs ∨ deprecatedMarker.toList <:+: ys :=
    Text.infix_append_mark (notMem_marker other)
  have fixed : ¬ deprecatedMarker.toList <:+: "const error = new Error(".toList ∧
      ¬ deprecatedMarker.toList <:+: ")\n      error".toList ∧
      ¬ deprecatedMarker.toList <:+: "code = ErrorCodes".toList ∧
      ¬ deprecatedMarker.toList <:+: "      error".toList ∧
      ¬ deprecatedMarker.toList <:+: "details = ".toList ∧ ¬ deprecatedMarker.toList <:+: [] := by decide +kernel
  obtain ⟨opening,closing,codes_,error,assigned,empty⟩ := fixed
  have code (xs : List Char) :
      deprecatedMarker.toList <:+: xs ++ "\n      error".toList ↔ deprecatedMarker.toList <:+: xs := by
    have split : "\n      error".toList = '\n' :: "      error".toList := by decide +kernel
    rewrite [split,wall (by decide)]
    simp only [error,or_false]
  have details (xs : List Char) :
      deprecatedMarker.toList <:+: ' ' :: (xs ++ [' ']) ↔ deprecatedMarker.toList <:+: xs := by
    rw [← List.nil_append (' ' :: _),wall (by decide),wall (by decide)]
    simp only [empty,false_or,or_false]
  have last : deprecatedMarker.toList <:+: "\n      throw error".toList ++ rest ↔ deprecatedMarker.toList <:+: rest := by
    constructor
    · exact Text.infix_of_first_notMem marker_head? (by decide)
    · exact fun found => found.trans (List.suffix_append _ _).isInfix
  rewrite [replacement_append_walls,wall (by decide),wall (by decide),wall (by decide),wall (by decide),
    wall (by decide),wall (by decide),wall (by decide),marker_infix_trim_iff,code,details,marker_infix_trim_iff,last]
  simp only [opening,closing,codes_,assigned,false_or,canonical,trimmed]

theorem Gap.append_inj {left right : Gap} {c d : Char} {xs ys : List Char} (solid : Text.isBlank c = false)
    (solid' : Text.isBlank d = false) (same : left.val ++ c :: xs = right.val ++ d :: ys) :
    left.val = right.val ∧ c :: xs = d :: ys := by
  have rest : c :: xs = d :: ys := by
    rw [← blanks_gap left (blanks_solid xs solid),same,blanks_gap right (blanks_solid ys solid')]
  rw [rest,List.append_cancel_right_eq] at same
  exact ⟨same,rest⟩

namespace Spelling

/-! The parts of a call in front of each of its words and texts. -/

def upToName (s : Spelling) : List Char := ['t','h','r','o','w'] ++ s.afterThrow.val ++ ['n','e','w'] ++ s.afterNew.val

def upToCode (s : Spelling) : List Char := s.beforeCode.val ++ [s.code.opening]

def upToMessage (s : Spelling) : List Char := s.afterCode.val ++ ',' :: (s.beforeMessage.val ++ [s.message.opening])

def upToDetails (s : Spelling) : List Char := s.afterMessage.val ++ ',' :: (s.beforeDetails.val ++ ['\x7b'])

def upToEnd (s : Spelling) : List Char := s.afterDetails.val ++ [')']

theorem source_append (s : Spelling) (rest : List Char) :
    s.source ++ rest = s.upToName ++ (deprecatedMarker.toList ++ '(' :: (s.upToCode ++ (s.code.text ++
      s.code.closing :: (s.upToMessage ++ (s.message.text ++ s.message.closing :: (s.upToDetails ++ (s.details ++
        '\x7d' :: (s.upToEnd ++ rest)))))))) := by
  simp [source,head,upToName,upToCode,upToMessage,upToDetails,upToEnd,Literal.source]

def constructorAt (s : Spelling) : Nat := Text.byteLength s.upToName

def codeAt (s : Spelling) : Nat := Text.byteLength (s.head ++ s.upToCode)

def messageAt (s : Spelling) : Nat :=
  s.codeAt + Text.byteLength s.code.text + s.code.closing.utf8Size + Text.byteLength s.upToMessage

def detailsAt (s : Spelling) : Nat :=
  s.messageAt + Text.byteLength s.message.text + s.message.closing.utf8Size + Text.byteLength s.upToDetails

theorem codeAt_eq (s : Spelling) :
    s.codeAt = s.constructorAt + Text.byteLength deprecatedMarker.toList + '('.utf8Size + Text.byteLength s.upToCode := by
  have head : s.head = s.upToName ++ (deprecatedMarker.toList ++ ['(']) := by simp [head,upToName]
  have parenthesis : Text.byteLength ['('] = '('.utf8Size := rfl
  rw [codeAt,constructorAt,head,Text.byteLength_append,Text.byteLength_append,Text.byteLength_append,parenthesis]
  omega

theorem byteLength_source (s : Spelling) :
    Text.byteLength s.source =
      s.detailsAt + Text.byteLength s.details + '\x7d'.utf8Size + Text.byteLength s.upToEnd := by
  have whole := congrArg Text.byteLength (s.source_append [])
  rw [List.append_nil,List.append_nil] at whole
  rw [whole,detailsAt,messageAt,codeAt_eq,constructorAt]
  simp only [Text.byteLength_append,Text.byteLength]
  omega

/-- The parts of a call come one after the other. -/
theorem offsets_ordered (s : Spelling) :
    s.constructorAt + Text.byteLength deprecatedMarker.toList < s.codeAt ∧
    s.codeAt + Text.byteLength s.code.text < s.messageAt ∧
    s.messageAt + Text.byteLength s.message.text < s.detailsAt ∧
    s.detailsAt + Text.byteLength s.details < Text.byteLength s.source := by
  have parenthesis := '('.utf8Size_pos
  have codeQuote := s.code.closing.utf8Size_pos
  have messageQuote := s.message.closing.utf8Size_pos
  have brace := '\x7d'.utf8Size_pos
  have code := s.codeAt_eq
  have source := s.byteLength_source
  rw [detailsAt] at source ⊢
  rw [messageAt] at source ⊢
  omega

/-- The text of a call tells where its parts stand. -/
theorem offsets_unique {s s' : Spelling} {rest rest' : List Char} (same : s.source ++ rest = s'.source ++ rest') :
    s.constructorAt = s'.constructorAt ∧ s.codeAt = s'.codeAt := by
  simp only [source,Literal.source,head,deprecatedMarker_toList,List.append_assoc,List.cons_append,List.nil_append,
    List.cons.injEq,true_and] at same
  obtain ⟨afterThrow,same⟩ := Gap.append_inj (by decide) (by decide) same
  simp only [List.cons.injEq,true_and] at same
  obtain ⟨afterNew,same⟩ := Gap.append_inj (by decide) (by decide) same
  simp only [List.cons.injEq,true_and,List.append_cancel_left_eq] at same
  obtain ⟨beforeCode,same⟩ :=
    Gap.append_inj (isBlank_of_isQuote s.code.opens) (isBlank_of_isQuote s'.code.opens) same
  have opening := (List.cons.inj same).1
  simp only [constructorAt,codeAt,upToName,upToCode,head,afterThrow,afterNew,beforeCode,opening,and_self]

/-- The marker stands in a call at the name of its constructor, or in one of its three texts. -/
theorem marker_occursAt_iff (s : Spelling) (rest : List Char) (offset : Nat) :
    Text.OccursAt deprecatedMarker.toList (s.source ++ rest) offset ↔
      offset = s.constructorAt ∨
      (∃ inner, offset = s.codeAt + inner ∧ Text.OccursAt deprecatedMarker.toList s.code.text inner) ∨
      (∃ inner, offset = s.messageAt + inner ∧ Text.OccursAt deprecatedMarker.toList s.message.text inner) ∨
      (∃ inner, offset = s.detailsAt + inner ∧ Text.OccursAt deprecatedMarker.toList s.details inner) ∨
      ∃ inner, offset = Text.byteLength s.source + inner ∧ Text.OccursAt deprecatedMarker.toList rest inner := by
  have gap (g : Gap) : 'S' ∉ g.val := notMem_gap g (by decide)
  -- the marker begins in none of the fronts, and the characters that end the texts are not part of it
  have quietName : 'S' ∉ s.upToName := by simp [upToName,gap]
  have quietCode : 'S' ∉ s.upToCode := by simp [upToCode,gap,ne_of_isQuote s.code.opens]
  have quietMessage : 'S' ∉ s.upToMessage := by simp [upToMessage,gap,ne_of_isQuote s.message.opens]
  have quietDetails : 'S' ∉ s.upToDetails := by simp [upToDetails,gap]
  have quietEnd : 'S' ∉ s.upToEnd := by simp [upToEnd,gap]
  have parenthesis : '(' ∉ deprecatedMarker.toList := notMem_marker (by decide)
  have codeQuote := notMem_marker_of_isQuote s.code.closes
  have messageQuote := notMem_marker_of_isQuote s.message.closes
  have brace : '\x7d' ∉ deprecatedMarker.toList := notMem_marker (by decide)
  rw [source_append,byteLength_source,detailsAt,messageAt,codeAt_eq,constructorAt,
    Text.occursAt_framed_iff marker_head? quietName parenthesis]
  simp only [Text.occursAt_framed_iff marker_head? quietCode codeQuote,
    Text.occursAt_framed_iff marker_head? quietMessage messageQuote,
    Text.occursAt_framed_iff marker_head? quietDetails brace,
    Text.occursAt_append_of_first_notMem marker_head? quietEnd,Text.occursAt_self_iff]
  constructor
  · rintro (⟨_,rfl,rfl⟩ | ⟨_,rfl,⟨inner,rfl,here⟩ | ⟨_,rfl,⟨inner,rfl,here⟩ | ⟨_,rfl,⟨inner,rfl,here⟩ |
      ⟨_,rfl,inner,rfl,here⟩⟩⟩⟩)
    · exact .inl rfl
    · exact .inr (.inl ⟨inner,by omega,here⟩)
    · exact .inr (.inr (.inl ⟨inner,by omega,here⟩))
    · exact .inr (.inr (.inr (.inl ⟨inner,by omega,here⟩)))
    · exact .inr (.inr (.inr (.inr ⟨inner,by omega,here⟩)))
  · rintro (rfl | ⟨inner,rfl,here⟩ | ⟨inner,rfl,here⟩ | ⟨inner,rfl,here⟩ | ⟨inner,rfl,here⟩)
    · exact .inl ⟨0,rfl,rfl⟩
    · exact .inr ⟨_,by omega,.inl ⟨inner,rfl,here⟩⟩
    · exact .inr ⟨_,by omega,.inr ⟨_,rfl,.inl ⟨inner,rfl,here⟩⟩⟩
    · exact .inr ⟨_,by omega,.inr ⟨_,rfl,.inr ⟨_,rfl,.inl ⟨inner,rfl,here⟩⟩⟩⟩
    · exact .inr ⟨_,by omega,.inr ⟨_,rfl,.inr ⟨_,rfl,.inr ⟨_,rfl,inner,rfl,here⟩⟩⟩⟩

/-- The marker at the offset in a call goes when the call is replaced: it is the name of the constructor, or it stands
in the code between its quotes. -/
def Drops (s : Spelling) (offset : Nat) : Prop :=
  offset = s.constructorAt ∨
    s.codeAt ≤ offset ∧ offset + Text.byteLength deprecatedMarker.toList ≤ s.codeAt + Text.byteLength s.code.text

/-- Behind the code a call loses nothing. -/
theorem not_drops (s : Spelling) {offset : Nat} (behind : s.messageAt ≤ offset) : ¬ s.Drops offset := by
  obtain ⟨name,code,_,_⟩ := s.offsets_ordered
  rintro (same | ⟨_,within⟩) <;> omega

end Spelling

end Call

namespace CallSite

/-- The marker at the offset belongs to what the call of the site loses when it is replaced. -/
def Removes (cs : List Char) (site : CallSite) (offset : Nat) : Prop :=
  ∃ s inner, IsSpelled cs site s ∧ offset = site.start + inner ∧ s.Drops inner

variable {cs : List Char} {offset : Nat}

theorem moved_injective {bytes : Nat} : Function.Injective (moved bytes) := by
  intro a b same
  obtain ⟨start,stop,call⟩ := mk.inj same
  obtain ⟨_,_,_⟩ := a
  obtain ⟨_,_,_⟩ := b
  simp only [mk.injEq]
  exact ⟨Nat.add_right_cancel start,Nat.add_right_cancel stop,call⟩

theorem removes_moved_iff {front : List Char} {site : CallSite} :
    Removes (front ++ cs) (site.moved (Text.byteLength front)) offset ↔
      ∃ inner, offset = Text.byteLength front + inner ∧ Removes cs site inner := by
  constructor
  · rintro ⟨s,deeper,spelled,rfl,drops⟩
    obtain ⟨inner,within,same⟩ := (isSpelled_append_iff (Nat.le_add_left _ _)).mp spelled
    obtain rfl := moved_injective same
    exact ⟨_,by simp only [moved]; omega,s,deeper,within,rfl,drops⟩
  · rintro ⟨_,rfl,s,deeper,spelled,rfl,drops⟩
    refine ⟨s,deeper,(isSpelled_append_iff (Nat.le_add_left _ _)).mpr ⟨site,spelled,rfl⟩,?_,drops⟩
    simp only [moved]
    omega

theorem removes_source_iff (s : Call.Spelling) (rest : List Char) :
    Removes (s.source ++ rest) ⟨0,Text.byteLength s.source,s.call⟩ offset ↔ s.Drops offset := by
  constructor
  · rintro ⟨s',inner,⟨before,after,split,same⟩,rfl,drops⟩
    obtain ⟨start,_,call⟩ := mk.inj same
    obtain rfl : before = [] := Text.eq_of_prefix_of_byteLength_eq ⟨_,split.symm⟩ List.nil_prefix start.symm
    obtain ⟨constructor_,code⟩ := Call.Spelling.offsets_unique split
    have text : s.code.text = s'.code.text := congrArg Call.code call
    rwa [Nat.zero_add,Call.Spelling.Drops,constructor_,code,text]
  · intro drops
    exact ⟨s,offset,⟨[],rest,rfl,by simp [Text.byteLength]⟩,(Nat.zero_add _).symm,drops⟩

theorem exists_removes_moved_iff (front : List Char) (sites : List CallSite) :
    (∃ site ∈ sites.map (moved (Text.byteLength front)), Removes (front ++ cs) site offset) ↔
      ∃ inner, offset = Text.byteLength front + inner ∧ ∃ site ∈ sites, Removes cs site inner := by
  constructor
  · rintro ⟨_,moved,removes⟩
    obtain ⟨site,member,rfl⟩ := List.mem_map.mp moved
    obtain ⟨inner,same,removes⟩ := removes_moved_iff.mp removes
    exact ⟨inner,same,site,member,removes⟩
  · rintro ⟨inner,same,site,member,removes⟩
    exact ⟨_,List.mem_map_of_mem member,removes_moved_iff.mpr ⟨inner,same,removes⟩⟩

theorem exists_removes_source_iff {s : Call.Spelling} {rest : List Char} :
    (∃ site ∈ find (s.source ++ rest), Removes (s.source ++ rest) site offset) ↔
      s.Drops offset ∨
      ∃ inner, offset = Text.byteLength s.source + inner ∧ ∃ site ∈ find rest, Removes rest site inner := by
  rw [find_source,← removes_source_iff s rest,← exists_removes_moved_iff]
  simp only [List.mem_cons,or_and_right,exists_or,exists_eq_left]

theorem exists_removes_plain_iff {c : Char} (unread : Call.scan? (c :: cs) = none) :
    (∃ site ∈ find (c :: cs), Removes (c :: cs) site offset) ↔
      ∃ inner, offset = c.utf8Size + inner ∧ ∃ site ∈ find cs, Removes cs site inner := by
  have size : c.utf8Size = Text.byteLength [c] := rfl
  rw [find_plain unread,size]
  exact exists_removes_moved_iff [c] (find cs)

theorem forall_find_source_iff {p : Call → Prop} {s : Call.Spelling} {rest : List Char} :
    (∀ site ∈ find (s.source ++ rest), p site.call) ↔ p s.call ∧ ∀ site ∈ find rest, p site.call := by
  simp [find_source,moved]

theorem forall_find_plain_iff {p : Call → Prop} {c : Char} (unread : Call.scan? (c :: cs) = none) :
    (∀ site ∈ find (c :: cs), p site.call) ↔ ∀ site ∈ find cs, p site.call := by
  simp [find_plain unread,moved]

/-- The characters that the marker is made of start no call, and no block begins within it. -/
theorem marker_prefix_plain_iff {codes : CodeTable} {c : Char} (unread : Call.scan? (c :: cs) = none) :
    deprecatedMarker.toList <+: c :: replaceAll codes cs ↔ deprecatedMarker.toList <+: c :: cs := by
  rw [← replaceAll_plain unread]
  constructor
  · exact prefix_of_prefix_replaceAll (foreign_of_notMem (by decide))
  · rintro ⟨rest,split⟩
    have letters : deprecatedMarker.toList = 'S' :: 't' :: "andardErrorWrapper".toList := by decide
    have apart : Call.scan? ('t' :: ("andardErrorWrapper".toList ++ rest)) = none :=
      Call.scan?_eq_none fun tail same => by simp at same
    have start := Call.scan?_eq_none_of_ne (c := 'S') (by decide) ('t' :: ("andardErrorWrapper".toList ++ rest))
    rw [← split,letters,List.cons_append,List.cons_append,replaceAll_plain start,replaceAll_plain apart,
      replaceAll_append_of_notMem (by decide)]
    exact List.prefix_append ('S' :: 't' :: "andardErrorWrapper".toList) _

/-- The sites take away the markers of a call and of what follows it: none stands in the message or the details. -/
theorem forall_removes_source_iff {s : Call.Spelling} {rest : List Char} :
    (∀ offset, Text.OccursAt deprecatedMarker.toList (s.source ++ rest) offset →
        ∃ site ∈ find (s.source ++ rest), Removes (s.source ++ rest) site offset) ↔
      ¬ deprecatedMarker.toList <:+: s.message.text ∧ ¬ deprecatedMarker.toList <:+: s.details ∧
      ∀ offset, Text.OccursAt deprecatedMarker.toList rest offset → ∃ site ∈ find rest, Removes rest site offset := by
  obtain ⟨_,_,message,details⟩ := s.offsets_ordered
  simp only [exists_removes_source_iff,s.marker_occursAt_iff]
  constructor
  · intro removed
    have stays {offset : Nat} (behind : s.messageAt ≤ offset) (inside : offset < Text.byteLength s.source) :
        ¬ (s.Drops offset ∨ ∃ inner, offset = Text.byteLength s.source + inner ∧
          ∃ site ∈ find rest, Removes rest site inner) := by
      rintro (drops | ⟨inner,beyond,_⟩)
      · exact s.not_drops behind drops
      · omega
    refine ⟨fun found => ?_,fun found => ?_,fun inner occurs => ?_⟩
    · obtain ⟨inner,here⟩ := Text.exists_occursAt_iff.mpr found
      have within : inner + _ ≤ Text.byteLength s.message.text := here.add_le
      exact stays (by omega) (by omega) (removed _ (.inr (.inr (.inl ⟨inner,rfl,here⟩))))
    · obtain ⟨inner,here⟩ := Text.exists_occursAt_iff.mpr found
      have within : inner + _ ≤ Text.byteLength s.details := here.add_le
      exact stays (by omega) (by omega) (removed _ (.inr (.inr (.inr (.inl ⟨inner,rfl,here⟩)))))
    · rcases removed _ (.inr (.inr (.inr (.inr ⟨inner,rfl,occurs⟩)))) with drops | ⟨same,equal,removes⟩
      · exact absurd drops (s.not_drops (by omega))
      · rwa [Nat.add_left_cancel equal]
  · rintro ⟨message,details,removed⟩
    rintro _ (rfl | ⟨inner,rfl,here⟩ | ⟨inner,rfl,here⟩ | ⟨inner,rfl,here⟩ | ⟨inner,rfl,here⟩)
    · exact .inl (.inl rfl)
    · have within := here.add_le
      exact .inl (.inr ⟨by omega,by omega⟩)
    · exact absurd (Text.exists_occursAt_iff.mp ⟨inner,here⟩) message
    · exact absurd (Text.exists_occursAt_iff.mp ⟨inner,here⟩) details
    · exact .inr ⟨inner,rfl,removed inner here⟩

/-- Where no call begins, no marker that begins there is taken away. -/
theorem forall_removes_plain_iff {c : Char} (unread : Call.scan? (c :: cs) = none) :
    (∀ offset, Text.OccursAt deprecatedMarker.toList (c :: cs) offset →
        ∃ site ∈ find (c :: cs), Removes (c :: cs) site offset) ↔
      ¬ deprecatedMarker.toList <+: c :: cs ∧
      ∀ offset, Text.OccursAt deprecatedMarker.toList cs offset → ∃ site ∈ find cs, Removes cs site offset := by
  have positive := c.utf8Size_pos
  simp only [exists_removes_plain_iff unread,Text.occursAt_cons_iff]
  constructor
  · intro removed
    refine ⟨fun here => ?_,fun offset occurs => ?_⟩
    · obtain ⟨inner,same,_⟩ := removed 0 (.inl ⟨rfl,here⟩)
      omega
    · obtain ⟨inner,same,removes⟩ := removed _ (.inr ⟨offset,rfl,occurs⟩)
      rwa [Nat.add_left_cancel same]
  · rintro ⟨elsewhere,removed⟩ offset (⟨_,here⟩ | ⟨inner,rfl,occurs⟩)
    · exact absurd here elsewhere
    · exact ⟨inner,rfl,removed inner occurs⟩

/-- Where the marker does not stand after the calls are replaced: each of the sites takes its markers away, and the
canonical codes bring in none. -/
theorem marker_not_infix_replaceAll_iff (codes : CodeTable) (cs : List Char) :
    ¬ deprecatedMarker.toList <:+: replaceAll codes cs ↔
      (∀ offset, Text.OccursAt deprecatedMarker.toList cs offset → ∃ site ∈ find cs, Removes cs site offset) ∧
      ∀ site ∈ find cs, ¬ deprecatedMarker.toList <:+: site.call.canonical codes := by
  have filled : deprecatedMarker.toList ≠ [] := by decide
  induction cs using Segment.induction_on with
  | nil => simp [Text.occursAt_nil_iff filled,filled,find,Segment.scan,Segment.scanFrom,ofSegments]
  | call s rest ih =>
    rw [replaceAll_source,Call.marker_infix_replacement_iff,forall_removes_source_iff,
      forall_find_source_iff (p := fun call => ¬ deprecatedMarker.toList <:+: call.canonical codes)]
    simp only [not_or,ih]
    constructor
    · rintro ⟨message,canonical,details,removed,later⟩
      exact ⟨⟨message,details,removed⟩,canonical,later⟩
    · rintro ⟨⟨message,details,removed⟩,canonical,later⟩
      exact ⟨message,canonical,details,removed,later⟩
  | plain c cs unread ih =>
    rw [replaceAll_plain unread,List.infix_cons_iff,marker_prefix_plain_iff unread,forall_removes_plain_iff unread,
      forall_find_plain_iff (p := fun call => ¬ deprecatedMarker.toList <:+: call.canonical codes) unread]
    simp only [not_or,ih,and_assoc]

end CallSite

namespace ImportLine

theorem mem_addBelow {line : List Char} {lines : List (List Char)} (member : line ∈ lines) : line ∈ addBelow lines := by
  induction lines with
  | nil => exact member
  | cons first rest ih =>
    unfold addBelow
    rcases List.mem_cons.mp member with rfl | later
    · split <;> exact List.mem_cons_self
    · split
      · exact List.mem_cons_of_mem _ (List.mem_cons_of_mem _ later)
      · exact List.mem_cons_of_mem _ (ih later)

/-- The import line is added between two lines, so that a word within a line is kept. -/
theorem infix_ensure {word cs : List Char} (absent : '\n' ∉ word) (found : word <:+: cs) : word <:+: ensure cs := by
  unfold ensure
  split
  case isFalse => exact found
  case isTrue =>
    rw [← Text.glue_pieces '\n' cs] at found
    obtain ⟨line,member,within⟩ := (Text.infix_glue_iff absent (Text.pieces_ne_nil cs)).mp found
    have kept := mem_addBelow member
    exact (Text.infix_glue_iff absent (List.ne_nil_of_mem kept)).mpr ⟨line,kept,within⟩

end ImportLine

/-- What a complete text means. A pass takes the marker out of a text if and only if, with the import line in place,
each marker is the name of the constructor of a site or stands in the code of one, and no site has a canonical code
with the marker. A text with the marker is complete only if a call was replaced. -/
theorem marker_gone_iff (codes : CodeTable) (cs : List Char) :
    (containsMarker (migrateText codes cs).text = false ↔
      (∀ offset, Text.OccursAt deprecatedMarker.toList (ImportLine.ensure cs) offset →
        ∃ site ∈ CallSite.find (ImportLine.ensure cs), site.Removes (ImportLine.ensure cs) offset) ∧
      ∀ site ∈ CallSite.find (ImportLine.ensure cs),
        containsMarker (codes.resolve (String.ofList site.call.trimmed.code)).toList = false) ∧
    (containsMarker cs = true → Status.classify cs (migrateText codes cs).text = .complete →
      1 ≤ (migrateText codes cs).callCount) := by
  have gone := CallSite.marker_not_infix_replaceAll_iff codes (ImportLine.ensure cs)
  refine ⟨?_,fun marked complete => ?_⟩
  · simp only [containsMarker,Text.occursIn_eq_false_iff]
    exact gone
  · have unmarked := (Status.classify_eq_complete_iff.mp complete).2
    rw [containsMarker,Text.occursIn_eq_false_iff] at unmarked
    rw [containsMarker,Text.occursIn_iff_isInfix] at marked
    obtain ⟨offset,occurs⟩ := Text.exists_occursAt_iff.mpr
      (ImportLine.infix_ensure (Call.notMem_marker (by decide)) marked)
    obtain ⟨site,member,_⟩ := (gone.mp unmarked).1 offset occurs
    have found : 1 ≤ (CallSite.find (ImportLine.ensure cs)).length := List.length_pos_of_mem member
    rwa [← CallSite.count_eq_length_find] at found

def namedCode : List Char := "throw new StandardErrorWrapper(' StandardErrorWrapper', 'b', \x7b\x7d)".toList

theorem namedCode_complete :
    Text.OccursAt deprecatedMarker.toList namedCode 33 ∧
    (∃ site ∈ CallSite.find (ImportLine.ensure namedCode), site.Removes (ImportLine.ensure namedCode) 33) ∧
    1 ≤ (migrateText .builtin namedCode).callCount := by
  have occurs : Text.OccursAt deprecatedMarker.toList namedCode 33 :=
    ⟨namedCode.take 33,namedCode.drop 53,by decide +kernel,by decide +kernel⟩
  have marked : containsMarker namedCode = true := by decide +kernel
  have complete : Status.classify namedCode (migrateText .builtin namedCode).text = .complete := by decide +kernel
  have unchanged : ImportLine.ensure namedCode = namedCode := by decide +kernel
  obtain ⟨gone,counted⟩ := marker_gone_iff .builtin namedCode
  have removed := (gone.mp (Status.classify_eq_complete_iff.mp complete).2).1
  exact ⟨occurs,removed 33 (unchanged.symm ▸ occurs),counted marked complete⟩

end ErrorMigration
