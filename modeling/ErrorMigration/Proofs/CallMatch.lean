import ErrorMigration.Proofs.Replacement

/-! Calls of a text as matches of the grammar. A match is told by byte offsets and by the spelling between them, and
says nothing about how calls are looked for. The sites that are found are the leftmost matches that do not overlap,
and replacing the calls exchanges the bytes of these sites and no others. -/
namespace ErrorMigration

namespace Text

theorem bytes_ofList_append (xs ys : List Char) :
    bytes (String.ofList (xs ++ ys)) = bytes (String.ofList xs) ++ bytes (String.ofList ys) := by
  rw [String.ofList_append,bytes_append]

/-- Of two prefixes the one that ends at the earlier byte is a prefix of the other. -/
theorem prefix_of_byteLength_le {xs ys cs : List Char} (left : xs <+: cs) (right : ys <+: cs)
    (before : byteLength xs ≤ byteLength ys) : xs <+: ys := by
  rcases List.prefix_or_prefix_of_prefix left right with within | ⟨ts,rfl⟩
  · exact within
  · have same : byteLength ys = byteLength (ys ++ ts) := by
      rw [byteLength_append] at before ⊢
      omega
    rw [← eq_of_prefix_of_byteLength_eq right left same]

/-- The core is the text without the blanks at its two ends. -/
structure IsTrimOf (core text : List Char) : Prop where
  within : ∃ before after : Call.Gap, text = before.val ++ (core ++ after.val)
  begins : ∀ c ∈ core.head?, isBlank c = false
  ends : ∀ c ∈ core.getLast?, isBlank c = false

theorem solid_of_head?_dropWhile {cs : List Char} {c : Char} (first : c ∈ (cs.dropWhile isBlank).head?) :
    isBlank c = false := by
  have stopped := List.head?_dropWhile_not isBlank cs
  rw [Option.mem_def.mp first] at stopped
  simpa using stopped

theorem isTrimOf_trim (cs : List Char) : IsTrimOf (trim cs) cs where
  within := Call.exists_trim cs
  begins := by
    intro c first
    have reversed := congrArg List.reverse
      (List.takeWhile_append_dropWhile (p := isBlank) (l := (trimStart cs).reverse))
    rw [List.reverse_append,List.reverse_reverse] at reversed
    have begun : c ∈ (trimStart cs).head? := by
      rw [← reversed]
      exact List.mem_head?_append_of_mem_head? first
    exact solid_of_head?_dropWhile begun
  ends := by
    intro c last
    rw [trim,trimEnd,List.getLast?_reverse] at last
    exact solid_of_head?_dropWhile last

end Text

namespace CallSite

def IsSpelled (cs : List Char) (site : CallSite) (s : Call.Spelling) : Prop :=
  ∃ before after, cs = before ++ (s.source ++ after) ∧
    site = ⟨Text.byteLength before,Text.byteLength before + Text.byteLength s.source,s.call⟩

/-- A call is spelled between the two offsets of the site. -/
def IsMatch (cs : List Char) (site : CallSite) : Prop := ∃ s, IsSpelled cs site s

/-- The matches that one gets from an offset on by taking the first match each time and going on where it ends. -/
inductive Leftmost (cs : List Char) : Nat → List CallSite → Prop where
  | done {offset : Nat} (none : ∀ other, IsMatch cs other → other.start < offset) : Leftmost cs offset []
  | next {offset : Nat} {site : CallSite} {rest : List CallSite} (found : IsMatch cs site)
      (ahead : offset ≤ site.start)
      (first : ∀ other, IsMatch cs other → offset ≤ other.start → site.start ≤ other.start)
      (later : Leftmost cs site.stop rest) : Leftmost cs offset (site :: rest)

variable {cs : List Char} {site other : CallSite} {s : Call.Spelling} {sites sites' : List CallSite} {offset : Nat}

theorem IsMatch.start_lt_stop (found : IsMatch cs site) : site.start < site.stop := by
  obtain ⟨s,_,_,_,rfl⟩ := found
  have positive := Text.byteLength_pos s.source_ne_nil
  simp only
  omega

/-- At each offset at most one match starts: what follows a spelling does not change how it is read. -/
theorem IsMatch.unique (left : IsMatch cs site) (right : IsMatch cs other) (same : site.start = other.start) :
    site = other := by
  obtain ⟨s,before,after,split,rfl⟩ := left
  obtain ⟨s',before',after',split',rfl⟩ := right
  obtain rfl : before = before' :=
    Text.eq_of_prefix_of_byteLength_eq ⟨_,split.symm⟩ ⟨_,split'.symm⟩ same
  rw [split,List.append_cancel_left_eq] at split'
  have read := s.scan?_source after
  rw [split',s'.scan?_source,Option.some.injEq,Prod.mk.injEq] at read
  rw [read.2,List.append_cancel_right_eq] at split'
  rw [split',read.1]

/-- What is spelled behind some text is spelled in what follows it. -/
theorem isSpelled_append_iff {front : List Char} (behind : Text.byteLength front ≤ site.start) :
    IsSpelled (front ++ cs) site s ↔ ∃ inner, IsSpelled cs inner s ∧ inner.moved (Text.byteLength front) = site := by
  constructor
  · rintro ⟨before,after,split,rfl⟩
    obtain ⟨between,rfl⟩ := Text.prefix_of_byteLength_le ⟨cs,rfl⟩ ⟨_,split.symm⟩ behind
    rw [List.append_assoc,List.append_cancel_left_eq] at split
    refine ⟨_,⟨between,after,split,rfl⟩,?_⟩
    simp only [moved,Text.byteLength_append,mk.injEq,and_true]
    omega
  · rintro ⟨_,⟨before,after,rfl,rfl⟩,rfl⟩
    refine ⟨front ++ before,after,by rw [List.append_assoc],?_⟩
    simp only [moved,Text.byteLength_append,mk.injEq,and_true]
    omega

theorem isMatch_append_iff {front : List Char} (behind : Text.byteLength front ≤ site.start) :
    IsMatch (front ++ cs) site ↔ ∃ inner, IsMatch cs inner ∧ inner.moved (Text.byteLength front) = site := by
  simp only [IsMatch,isSpelled_append_iff behind]
  constructor
  · rintro ⟨s,inner,spelled,same⟩
    exact ⟨inner,⟨s,spelled⟩,same⟩
  · rintro ⟨inner,⟨s,spelled⟩,same⟩
    exact ⟨s,inner,spelled,same⟩

namespace Leftmost

theorem moved (front : List Char) (leftmost : Leftmost cs offset sites) :
    Leftmost (front ++ cs) (offset + Text.byteLength front) (sites.map (CallSite.moved (Text.byteLength front))) := by
  -- whatever starts from the moved offset on has been moved as well
  have origin {offset : Nat} {other : CallSite} (found : IsMatch (front ++ cs) other)
      (behind : offset + Text.byteLength front ≤ other.start) :
      ∃ inner, IsMatch cs inner ∧ inner.start + Text.byteLength front = other.start := by
    obtain ⟨inner,match_,rfl⟩ := (isMatch_append_iff (by omega)).mp found
    exact ⟨inner,match_,rfl⟩
  induction leftmost with
  | @done offset none =>
    refine .done fun other found => ?_
    by_contra behind
    obtain ⟨inner,match_,start⟩ := origin found (Nat.not_lt.mp behind)
    have before := none inner match_
    omega
  | @next offset site rest found ahead first later ih =>
    refine .next ((isMatch_append_iff (Nat.le_add_left _ _)).mpr ⟨site,found,rfl⟩)
      (Nat.add_le_add_right ahead _) ?_ ih
    intro other match_ behind
    obtain ⟨inner,innerMatch,start⟩ := origin match_ behind
    rw [← start]
    exact Nat.add_le_add_right (first inner innerMatch (by omega)) _

/-- An offset can be lowered past a gap in which no match starts. -/
theorem lower {lower : Nat} (leftmost : Leftmost cs offset sites) (below : lower ≤ offset)
    (gap : ∀ other, IsMatch cs other → lower ≤ other.start → offset ≤ other.start) : Leftmost cs lower sites := by
  cases leftmost with
  | done none =>
    refine .done fun other found => ?_
    by_contra behind
    have bound := gap other found (Nat.not_lt.mp behind)
    have before := none other found
    omega
  | next found ahead first later =>
    exact .next found (below.trans ahead) (fun other match_ behind => first other match_ (gap other match_ behind)) later

theorem unique (left : Leftmost cs offset sites) (right : Leftmost cs offset sites') : sites = sites' := by
  induction left generalizing sites' with
  | done none =>
    cases right with
    | done => rfl
    | next found ahead =>
      have before := none _ found
      omega
  | next found ahead first later ih =>
    cases right with
    | done none =>
      have before := none _ found
      omega
    | next found' ahead' first' later' =>
      obtain rfl := found.unique found' (Nat.le_antisymm (first _ found' ahead') (first' _ found ahead))
      rw [ih later']

theorem start_ge (leftmost : Leftmost cs offset sites) (member : site ∈ sites) : offset ≤ site.start := by
  induction leftmost with
  | done => simp at member
  | next found ahead first later ih =>
    rcases List.mem_cons.mp member with rfl | member
    · exact ahead
    · have ordered := found.start_lt_stop
      have behind := ih member
      omega

theorem isMatch (leftmost : Leftmost cs offset sites) (member : site ∈ sites) : IsMatch cs site := by
  induction leftmost with
  | done => simp at member
  | next found ahead first later ih =>
    rcases List.mem_cons.mp member with rfl | member
    · exact found
    · exact ih member

/-- Each site ends before the next one starts. -/
theorem pairwise (leftmost : Leftmost cs offset sites) : sites.Pairwise fun a b => a.stop ≤ b.start := by
  induction leftmost with
  | done => exact .nil
  | next found ahead first later ih => exact .cons (fun _ member => later.start_ge member) ih

end Leftmost

/-- The search finds the leftmost matches. -/
theorem leftmost_find (cs : List Char) : Leftmost cs 0 (find cs) := by
  induction cs using Segment.induction_on with
  | nil =>
    refine .done ?_
    rintro _ ⟨s,before,after,split,rfl⟩
    have empty := (List.append_eq_nil_iff.mp split.symm).2
    exact absurd (List.append_eq_nil_iff.mp empty).1 s.source_ne_nil
  | call s rest ih =>
    rw [find_source]
    refine .next ⟨s,[],rest,rfl,by simp [Text.byteLength]⟩ (Nat.le_refl 0) (fun _ _ _ => Nat.zero_le _) ?_
    simpa using ih.moved s.source
  | plain c cs unread ih =>
    rw [find_plain unread]
    have behind : Leftmost (c :: cs) c.utf8Size ((find cs).map (moved c.utf8Size)) := by
      simpa [Text.byteLength] using ih.moved [c]
    refine behind.lower (Nat.zero_le _) ?_
    -- the character starts no call, so a match starts behind all of its bytes
    rintro _ ⟨s,before,after,split,rfl⟩ _
    cases before with
    | nil =>
      have read := s.scan?_source after
      rw [List.nil_append] at split
      rw [← split,unread] at read
      contradiction
    | cons d before =>
      obtain rfl : c = d := (List.cons.inj split).1
      simp only [Text.byteLength]
      omega

/-- The bytes of a text with each site exchanged for its block. The bytes that are given start at the offset. -/
def spliced (codes : CodeTable) : Nat → List UInt8 → List CallSite → List UInt8
  | _, text, [] => text
  | offset, text, site :: rest =>
    text.take (site.start - offset) ++ (Text.bytes (String.ofList (site.call.replacement codes)) ++
      spliced codes site.stop (text.drop (site.stop - offset)) rest)

variable (codes : CodeTable)

theorem spliced_moved (offset bytes : Nat) (text : List UInt8) (sites : List CallSite) :
    spliced codes (offset + bytes) text (sites.map (moved bytes)) = spliced codes offset text sites := by
  induction sites generalizing offset text with
  | nil => rfl
  | cons site rest ih =>
    have start : site.start + bytes - (offset + bytes) = site.start - offset := by omega
    have stop : site.stop + bytes - (offset + bytes) = site.stop - offset := by omega
    have later := ih site.stop (text.drop (site.stop - offset))
    simp only [List.map_cons,spliced,moved,start,stop] at later ⊢
    rw [later]

/-- Bytes in front of all sites are kept. -/
theorem spliced_append (front text : List UInt8) (sites : List CallSite) :
    spliced codes 0 (front ++ text) (sites.map (moved front.length)) = front ++ spliced codes 0 text sites := by
  cases sites with
  | nil => rfl
  | cons site rest =>
    have start : (front ++ text).take (site.start + front.length) = front ++ text.take site.start := by
      rw [Nat.add_comm,List.take_length_add_append]
    have stop : (front ++ text).drop (site.stop + front.length) = text.drop site.stop := by
      rw [Nat.add_comm,List.drop_length_add_append]
    have later := spliced_moved codes site.stop front.length (text.drop site.stop) rest
    simp only [List.map_cons,spliced,moved,Nat.sub_zero,start,stop,List.append_assoc] at later ⊢
    rw [later]

theorem bytes_replaceAll (cs : List Char) :
    Text.bytes (String.ofList (replaceAll codes cs)) = spliced codes 0 (Text.bytes (String.ofList cs)) (find cs) := by
  induction cs using Segment.induction_on with
  | nil => rfl
  | call s rest ih =>
    have whole := Text.length_bytes_ofList s.source
    have later := spliced_moved codes 0 (Text.byteLength s.source) (Text.bytes (String.ofList rest))
      (find rest)
    rw [Nat.zero_add] at later
    rw [replaceAll_source,find_source,Text.bytes_ofList_append,Text.bytes_ofList_append,ih]
    simp only [spliced,Nat.sub_zero,List.take_zero,List.nil_append]
    rw [← whole,List.drop_left,whole,later]
  | plain c cs unread ih =>
    have size : c.utf8Size = (Text.bytes (String.ofList [c])).length := by
      rw [Text.length_bytes_ofList]
      simp [Text.byteLength]
    have split (ys : List Char) : Text.bytes (String.ofList (c :: ys)) =
        Text.bytes (String.ofList [c]) ++ Text.bytes (String.ofList ys) := Text.bytes_ofList_append [c] ys
    rw [replaceAll_plain unread,find_plain unread,split (replaceAll codes cs),split cs,ih,size,spliced_append]

/-- A call site is what the grammar says, and nothing else is replaced. At each offset at most one match starts; the
sites are the leftmost matches without overlap, and the only such list; they report the arguments without the blanks
around them. Replacing the calls exchanges the bytes of the sites for their blocks and counts the sites. -/
theorem find_replaceAll_exact (cs : List Char) :
    (∀ a b, IsMatch cs a → IsMatch cs b → a.start = b.start → a = b) ∧
    (∀ sites, Leftmost cs 0 sites ↔ sites = find cs) ∧
    ((find cs).Pairwise fun a b => a.stop ≤ b.start) ∧
    (∀ site ∈ find cs, IsMatch cs site ∧ site.start < site.stop ∧
      Text.IsTrimOf site.call.trimmed.code site.call.code ∧
      Text.IsTrimOf site.call.trimmed.message site.call.message ∧
      Text.IsTrimOf site.call.trimmed.details site.call.details) ∧
    Text.bytes (String.ofList (replaceAll codes cs)) =
      spliced codes 0 (Text.bytes (String.ofList cs)) (find cs) ∧
    count cs = (find cs).length := by
  have leftmost := leftmost_find cs
  refine ⟨fun a b left right => left.unique right,fun sites => ⟨fun other => other.unique leftmost,?_⟩,
    leftmost.pairwise,?_,bytes_replaceAll codes cs,count_eq_length_find cs⟩
  · rintro rfl
    exact leftmost
  · intro site member
    have found := leftmost.isMatch member
    exact ⟨found,found.start_lt_stop,Text.isTrimOf_trim _,Text.isTrimOf_trim _,Text.isTrimOf_trim _⟩

/-- A head that begins no call, before a call with quotes of three styles and a head in its details. -/
def headedCall : List Char :=
  "é throw new StandardErrorWrapper(throw\u00a0new StandardErrorWrapper(' A \x60,\"b',\x7bthrow new StandardErrorWrapper(\x7d)".toList

theorem headedCall_matched :
    IsMatch headedCall ⟨34,110,⟨" A ".toList,"b".toList,"throw new StandardErrorWrapper(".toList⟩⟩ ∧
    count headedCall = 1 := by
  have sites : find headedCall =
      [⟨34,110,⟨" A ".toList,"b".toList,"throw new StandardErrorWrapper(".toList⟩⟩] := by decide +kernel
  obtain ⟨_,_,_,each,_,counted⟩ := find_replaceAll_exact .builtin headedCall
  rw [sites] at each counted
  exact ⟨(each _ List.mem_cons_self).1,counted⟩

end CallSite

end ErrorMigration
