import ErrorMigration.Proofs.CallSite
import ErrorMigration.Source

/-! The import line and the calls around it. The line is added between two parts of the text, and no call that
begins above it can be read past it; so the calls found afterwards are those of the two parts. A call that
reached across the place of the line is lost. -/
namespace ErrorMigration.ImportLine

/-- Where the line goes: the text above it, which ends in the line of the base declaration, and the text below. -/
structure Insertion where
  above : List Char
  baseLine : List Char
  below : List Char
  deriving DecidableEq, Repr

namespace Insertion

def added (i : Insertion) : List Char := '\n' :: ImportLine.below i.baseLine

def point (i : Insertion) : Nat := Text.byteLength i.above

def among? : List (List Char) → Option Insertion
  | [] => none
  | line :: rest =>
    if Text.occursIn baseDeclaration line then some ⟨line,line,rest.flatMap fun next => '\n' :: next⟩
    else (among? rest).map fun i => { i with above := line ++ '\n' :: i.above }

end Insertion

def insertion? (cs : List Char) : Option Insertion :=
  if isMissing cs then Insertion.among? (Text.pieces '\n' cs) else none

theorem glue_cons_eq (line : List Char) (rest : List (List Char)) :
    Text.glue '\n' (line :: rest) = line ++ rest.flatMap fun next => '\n' :: next := by
  induction rest generalizing line with
  | nil => simp [Text.glue]
  | cons next rest ih =>
    rw [Text.glue_cons line (by simp),ih]
    simp

theorem glue_of_among? {lines : List (List Char)} {i : Insertion} (found : Insertion.among? lines = some i) :
    Text.glue '\n' lines = i.above ++ i.below ∧
      Text.glue '\n' (addBelow lines) = i.above ++ (i.added ++ i.below) := by
  induction lines generalizing i with
  | nil => simp [Insertion.among?] at found
  | cons line rest ih =>
    unfold Insertion.among? at found
    unfold addBelow
    split at found
    case isTrue declared =>
      cases found
      rw [if_pos declared,glue_cons_eq,glue_cons_eq]
      simp [Insertion.added]
    case isFalse undeclared =>
      obtain ⟨inner,innerFound,rfl⟩ := Option.map_eq_some_iff.mp found
      obtain ⟨whole,grown⟩ := ih innerFound
      have more : rest ≠ [] := by rintro rfl; simp [Insertion.among?] at innerFound
      have moreGrown : addBelow rest ≠ [] := by
        cases rest with
        | nil => contradiction
        | cons next rest => unfold addBelow; split <;> simp
      rw [if_neg undeclared,Text.glue_cons line more,Text.glue_cons line moreGrown,whole,grown]
      simp [Insertion.added]

theorem addBelow_of_among? {lines : List (List Char)} (missing : Insertion.among? lines = none) :
    addBelow lines = lines := by
  induction lines with
  | nil => rfl
  | cons line rest ih =>
    unfold Insertion.among? at missing
    split at missing
    case isTrue => contradiction
    case isFalse undeclared =>
      rw [addBelow,if_neg undeclared,ih (Option.map_eq_none_iff.mp missing)]

theorem ensure_of_insertion? {cs : List Char} {i : Insertion} (found : insertion? cs = some i) :
    cs = i.above ++ i.below ∧ ensure cs = i.above ++ (i.added ++ i.below) := by
  unfold insertion? at found
  split at found
  case isFalse => contradiction
  case isTrue missing =>
    obtain ⟨whole,grown⟩ := glue_of_among? found
    rw [Text.glue_pieces] at whole
    rw [ensure,if_pos missing]
    exact ⟨whole,grown⟩

theorem ensure_of_no_insertion {cs : List Char} (absent : insertion? cs = none) : ensure cs = cs := by
  unfold insertion? at absent
  unfold ensure
  split at absent
  case isTrue missing => rw [if_pos missing,addBelow_of_among? absent,Text.glue_pieces]
  case isFalse present => rw [if_neg present]

theorem exists_among? {lines : List (List Char)} {line : List Char} (member : line ∈ lines)
    (declared : baseDeclaration <:+: line) : ∃ i, Insertion.among? lines = some i := by
  induction lines with
  | nil => simp at member
  | cons first rest ih =>
    unfold Insertion.among?
    by_cases here : Text.occursIn baseDeclaration first = true
    · exact ⟨_,if_pos here⟩
    · have later : line ∈ rest := by
        rcases List.mem_cons.mp member with rfl | later
        · exact absurd (Text.occursIn_iff_isInfix.mpr declared) here
        · exact later
      obtain ⟨i,found⟩ := ih later
      rw [if_neg here,found]
      exact ⟨_,rfl⟩

/-- A missing declaration has its place: the base declaration stands within one line. -/
theorem exists_insertion? {cs : List Char} (missing : isMissing cs = true) : ∃ i, insertion? cs = some i := by
  have declared : baseDeclaration <:+: Text.glue '\n' (Text.pieces '\n' cs) := by
    rw [Text.glue_pieces,← Text.occursIn_iff_isInfix]
    exact (Bool.and_eq_true_iff.mp missing).1
  obtain ⟨line,member,within⟩ := (Text.infix_glue_iff (by decide) (Text.pieces_ne_nil cs)).mp declared
  rw [insertion?,if_pos missing]
  exact exists_among? member within

theorem ensure_of_present {cs : List Char} (present : isMissing cs = false) : ensure cs = cs := by
  simp [ensure,present]

/-- Skipping from before a suffix either stops before it or goes on in it. -/
theorem dropWhile_of_suffix {p : Char → Bool} {ys cs : List Char} (ends : ys <:+ cs) :
    cs.dropWhile p = ys.dropWhile p ∨ ∃ x xs, cs.dropWhile p = x :: (xs ++ ys) := by
  obtain ⟨before,rfl⟩ := ends
  rw [List.dropWhile_append]
  cases before.dropWhile p with
  | nil => exact .inl rfl
  | cons x xs => exact .inr ⟨x,xs,rfl⟩

/-! The declaration starts with a letter that no token starts with. Its first quote and its brace are each followed
by what cannot stand there in a call. -/
section Declaration

variable (below : List Char)

theorem codesDeclaration_eq : codesDeclaration =
    ['c','o','n','s','t',' ','\x7b',' ','E','r','r','o','r','C','o','d','e','s',' ','\x7d',' ','=',' ','r','e','q','u',
      'i','r','e','(','\x27','s','r','c','/','c','o','r','e','/','e','r','r','o','r','s','/','E','r','r','o','r','C','o',
      'd','e','s','\x27',')'] := by
  decide +kernel

theorem head?_declaration : (codesDeclaration ++ below).head? = some 'c' := by
  rw [codesDeclaration_eq]
  rfl

theorem dropWhile_isBlank_declaration :
    (codesDeclaration ++ below).dropWhile Text.isBlank = codesDeclaration ++ below := by
  rw [codesDeclaration_eq]
  rfl

theorem dropWhile_unquoted_declaration :
    ∃ tail, (codesDeclaration ++ below).dropWhile (fun c => !Call.isQuote c) = '\x27' :: 's' :: tail := by
  rw [codesDeclaration_eq]
  exact ⟨_,rfl⟩

theorem dropWhile_unclosed_declaration :
    ∃ tail, (codesDeclaration ++ below).dropWhile (fun c => c != '\x7d') = '\x7d' :: ' ' :: '=' :: tail := by
  rw [codesDeclaration_eq]
  exact ⟨_,rfl⟩

end Declaration

section Barrier

variable {indent : Call.Gap} {below rest : List Char}

def barrier (indent : Call.Gap) (below : List Char) : List Char :=
  '\n' :: (indent.val ++ (codesDeclaration ++ below))

theorem barrier_dropWhile (p : Char → Bool) (newline : p '\n' = true) (blank : ∀ c ∈ indent.val, p c = true) :
    (barrier indent below).dropWhile p = (codesDeclaration ++ below).dropWhile p := by
  simp [barrier,newline,List.dropWhile_append_of_pos blank]

/-- A token without a newline does not reach the barrier. -/
theorem suffix_of_word (word : List Char) (absent : '\n' ∉ word) (ends : barrier indent below <:+ word ++ rest) :
    barrier indent below <:+ rest := by
  induction word with
  | nil => exact ends
  | cons c word ih =>
    simp only [List.mem_cons,not_or] at absent
    rw [List.cons_append,List.suffix_cons_iff] at ends
    rcases ends with here | ends
    · simp only [barrier,List.cons.injEq] at here
      exact absurd here.1 absent.1
    · exact ih absent.2 ends

/-- Blanks that reach the barrier are followed by the first letter of the declaration. -/
theorem suffix_of_token (gap : Call.Gap) (c : Char) (solid : Text.isBlank c = false) (other : c ≠ 'c')
    (ends : barrier indent below <:+ gap.val ++ c :: rest) : barrier indent below <:+ rest := by
  have dropped : (gap.val ++ c :: rest).dropWhile Text.isBlank = c :: rest :=
    Call.blanks_gap gap (Call.blanks_solid _ solid)
  rcases dropWhile_of_suffix (p := Text.isBlank) ends with through | ⟨x,xs,before⟩
  · rw [dropped,barrier_dropWhile _ (by decide) indent.property,dropWhile_isBlank_declaration] at through
    have first := head?_declaration below
    rw [← through,List.head?_cons,Option.some.injEq] at first
    contradiction
  · rw [dropped,List.cons.injEq] at before
    exact ⟨xs,before.2.symm⟩

/-- A text that reaches the barrier on its way to a mark ends at the first mark of the declaration. -/
theorem suffix_of_marked {p : Char → Bool} {text : List Char} {mark : Char} (newline : p '\n' = true)
    (blank : ∀ c ∈ indent.val, p c = true) (passed : ∀ c ∈ text, p c = true) (stops : p mark = false)
    (ends : barrier indent below <:+ text ++ mark :: rest) :
    barrier indent below <:+ rest ∨ mark :: rest = (codesDeclaration ++ below).dropWhile p := by
  have dropped : (text ++ mark :: rest).dropWhile p = mark :: rest := by
    simp [List.dropWhile_append_of_pos passed,stops]
  rcases dropWhile_of_suffix (p := p) ends with through | ⟨x,xs,before⟩
  · rw [dropped,barrier_dropWhile p newline blank] at through
    exact .inr through
  · rw [dropped,List.cons.injEq] at before
    exact .inl ⟨xs,before.2.symm⟩

/-- An argument with its comma: in the declaration a letter follows the first quote. -/
theorem suffix_of_argument (before : Call.Gap) (l : Call.Literal) (after : Call.Gap)
    (ends : barrier indent below <:+ before.val ++ (l.source ++ (after.val ++ ',' :: rest))) :
    barrier indent below <:+ rest := by
  have opening : l.opening ≠ 'c' := by
    intro letter
    have opens := l.opens
    rw [letter] at opens
    contradiction
  have blank : ∀ c ∈ indent.val, (!Call.isQuote c) = true := by
    intro c member
    by_contra quote
    have solid := Call.isBlank_of_isQuote (c := c) (by simpa using quote)
    rw [indent.property c member] at solid
    contradiction
  have text : barrier indent below <:+ l.text ++ l.closing :: (after.val ++ ',' :: rest) := by
    apply suffix_of_token before l.opening (Call.isBlank_of_isQuote l.opens) opening
    simpa [Call.Literal.source] using ends
  rcases suffix_of_marked (p := fun c => !Call.isQuote c) (by decide) blank (by simpa using l.unquoted)
    (by simpa using l.closes) text with within | atQuote
  · exact suffix_of_token after ',' (by decide) (by decide) within
  · obtain ⟨tail,declared⟩ := dropWhile_unquoted_declaration below
    rw [declared,List.cons.injEq] at atQuote
    have comma := Call.blanks_gap after (Call.blanks_solid (c := ',') rest (by decide))
    have letter : Call.blanks ('s' :: tail) = 's' :: tail := Call.blanks_solid _ (by decide)
    rw [atQuote.2,letter,List.cons.injEq] at comma
    exact absurd comma.1 (by decide)

/-- The details with the closing parenthesis: in the declaration an equals sign follows the brace. -/
theorem suffix_of_details {details : List Char} (unclosed : '\x7d' ∉ details) (after : Call.Gap)
    (ends : barrier indent below <:+ details ++ '\x7d' :: (after.val ++ ')' :: rest)) :
    barrier indent below <:+ rest := by
  have text : ∀ c ∈ details, (c != '\x7d') = true := by
    intro c member
    rw [bne_iff_ne]
    rintro rfl
    exact unclosed member
  have blank : ∀ c ∈ indent.val, (c != '\x7d') = true := by
    intro c member
    rw [bne_iff_ne]
    rintro rfl
    exact absurd (indent.property _ member) (by decide)
  rcases suffix_of_marked (p := fun c => c != '\x7d') (by decide) blank text (by decide) ends with
    within | atBrace
  · exact suffix_of_token after ')' (by decide) (by decide) within
  · obtain ⟨tail,declared⟩ := dropWhile_unclosed_declaration below
    rw [declared,List.cons.injEq] at atBrace
    have parenthesis := Call.blanks_gap after (Call.blanks_solid (c := ')') rest (by decide))
    have equals : Call.blanks (' ' :: '=' :: tail) = '=' :: tail := rfl
    rw [atBrace.2,equals,List.cons.injEq] at parenthesis
    exact absurd parenthesis.1 (by decide)

/-- A call that begins before the barrier ends before it. -/
theorem suffix_of_spelling (s : Call.Spelling) (ends : barrier indent below <:+ s.source ++ rest) :
    barrier indent below <:+ rest := by
  simp only [Call.Spelling.source,Call.Spelling.head,List.append_assoc,Call.deprecatedMarker_toList] at ends
  have throw_ := suffix_of_word ['t','h','r','o','w'] (by decide) ends
  have new := suffix_of_word ['e','w'] (by decide)
    (suffix_of_token s.afterThrow 'n' (by decide) (by decide) throw_)
  have marker := suffix_of_word "tandardErrorWrapper".toList (by decide +kernel)
    (suffix_of_token s.afterNew 'S' (by decide) (by decide) new)
  have parenthesis := suffix_of_word ['('] (by decide) marker
  have code := suffix_of_argument s.beforeCode s.code s.afterCode parenthesis
  have message := suffix_of_argument s.beforeMessage s.message s.afterMessage code
  have brace := suffix_of_token s.beforeDetails '\x7b' (by decide) (by decide) message
  exact suffix_of_details s.unclosed s.afterDetails brace

end Barrier

/-- The added line: its indentation, the declaration, and how the line ends. -/
theorem exists_added_eq (i : Insertion) :
    ∃ (indent : Call.Gap) (ending : List Char), ending ⊆ [';','\r'] ∧
      i.added = '\n' :: (indent.val ++ (codesDeclaration ++ ending)) := by
  refine ⟨⟨i.baseLine.takeWhile Text.isBlank,fun _ member => List.mem_takeWhile_imp member⟩,
    (if (Text.trimEnd i.baseLine).getLast? = some ';' then [';'] else []) ++
      (if i.baseLine.getLast? = some '\r' then ['\r'] else []),?_,?_⟩
  · split <;> split <;> decide
  · simp only [Insertion.added,below,List.append_assoc]

/-- The text above the added line and the text from it on are read apart. -/
theorem scan_above (i : Insertion) (cs : List Char) :
    Segment.scan (i.above ++ (i.added ++ cs)) = Segment.scan i.above ++ Segment.scan (i.added ++ cs) := by
  obtain ⟨indent,ending,_,added⟩ := exists_added_eq i
  have split : i.added ++ cs = barrier indent (ending ++ cs) := by
    simp only [added,barrier,List.append_assoc,List.cons_append]
  rw [split]
  rcases Segment.scan_append i.above (barrier indent (ending ++ cs)) with apart | across
  · exact apart
  · obtain ⟨_,opened,rest,s,_,_,across,shorter,_⟩ := across
    have within := suffix_of_spelling s ⟨opened,across⟩
    have longer := within.length_le
    omega

/-- No call begins in the added line: its one `t` is followed by a blank. -/
theorem find_added (i : Insertion) (cs : List Char) :
    CallSite.find (i.added ++ cs) = (CallSite.find cs).map (CallSite.moved (Text.byteLength i.added)) := by
  obtain ⟨indent,ending,ends,added⟩ := exists_added_eq i
  have quietEnding : 't' ∉ ending := fun member => absurd (ends member) (by decide)
  obtain ⟨tail,declared,quietTail⟩ :
      ∃ tail, codesDeclaration = ['c','o','n','s'] ++ 't' :: ' ' :: tail ∧ 't' ∉ tail := by
    rw [codesDeclaration_eq]
    exact ⟨_,rfl,by decide⟩
  have split : i.added = '\n' :: (indent.val ++ ['c','o','n','s']) ++ 't' :: ' ' :: (tail ++ ending) := by
    simp [added,declared]
  have quietIndent : 't' ∉ indent.val := by
    intro member
    exact absurd (indent.property _ member) (by decide)
  have quietBefore : 't' ∉ '\n' :: (indent.val ++ ['c','o','n','s']) := by simp [quietIndent]
  have quietAfter : 't' ∉ ' ' :: (tail ++ ending) := by simp [quietTail,quietEnding]
  have unread : Call.scan? ('t' :: (' ' :: (tail ++ ending) ++ cs)) = none := Call.scan?_eq_none (by simp)
  rw [split,List.append_assoc,CallSite.find_append_of_notMem quietBefore,List.cons_append,
    CallSite.find_plain unread,CallSite.find_append_of_notMem quietAfter,CallSite.map_moved_moved,
    CallSite.map_moved_moved,Text.byteLength_append]
  congr 2
  simp only [Text.byteLength]
  omega

/-- The calls found after the line is added: those of the text above it, then those of the text below it. -/
theorem find_ensure {cs : List Char} {i : Insertion} (found : insertion? cs = some i) :
    CallSite.find (ensure cs) =
      CallSite.find i.above ++ (CallSite.find i.below).map (CallSite.moved (i.point + Text.byteLength i.added)) := by
  rw [(ensure_of_insertion? found).2,CallSite.find_append (scan_above i i.below),find_added,
    CallSite.map_moved_moved,Nat.add_comm]
  rfl

/-- Where a site stands after the line is added, if it is left alone. -/
def displaced (cs : List Char) (site : CallSite) : CallSite :=
  match insertion? cs with
  | none => site
  | some i => if site.start < i.point then site else site.moved (Text.byteLength i.added)

theorem displaced_call (cs : List Char) (site : CallSite) : (displaced cs site).call = site.call := by
  unfold displaced
  split
  · rfl
  · split <;> rfl

section Displaced

variable {cs : List Char} {i : Insertion} {site : CallSite} (found : insertion? cs = some i)
include found

theorem displaced_of_lt (above : site.start < i.point) : displaced cs site = site := by
  simp [displaced,found,above]

theorem displaced_of_le (below : i.point ≤ site.start) :
    displaced cs site = site.moved (Text.byteLength i.added) := by
  simp [displaced,found,Nat.not_lt.mpr below]

end Displaced

def Cuts (cs : List Char) (site : CallSite) : Prop := ∃ i, insertion? cs = some i ∧ site.Surrounds i.point

theorem find_ensure_of_uncut {cs : List Char} (uncut : ∀ site ∈ CallSite.find cs, ¬ Cuts cs site) :
    CallSite.find (ensure cs) = (CallSite.find cs).map (displaced cs) := by
  cases found : insertion? cs with
  | none =>
    have still : displaced cs = id := by
      funext site
      simp [displaced,found]
    rw [ensure_of_no_insertion found,still,List.map_id]
  | some i =>
    have whole := (ensure_of_insertion? found).1
    rcases CallSite.find_append_or_surrounds i.above i.below with apart | ⟨site,member,across⟩
    · rw [← whole] at apart
      have upper : (CallSite.find i.above).map (displaced cs) = (CallSite.find i.above).map id := by
        apply List.map_congr_left
        intro site member
        have span := CallSite.span_of_mem_find member
        exact displaced_of_lt found (Nat.lt_of_lt_of_le span.1 span.2)
      have lower (site : CallSite) :
          displaced cs (site.moved i.point) = (site.moved i.point).moved (Text.byteLength i.added) :=
        displaced_of_le found (Nat.le_add_left _ _)
      rw [find_ensure found,apart,List.map_append,upper,List.map_id,List.append_cancel_left_eq,
        ← CallSite.map_moved_moved,List.map_map,List.map_map]
      exact List.map_congr_left fun site _ => (lower site).symm
    · rw [← whole] at member
      exact absurd ⟨i,found,across⟩ (uncut site member)

/-- A call that the line is added into is lost. -/
theorem start_ne_of_cuts {cs : List Char} {site : CallSite} (member : site ∈ CallSite.find cs)
    (cut : Cuts cs site) : ∀ found ∈ CallSite.find (ensure cs), found.start ≠ site.start := by
  obtain ⟨i,insertion,across⟩ := cut
  intro found inside
  rw [find_ensure insertion,List.mem_append,List.mem_map] at inside
  rw [(ensure_of_insertion? insertion).1] at member
  rcases inside with above | ⟨later,_,rfl⟩
  · exact CallSite.start_ne_of_surrounds member across above
  · have before := across.1
    simp only [CallSite.moved]
    omega

/-- Adding the line leaves every call in place exactly when it is added inside none: then each call is found again,
as far along as the line is long if it stands below, and no other; the arguments stay the same and the pass
replaces as many calls as the text held. A call that the line is added into is lost, and in every case the calls
found are those of the text above the line and those of the text below it. -/
theorem find_ensure_eq_iff (cs : List Char) :
    (CallSite.find (ensure cs) = (CallSite.find cs).map (displaced cs) ↔
      ∀ site ∈ CallSite.find cs, ¬ Cuts cs site) ∧
    ((∀ site ∈ CallSite.find cs, ¬ Cuts cs site) →
      (CallSite.find (ensure cs)).map CallSite.call = (CallSite.find cs).map CallSite.call ∧
      ∀ codes : CodeTable, (migrateText codes cs).callCount = (CallSite.find cs).length) ∧
    (∀ site ∈ CallSite.find cs, Cuts cs site → ∀ found ∈ CallSite.find (ensure cs), found.start ≠ site.start) ∧
    ∀ i, insertion? cs = some i →
      CallSite.find (ensure cs) = CallSite.find i.above ++
        (CallSite.find i.below).map (CallSite.moved (i.point + Text.byteLength i.added)) := by
  refine ⟨⟨?_,find_ensure_of_uncut⟩,?_,fun site member cut => start_ne_of_cuts member cut,fun i => find_ensure⟩
  · intro kept site member cut
    obtain ⟨i,found,across⟩ := cut
    have still : site ∈ CallSite.find (ensure cs) := by
      rw [kept,List.mem_map]
      exact ⟨site,member,displaced_of_lt found across.1⟩
    exact start_ne_of_cuts member ⟨i,found,across⟩ site still rfl
  · intro uncut
    have kept := find_ensure_of_uncut uncut
    refine ⟨?_,fun codes => ?_⟩
    · rw [kept,List.map_map]
      exact List.map_congr_left fun site _ => displaced_call cs site
    · have count : (migrateText codes cs).callCount = CallSite.count (ensure cs) := rfl
      rw [count,CallSite.count_eq_length_find,kept,List.length_map]

/-- A call that begins on the line of the base declaration and ends on the next line. -/
def twoLineCall : List Char :=
  baseDeclaration ++
    "; throw new StandardErrorWrapper('NETWORK_TIMEOUT',\n'timed out', \x7b retry: true \x7d)".toList

theorem ensure_loses_twoLineCall :
    (CallSite.find twoLineCall).map CallSite.call =
      [⟨"NETWORK_TIMEOUT".toList,"timed out".toList," retry: true ".toList⟩] ∧
    CallSite.find (ensure twoLineCall) = [] ∧
    (migrateText .builtin twoLineCall).callCount ≠ (CallSite.find twoLineCall).length := by
  decide +kernel

end ErrorMigration.ImportLine
