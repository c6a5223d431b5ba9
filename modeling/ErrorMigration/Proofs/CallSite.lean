import ErrorMigration.Proofs.CallGrammar
import ErrorMigration.Proofs.Text.Encoding

/-! Segments and sites. A text is read from left to right, one spelling or one character at a time; that
reading gives an induction, and the sites are its spellings with the bytes that stand before them. -/
namespace ErrorMigration

namespace Call

theorem scan?_nil : scan? [] = none := by
  simp [scan?,head?,Text.skip?]

namespace Spelling

theorem exists_source_eq (s : Spelling) : ∃ tail, s.source = 't' :: 'h' :: tail := by
  simp only [source,head,List.append_assoc,List.cons_append,List.nil_append]
  exact ⟨_,rfl⟩

theorem source_ne_nil (s : Spelling) : s.source ≠ [] := by
  intro empty
  have read := s.scan?_source []
  rw [empty,List.append_nil,scan?_nil] at read
  contradiction

end Spelling

theorem scan?_eq_none {cs : List Char} (other : ∀ tail, cs ≠ 't' :: 'h' :: tail) : scan? cs = none := by
  cases read : scan? cs with
  | none => rfl
  | some found =>
    obtain ⟨s,_,split⟩ := scan?_eq_some_iff.mp read
    obtain ⟨tail,start⟩ := s.exists_source_eq
    rw [start] at split
    exact absurd split (other _)

theorem scan?_eq_none_of_ne {c : Char} (other : c ≠ 't') (cs : List Char) : scan? (c :: cs) = none :=
  scan?_eq_none fun _ same => other (List.cons.inj same).1

end Call

namespace Segment

theorem scanFrom_eq_scan (covered : Nat) (cs : List Char) : scanFrom covered cs = scan (cs.drop covered) := by
  induction cs generalizing covered with
  | nil => simp [scan,scanFrom]
  | cons c cs ih =>
    cases covered with
    | zero => rfl
    | succ covered => simpa [scanFrom] using ih covered

theorem scan_plain {c : Char} {cs : List Char} (unread : Call.scan? (c :: cs) = none) :
    scan (c :: cs) = .plain c :: scan cs := by
  simp [scan,scanFrom,unread]

theorem scan_source (s : Call.Spelling) (rest : List Char) :
    scan (s.source ++ rest) = .call s.source s.call :: scan rest := by
  have read := s.scan?_source rest
  cases split : s.source with
  | nil => exact absurd split s.source_ne_nil
  | cons c cs =>
    rw [split] at read
    rw [List.cons_append] at read ⊢
    rw [scan,scanFrom]
    simp [read,scanFrom_eq_scan]

/-- A text is empty, or starts with a spelling, or starts with a character that starts none. -/
theorem induction_on {motive : List Char → Prop} (cs : List Char) (nil : motive [])
    (call : ∀ (s : Call.Spelling) (rest : List Char), motive rest → motive (s.source ++ rest))
    (plain : ∀ (c : Char) (cs : List Char), Call.scan? (c :: cs) = none → motive cs → motive (c :: cs)) :
    motive cs := by
  induction length : cs.length using Nat.strong_induction_on generalizing cs with
  | _ n ih =>
    cases cs with
    | nil => exact nil
    | cons c cs =>
      cases read : Call.scan? (c :: cs) with
      | none => exact plain c cs read (ih _ (by simp [← length]) cs rfl)
      | some found =>
        obtain ⟨s,_,split⟩ := Call.scan?_eq_some_iff.mp read
        have positive := List.length_pos_of_ne_nil s.source_ne_nil
        have sum := congrArg List.length split
        rw [List.length_append] at sum
        rw [split]
        exact call s found.2 (ih _ (by omega) found.2 rfl)

theorem flatMap_source_scan (cs : List Char) : (scan cs).flatMap source = cs := by
  induction cs using induction_on with
  | nil => rfl
  | call s rest ih => rw [scan_source,List.flatMap_cons,ih]; rfl
  | plain c cs unread ih => rw [scan_plain unread,List.flatMap_cons,ih]; rfl

/-- Two texts read one after the other are read apart, unless a call begins in the first and ends in the second. -/
theorem scan_append (above below : List Char) :
    scan (above ++ below) = scan above ++ scan below ∨
      ∃ (read : List Segment) (opened rest : List Char) (s : Call.Spelling),
        above = read.flatMap source ++ opened ∧ opened ≠ [] ∧ opened ++ below = s.source ++ rest ∧
        rest.length < below.length ∧
        scan (above ++ below) = read ++ .call s.source s.call :: scan rest := by
  induction above using induction_on with
  | nil => exact .inl rfl
  | call s above ih =>
    rw [List.append_assoc,scan_source,scan_source]
    rcases ih with apart | ⟨read,opened,rest,s',split,begun,across,shorter,scanned⟩
    · exact .inl (by rw [apart]; rfl)
    · refine .inr ⟨.call s.source s.call :: read,opened,rest,s',?_,begun,across,shorter,by rw [scanned]; rfl⟩
      rw [split,List.flatMap_cons,List.append_assoc]
      rfl
  | plain c above unread ih =>
    cases found : Call.scan? (c :: above ++ below) with
    | none =>
      rw [List.cons_append] at found ⊢
      rw [scan_plain found,scan_plain unread]
      rcases ih with apart | ⟨read,opened,rest,s,split,begun,across,shorter,scanned⟩
      · exact .inl (by rw [apart]; rfl)
      · exact .inr ⟨.plain c :: read,opened,rest,s,by rw [split]; rfl,begun,across,shorter,by rw [scanned]; rfl⟩
    | some result =>
      obtain ⟨s,_,across⟩ := Call.scan?_eq_some_iff.mp found
      refine .inr ⟨[],c :: above,result.2,s,rfl,by simp,across,?_,by rw [across,scan_source]; rfl⟩
      -- A spelling that ended within the first text would have been read there too.
      by_contra long
      have lengths := congrArg List.length across
      simp only [List.length_append] at lengths
      obtain ⟨tail,split⟩ : s.source <+: c :: above :=
        List.prefix_of_prefix_length_le ⟨result.2,across.symm⟩ ⟨below,rfl⟩ (by omega)
      have read := s.scan?_source tail
      rw [split,unread] at read
      contradiction

end Segment

namespace CallSite

/-- The site of the same call after `bytes` more bytes before it. -/
def moved (bytes : Nat) (site : CallSite) : CallSite := ⟨site.start + bytes,site.stop + bytes,site.call⟩

theorem map_moved_zero (sites : List CallSite) : sites.map (moved 0) = sites := List.map_id sites

theorem map_moved_moved (a b : Nat) (sites : List CallSite) :
    (sites.map (moved a)).map (moved b) = sites.map (moved (a + b)) := by
  simp [moved,Nat.add_assoc]

theorem ofSegments_append (offset : Nat) (xs ys : List Segment) :
    ofSegments offset (xs ++ ys) =
      ofSegments offset xs ++ ofSegments (offset + Text.byteLength (xs.flatMap Segment.source)) ys := by
  induction xs generalizing offset with
  | nil => rfl
  | cons x xs ih =>
    rw [List.flatMap_cons,Text.byteLength_append,← Nat.add_assoc]
    cases x with
    | plain c => simp [ofSegments,ih,Segment.source,Text.byteLength]
    | call source found => simp [ofSegments,ih,Segment.source]

theorem ofSegments_moved (offset bytes : Nat) (xs : List Segment) :
    ofSegments (offset + bytes) xs = (ofSegments offset xs).map (moved bytes) := by
  induction xs generalizing offset with
  | nil => rfl
  | cons x xs ih =>
    cases x with
    | plain c => simp [ofSegments,← ih,Nat.add_right_comm]
    | call source found => simp [ofSegments,← ih,moved,Nat.add_right_comm]

theorem length_ofSegments (offset : Nat) (xs : List Segment) :
    (ofSegments offset xs).length = xs.countP Segment.isCall := by
  induction xs generalizing offset with
  | nil => rfl
  | cons x xs ih => cases x <;> simp [ofSegments,ih,List.countP_cons,Segment.isCall]

theorem count_eq_length_find (cs : List Char) : count cs = (find cs).length :=
  (length_ofSegments 0 _).symm

/-- Texts that are read apart have their sites one after the other. -/
theorem find_append {above below : List Char}
    (apart : Segment.scan (above ++ below) = Segment.scan above ++ Segment.scan below) :
    find (above ++ below) = find above ++ (find below).map (moved (Text.byteLength above)) := by
  unfold find
  rw [apart,ofSegments_append,Segment.flatMap_source_scan,ofSegments_moved]

theorem find_source (s : Call.Spelling) (rest : List Char) :
    find (s.source ++ rest) =
      ⟨0,Text.byteLength s.source,s.call⟩ :: (find rest).map (moved (Text.byteLength s.source)) := by
  simp [find,Segment.scan_source,ofSegments,← ofSegments_moved]

theorem find_plain {c : Char} {cs : List Char} (unread : Call.scan? (c :: cs) = none) :
    find (c :: cs) = (find cs).map (moved c.utf8Size) := by
  simp [find,Segment.scan_plain unread,ofSegments,← ofSegments_moved]

/-- Characters that start no call only move the sites behind them. -/
theorem find_append_of_notMem {quiet : List Char} (absent : 't' ∉ quiet) (cs : List Char) :
    find (quiet ++ cs) = (find cs).map (moved (Text.byteLength quiet)) := by
  induction quiet with
  | nil => exact (map_moved_zero _).symm
  | cons c quiet ih =>
    simp only [List.mem_cons,not_or] at absent
    have unread := Call.scan?_eq_none_of_ne (Ne.symm absent.1) (quiet ++ cs)
    rw [List.cons_append,find_plain unread,ih absent.2,map_moved_moved,Text.byteLength,Nat.add_comm]

/-- A site is the place of a spelling. -/
theorem exists_of_mem_find {cs : List Char} {site : CallSite} (member : site ∈ find cs) :
    ∃ (before after : List Char) (s : Call.Spelling), cs = before ++ (s.source ++ after) ∧
      site = ⟨Text.byteLength before,Text.byteLength before + Text.byteLength s.source,s.call⟩ := by
  induction cs using Segment.induction_on generalizing site with
  | nil => simp [find,Segment.scan,Segment.scanFrom,ofSegments] at member
  | call s rest ih =>
    rw [find_source,List.mem_cons,List.mem_map] at member
    rcases member with rfl | ⟨inner,member,rfl⟩
    · exact ⟨[],rest,s,rfl,by simp [Text.byteLength]⟩
    · obtain ⟨before,after,s',split,rfl⟩ := ih member
      refine ⟨s.source ++ before,after,s',by rw [split,List.append_assoc],?_⟩
      simp only [moved,Text.byteLength_append,mk.injEq,and_true]
      omega
  | plain c cs unread ih =>
    rw [find_plain unread,List.mem_map] at member
    obtain ⟨inner,member,rfl⟩ := member
    obtain ⟨before,after,s,split,rfl⟩ := ih member
    refine ⟨c :: before,after,s,by rw [split]; rfl,?_⟩
    simp only [moved,Text.byteLength,mk.injEq,and_true]
    omega

theorem span_of_mem_find {cs : List Char} {site : CallSite} (member : site ∈ find cs) :
    site.start < site.stop ∧ site.stop ≤ Text.byteLength cs := by
  obtain ⟨before,after,s,rfl,rfl⟩ := exists_of_mem_find member
  have positive := Text.byteLength_pos s.source_ne_nil
  simp only [Text.byteLength_append]
  omega

def Surrounds (site : CallSite) (offset : Nat) : Prop := site.start < offset ∧ offset < site.stop

theorem find_append_or_surrounds (above below : List Char) :
    find (above ++ below) = find above ++ (find below).map (moved (Text.byteLength above)) ∨
      ∃ site ∈ find (above ++ below), site.Surrounds (Text.byteLength above) := by
  rcases Segment.scan_append above below with apart | ⟨read,opened,rest,s,split,begun,across,shorter,scanned⟩
  · exact .inl (find_append apart)
  · refine .inr ⟨⟨Text.byteLength (read.flatMap Segment.source),
      Text.byteLength (read.flatMap Segment.source) + Text.byteLength s.source,s.call⟩,?_,?_⟩
    · rw [find,scanned,ofSegments_append]
      simp [ofSegments]
    · have lengths := congrArg List.length across
      simp only [List.length_append] at lengths
      obtain ⟨more,longer⟩ : opened <+: s.source :=
        List.prefix_of_prefix_length_le ⟨below,rfl⟩ ⟨rest,across.symm⟩ (by omega)
      have beyond : more ≠ [] := by
        rintro rfl
        rw [List.append_nil] at longer
        rw [longer] at lengths
        omega
      have openedBytes := Text.byteLength_pos begun
      have beyondBytes := Text.byteLength_pos beyond
      rw [split,← longer,Surrounds]
      simp only [Text.byteLength_append]
      omega

/-- A call that reaches across the end of a text has no site in that text. -/
theorem start_ne_of_surrounds {above below : List Char} {site found : CallSite}
    (member : site ∈ find (above ++ below)) (across : site.Surrounds (Text.byteLength above))
    (inside : found ∈ find above) : found.start ≠ site.start := by
  intro same
  have bounds := span_of_mem_find inside
  obtain ⟨before,after,s,split,rfl⟩ := exists_of_mem_find member
  obtain ⟨before',after',s',split',rfl⟩ := exists_of_mem_find inside
  -- The two spellings start at the same character, so they are one.
  have start : before' = before := by
    have prefixed : before' <+: above ++ below := by
      rw [split',List.append_assoc]
      exact List.prefix_append _ _
    exact Text.eq_of_prefix_of_byteLength_eq prefixed ⟨_,split.symm⟩ same
  rw [split',start,List.append_assoc,List.append_assoc,List.append_cancel_left_eq] at split
  have read := s.scan?_source after
  rw [← split,s'.scan?_source,Option.some.injEq,Prod.mk.injEq] at read
  rw [read.2,List.append_cancel_right_eq] at split
  have beyond := across.2
  simp only [← split,← start] at bounds beyond
  omega

end CallSite

end ErrorMigration
