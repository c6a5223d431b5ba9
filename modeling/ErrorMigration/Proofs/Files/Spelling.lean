import ErrorMigration.Files.Path
import ErrorMigration.Proofs.Text.Search
import Mathlib.Logic.Relation

/-! Spellings of one path. A slash or a dot that does not count can be left out, and this is all that tells two
spellings of the same components apart: both can be shortened to one spelling, which is read off the components. -/
namespace ErrorMigration.Path

open Relation

/-- A spelling is shortened by one slash or one dot: of two slashes, between two slashes, or at the end. -/
inductive Shortens : Path → Path → Prop where
  | slash (front back : String) : Shortens ⟨front ++ "//" ++ back⟩ ⟨front ++ "/" ++ back⟩
  | dot (front back : String) : Shortens ⟨front ++ "/./" ++ back⟩ ⟨front ++ "/" ++ back⟩
  | lastSlash {front : String} (filled : front ≠ "") : Shortens ⟨front ++ "/"⟩ ⟨front⟩
  | lastDot (front : String) : Shortens ⟨front ++ "/."⟩ ⟨front ++ "/"⟩

def spelled (segments : List (List Char)) : Path := ⟨String.ofList (Text.glue '/' segments)⟩

theorem spelled_segments (p : Path) : spelled p.segments = p := by
  simp [spelled,segments,Text.glue_pieces]

theorem spelled_append {front back : List (List Char)} (filled : front ≠ []) (more : back ≠ []) :
    spelled (front ++ back) = ⟨(spelled front).spelling ++ "/" ++ (spelled back).spelling⟩ := by
  rw [spelled,Text.glue_append filled more]
  exact congrArg Path.mk (String.toList_injective (by simp [spelled]))

theorem segments_ne_nil (p : Path) : p.segments ≠ [] := Text.pieces_ne_nil _

theorem segments_append (front back : String) :
    segments ⟨front ++ "/" ++ back⟩ = segments ⟨front⟩ ++ segments ⟨back⟩ := by
  simp [segments,Text.pieces_append_mark]

theorem eq_empty_of_segments {p : Path} (blank : p.segments = [[]]) : p = ⟨""⟩ := by
  rw [← spelled_segments p,blank]
  rfl

theorem isInert_iff {segment : List Char} : isInert segment = true ↔ segment = [] ∨ segment = ['.'] := by
  simp [isInert]

def componentsOf : List (List Char) → List Component
  | [] => []
  | first :: rest => (if first ≠ [] then [Component.ofSegment first] else if rest = [] then [] else [.root]) ++
      (rest.filter fun segment => !isInert segment).map Component.ofSegment

theorem components_eq (p : Path) : p.components = componentsOf p.segments := by
  unfold components componentsOf
  rfl

theorem componentsOf_inert {front back : List (List Char)} {segment : List Char} (inert : isInert segment = true)
    (filled : front ≠ []) (kept : front ++ back ≠ [[]]) :
    componentsOf (front ++ segment :: back) = componentsOf (front ++ back) := by
  obtain ⟨first,rest,rfl⟩ := List.exists_cons_of_ne_nil filled
  have same : (rest ++ segment :: back).filter (fun segment => !isInert segment) =
      (rest ++ back).filter fun segment => !isInert segment := by
    simp [inert]
  have more : rest ++ segment :: back ≠ [] := by simp
  by_cases blank : first = []
  · have more' : rest ++ back ≠ [] := by
      intro none
      rw [List.cons_append,blank,none] at kept
      exact kept rfl
    rw [List.cons_append,List.cons_append,componentsOf,componentsOf,same,if_neg more,if_neg more']
  · rw [List.cons_append,List.cons_append,componentsOf,componentsOf,same,if_pos blank,if_pos blank]

/-- A shorter spelling has the same components. -/
theorem Shortens.same {p q : Path} (shortens : Shortens p q) : Same p q := by
  have several (front back : Path) : front.segments ++ back.segments ≠ [[]] := by
    intro single
    have left := List.length_pos_iff.mpr front.segments_ne_nil
    have right := List.length_pos_iff.mpr back.segments_ne_nil
    have count := congrArg List.length single
    rw [List.length_append,List.length_singleton] at count
    omega
  rw [Same,components_eq,components_eq]
  cases shortens with
  | slash front back =>
    have longer : segments ⟨front ++ "//" ++ back⟩ = segments ⟨front⟩ ++ [] :: segments ⟨back⟩ := by
      simp [segments,Text.pieces_append_mark,Text.pieces]
    rw [longer,segments_append,componentsOf_inert rfl (segments_ne_nil _) (several _ _)]
  | dot front back =>
    have longer : segments ⟨front ++ "/./" ++ back⟩ = segments ⟨front⟩ ++ ['.'] :: segments ⟨back⟩ := by
      simp [segments,Text.pieces_append_mark,Text.pieces]
    rw [longer,segments_append,componentsOf_inert rfl (segments_ne_nil _) (several _ _)]
  | @lastSlash front filled =>
    have longer : segments ⟨front ++ "/"⟩ = segments ⟨front⟩ ++ [[]] := by
      simp [segments,Text.pieces_append_mark,Text.pieces]
    have kept : segments ⟨front⟩ ++ [] ≠ [[]] := by
      intro blank
      rw [List.append_nil] at blank
      exact filled (congrArg Path.spelling (eq_empty_of_segments blank))
    rw [longer,componentsOf_inert rfl (segments_ne_nil _) kept,List.append_nil]
  | lastDot front =>
    have longer : segments ⟨front ++ "/."⟩ = segments ⟨front⟩ ++ [['.']] := by
      simp [segments,Text.pieces_append_mark,Text.pieces]
    have shorter : segments ⟨front ++ "/"⟩ = segments ⟨front⟩ ++ [[]] := by
      simp [segments,Text.pieces_append_mark,Text.pieces]
    rw [longer,shorter]
    by_cases blank : segments ⟨front⟩ = [[]]
    · rw [blank]
      rfl
    · have kept : segments ⟨front⟩ ++ [] ≠ [[]] := by rwa [List.append_nil]
      rw [componentsOf_inert rfl (segments_ne_nil _) kept,componentsOf_inert rfl (segments_ne_nil _) kept]

/-- A segment that adds nothing can be left out. -/
theorem shortens_inert {front back : List (List Char)} {segment : List Char} (inert : isInert segment = true)
    (filled : front ≠ []) (kept : front ++ back ≠ [[]]) :
    ReflTransGen Shortens (spelled (front ++ segment :: back)) (spelled (front ++ back)) := by
  rw [spelled_append filled (by simp)]
  by_cases last : back = []
  · subst last
    rw [List.append_nil] at kept ⊢
    have written : (spelled front).spelling ≠ "" := by
      intro nothing
      rw [spelled,← String.toList_eq_nil_iff,String.toList_ofList,Text.glue_eq_nil_iff] at nothing
      exact nothing.elim filled kept
    rcases isInert_iff.mp inert with rfl | rfl
    · have ended : (spelled front).spelling ++ "/" ++ (spelled [[]]).spelling = (spelled front).spelling ++ "/" :=
        String.toList_injective (by simp [spelled,Text.glue])
      rw [ended]
      exact .single (.lastSlash written)
    · have ended : (spelled front).spelling ++ "/" ++ (spelled [['.']]).spelling = (spelled front).spelling ++ "/." :=
        String.toList_injective (by simp [spelled,Text.glue])
      rw [ended]
      exact .head (.lastDot _) (.single (.lastSlash written))
  · rw [spelled_append filled last]
    rcases isInert_iff.mp inert with rfl | rfl
    · have doubled : (spelled front).spelling ++ "/" ++ (spelled ([] :: back)).spelling =
          (spelled front).spelling ++ "//" ++ (spelled back).spelling :=
        String.toList_injective (by simp [spelled,Text.glue_cons _ last])
      rw [doubled]
      exact .single (.slash _ _)
    · have dotted : (spelled front).spelling ++ "/" ++ (spelled (['.'] :: back)).spelling =
          (spelled front).spelling ++ "/./" ++ (spelled back).spelling :=
        String.toList_injective (by simp [spelled,Text.glue_cons _ last])
      rw [dotted]
      exact .single (.dot _ _)

theorem shortens_filter {front back : List (List Char)} (filled : front ≠ [])
    (kept : front ++ back.filter (fun segment => !isInert segment) ≠ [[]]) :
    ReflTransGen Shortens (spelled (front ++ back))
      (spelled (front ++ back.filter fun segment => !isInert segment)) := by
  induction back generalizing front with
  | nil => exact .refl
  | cons segment back ih =>
    by_cases inert : isInert segment = true
    · have dropped : (segment :: back).filter (fun segment => !isInert segment) =
          back.filter fun segment => !isInert segment := List.filter_cons_of_neg (by simp [inert])
      rw [dropped] at kept ⊢
      refine (shortens_inert inert filled ?_).trans (ih filled kept)
      intro blank
      obtain ⟨rfl,rfl⟩ | ⟨rfl,rfl⟩ := List.append_eq_singleton_iff.mp blank
      · contradiction
      · exact kept rfl
    · have taken : (segment :: back).filter (fun segment => !isInert segment) =
          segment :: back.filter fun segment => !isInert segment := List.filter_cons_of_pos (by simp [inert])
      rw [taken,List.append_cons] at kept
      rw [taken,List.append_cons,List.append_cons front segment (back.filter _)]
      exact ih (by simp) kept

/-- Behind the slash of the root nothing is left if nothing counts. -/
theorem shortens_root {segment : List Char} {rest : List (List Char)} (inert : isInert segment = true)
    (nothing : rest.filter (fun segment => !isInert segment) = []) :
    ReflTransGen Shortens (spelled ([] :: segment :: rest)) ⟨"/"⟩ := by
  have short : ReflTransGen Shortens (spelled ([[],segment] ++ rest)) _ := shortens_filter (by simp) (by simp)
  rw [nothing,List.append_nil] at short
  refine short.trans ?_
  rcases isInert_iff.mp inert with rfl | rfl
  · exact .refl
  · exact .single (.lastDot "")

def Component.segment : Component → List Char
  | .root => []
  | .here => ['.']
  | .up => ['.','.']
  | .name text => text.toList

theorem Component.segment_ofSegment (segment : List Char) : (ofSegment segment).segment = segment := by
  unfold ofSegment
  split
  · rfl
  · rfl
  · exact String.toList_ofList

theorem Component.ofSegment_ne_root (segment : List Char) : ofSegment segment ≠ .root := by
  unfold ofSegment
  split <;> simp

def shortest (components : List Component) : Path :=
  if components = [.root] then ⟨"/"⟩ else spelled (components.map Component.segment)

theorem shortest_componentsOf {first : List Char} {rest : List (List Char)}
    (counts : first ≠ [] ∨ rest.filter (fun segment => !isInert segment) ≠ []) :
    shortest (componentsOf (first :: rest)) = spelled (first :: rest.filter fun segment => !isInert segment) := by
  have texts (segments : List (List Char)) : (segments.map Component.ofSegment).map Component.segment = segments := by
    simp [Function.comp_def,Component.segment_ofSegment]
  rw [componentsOf]
  by_cases blank : first = []
  · have behind := counts.resolve_left (not_not_intro blank)
    have more : rest ≠ [] := by
      rintro rfl
      contradiction
    have notRoot : Component.root :: (rest.filter fun segment => !isInert segment).map Component.ofSegment ≠
        [.root] := by simpa using behind
    rw [if_neg (not_not_intro blank),if_neg more,List.singleton_append,shortest,if_neg notRoot,List.map_cons,texts,
      blank]
    rfl
  · have notRoot : Component.ofSegment first :: (rest.filter fun segment => !isInert segment).map Component.ofSegment ≠
        [.root] := fun same => Component.ofSegment_ne_root first (List.cons.inj same).1
    rw [if_pos blank,List.singleton_append,shortest,if_neg notRoot,List.map_cons,texts,Component.segment_ofSegment]

/-- Every spelling can be shortened to the one that its components have. -/
theorem shortens_shortest (p : Path) : ReflTransGen Shortens p (shortest p.components) := by
  obtain ⟨first,rest,split⟩ := List.exists_cons_of_ne_nil p.segments_ne_nil
  have whole : p = spelled (first :: rest) := by rw [← split,spelled_segments]
  rw [components_eq,split]
  by_cases counts : first ≠ [] ∨ rest.filter (fun segment => !isInert segment) ≠ []
  · have kept : [first] ++ rest.filter (fun segment => !isInert segment) ≠ [[]] := by
      rintro alone
      obtain ⟨blank,nothing⟩ := List.cons.inj alone
      exact counts.elim (fun filled => filled blank) fun filled => filled nothing
    rw [shortest_componentsOf counts,whole]
    exact shortens_filter (by simp) kept
  · rw [not_or,not_not,not_not] at counts
    obtain ⟨rfl,nothing⟩ := counts
    cases rest with
    | nil =>
      rw [whole]
      exact .refl
    | cons segment rest =>
      obtain ⟨inert,further⟩ := List.forall_mem_cons.mp (List.filter_eq_nil_iff.mp nothing)
      have root : componentsOf ([] :: segment :: rest) = [.root] := by simp [componentsOf,nothing]
      rw [root,shortest,if_pos rfl,whole]
      exact shortens_root (by simpa using inert) (List.filter_eq_nil_iff.mpr further)

/-- Two paths have the same components if and only if leaving out slashes and dots makes one spelling of both. -/
theorem same_iff_join_shortens {p q : Path} : Same p q ↔ Join (ReflTransGen Shortens) p q := by
  have kept {p q : Path} (shortened : ReflTransGen Shortens p q) : Same p q := by
    induction shortened with
    | refl => rfl
    | tail _ step same => exact same.trans step.same
  constructor
  · intro same
    refine ⟨shortest p.components,shortens_shortest p,?_⟩
    rw [same]
    exact shortens_shortest q
  · rintro ⟨r,left,right⟩
    exact (kept left).trans (kept right).symm

end ErrorMigration.Path
