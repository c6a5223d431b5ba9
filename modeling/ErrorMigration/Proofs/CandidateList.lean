import ErrorMigration.Candidates
import ErrorMigration.Proofs.Files.Order
import ErrorMigration.Proofs.Files.Spelling
import Mathlib.Data.List.Sort

/-! Candidates that are given beforehand. Sorting is stable and repeats are dropped behind the first of them, so each
path is listed once, in the spelling that came first; the components that are listed depend on nothing but those that
were given. -/
namespace ErrorMigration

namespace Path

theorem filter_dropAfter {last : Path} {rest : List Path} (ordered : (last :: rest).Pairwise fun a b => a.key ≤ b.key)
    (p : Path) : (dropRepeats.dropAfter last rest).filter (fun q => Same q p) =
      if Same last p then [] else (rest.filter fun q => Same q p).take 1 := by
  induction rest generalizing last with
  | nil => simp [dropRepeats.dropAfter]
  | cons q rest ih =>
    obtain ⟨below,later⟩ := List.pairwise_cons.mp ordered
    rw [dropRepeats.dropAfter]
    by_cases repeated : Same last q
    · have skipped := ordered.sublist ((List.sublist_cons_self q rest).cons_cons last)
      have alike : Same q p ↔ Same last p := by
        rw [same_iff_key_eq,same_iff_key_eq,same_iff_key_eq.mp repeated]
      rw [if_pos repeated,ih skipped]
      by_cases here : Same last p <;> simp [here,alike]
    rw [if_neg repeated,List.filter_cons,ih later]
    by_cases here : Same q p
    · have other : ¬ Same last p := fun same => repeated (same.trans here.symm)
      simp [here,other]
    by_cases before : Same last p
    · -- the order has gone past the path, so there is none of it behind
      have none : rest.filter (fun r => Same r p) = [] := by
        rw [List.filter_eq_nil_iff]
        intro r member same
        rw [decide_eq_true_iff,same_iff_key_eq] at same
        have upper := (List.pairwise_cons.mp later).1 r member
        rw [same,← same_iff_key_eq.mp before] at upper
        exact repeated (same_iff_key_eq.mpr (le_antisymm (below q List.mem_cons_self) upper))
      simp [here,before,none]
    · simp [here,before]

/-- Of the spellings of one path in a sorted list the first is kept. -/
theorem filter_dropRepeats {paths : List Path} (ordered : paths.Pairwise fun a b => a.key ≤ b.key) (p : Path) :
    (dropRepeats paths).filter (fun q => Same q p) = (paths.filter fun q => Same q p).take 1 := by
  cases paths with
  | nil => rfl
  | cons first rest =>
    rw [dropRepeats,List.filter_cons,filter_dropAfter ordered]
    by_cases here : Same first p <;> simp [here]

theorem pairwise_dropAfter {last : Path} {rest : List Path}
    (ordered : (last :: rest).Pairwise fun a b => a.key ≤ b.key) :
    (last :: dropRepeats.dropAfter last rest).Pairwise fun a b => a.key < b.key := by
  induction rest generalizing last with
  | nil => simp [dropRepeats.dropAfter]
  | cons q rest ih =>
    obtain ⟨below,later⟩ := List.pairwise_cons.mp ordered
    rw [dropRepeats.dropAfter]
    split
    · exact ih (ordered.sublist ((List.sublist_cons_self q rest).cons_cons last))
    · rename_i other
      have next : last.key < q.key :=
        lt_of_le_of_ne (below q List.mem_cons_self) fun same => other (same_iff_key_eq.mpr same)
      refine .cons ?_ (ih later)
      intro r member
      rcases List.mem_cons.mp member with rfl | member
      · exact next
      · exact next.trans (List.rel_of_pairwise_cons (ih later) member)

theorem pairwise_dropRepeats {paths : List Path} (ordered : paths.Pairwise fun a b => a.key ≤ b.key) :
    (dropRepeats paths).Pairwise fun a b => a.key < b.key := by
  cases paths with
  | nil => exact .nil
  | cons first rest => exact pairwise_dropAfter ordered

/-- Where no two neighbours have the same components nothing is dropped. -/
theorem dropRepeats_of_pairwise {paths : List Path} (ordered : paths.Pairwise fun a b => a.key < b.key) :
    dropRepeats paths = paths := by
  have kept {last : Path} {rest : List Path} (ordered : (last :: rest).Pairwise fun a b => a.key < b.key) :
      dropRepeats.dropAfter last rest = rest := by
    induction rest generalizing last with
    | nil => rfl
    | cons q rest ih =>
      obtain ⟨below,later⟩ := List.pairwise_cons.mp ordered
      have other : ¬ Same last q := fun same => (below q List.mem_cons_self).ne (same_iff_key_eq.mp same)
      rw [dropRepeats.dropAfter,if_neg other,ih later]
  cases paths with
  | nil => rfl
  | cons first rest => rw [dropRepeats,kept ordered]

/-- A list of paths is in path order and holds each of the given paths once, in the spelling that was given first. -/
structure IsNormalForm (paths found : List Path) : Prop where
  ordered : found.Pairwise fun p q => List.Lex Component.Before p.components q.components
  given : ∀ q ∈ found, q ∈ paths
  once : ∀ p ∈ paths, ∃ q, paths.find? (fun q => Same q p) = some q ∧ found.filter (fun q => Same q p) = [q]

theorem isNormalForm_dropRepeats (paths : List Path) : IsNormalForm paths (dropRepeats (sort paths)) := by
  have kept (p : Path) : (dropRepeats (sort paths)).filter (fun q => Same q p) =
      (paths.find? fun q => Same q p).toList := by
    rw [filter_dropRepeats (pairwise_sort paths),filter_sort,List.take_one,List.head?_filter]
  refine ⟨?_,?_,?_⟩
  · exact (pairwise_dropRepeats (pairwise_sort paths)).imp fun before =>
      precedes_iff_lex.mp (precedes_iff_key_lt.mpr before)
  · intro q member
    have own : q ∈ (dropRepeats (sort paths)).filter fun p => Same p q :=
      List.mem_filter.mpr ⟨member,decide_eq_true rfl⟩
    rw [kept,Option.mem_toList] at own
    exact List.mem_of_find?_eq_some own
  · intro p member
    have some : (paths.find? fun q => Same q p).isSome = true :=
      List.find?_isSome.mpr ⟨p,member,decide_eq_true rfl⟩
    obtain ⟨q,found⟩ := Option.isSome_iff_exists.mp some
    exact ⟨q,found,by rw [kept,found,Option.toList_some]⟩

namespace IsNormalForm

variable {paths paths' found found' : List Path}

theorem pairwise_key (normal : IsNormalForm paths found) : found.Pairwise fun p q => p.key < q.key :=
  normal.ordered.imp fun before => precedes_iff_key_lt.mp (precedes_iff_lex.mpr before)

theorem mem_map_key (normal : IsNormalForm paths found) (k : List (ℕ ×ₗ List ℕ)) :
    k ∈ found.map key ↔ k ∈ paths.map key := by
  simp only [List.mem_map]
  constructor
  · rintro ⟨q,member,rfl⟩
    exact ⟨q,normal.given q member,rfl⟩
  · rintro ⟨p,member,rfl⟩
    obtain ⟨q,_,kept⟩ := normal.once p member
    obtain ⟨inside,same⟩ := List.mem_filter.mp (kept ▸ List.mem_singleton_self q)
    exact ⟨q,inside,same_iff_key_eq.mp (of_decide_eq_true same)⟩

/-- Normal forms of the same paths differ in spellings at most. -/
theorem forall₂_same (normal : IsNormalForm paths found) (normal' : IsNormalForm paths' found')
    (permuted : paths.Perm paths') : List.Forall₂ Same found found' := by
  have keys : found.map key = found'.map key :=
    (List.pairwise_map.mpr normal.pairwise_key).eq_of_mem_iff (List.pairwise_map.mpr normal'.pairwise_key) fun k => by
      rw [normal.mem_map_key,normal'.mem_map_key,(permuted.map key).mem_iff]
  rw [← List.forall₂_eq_eq_eq,List.forall₂_map_left_iff,List.forall₂_map_right_iff] at keys
  exact keys.imp fun _ _ => same_iff_key_eq.mpr

end IsNormalForm

end Path

namespace Candidates

/-- Paths are the same if their spellings differ by slashes and dots that do not count. Of a list of paths each is
found once, in path order and in the spelling that was given first; the order in which they were given decides about
spellings only, and what is found is in normal form already. -/
theorem given_normal_form :
    (∀ p q : Path, p.Same q ↔ Relation.Join (Relation.ReflTransGen Path.Shortens) p q) ∧
    ∀ (paths : List Path) (t : Tree), ∃ found, given paths t = .ok found ∧ Path.IsNormalForm paths found ∧
      (∀ paths', paths.Perm paths' →
        ∃ found', given paths' t = .ok found' ∧ List.Forall₂ Path.Same found found') ∧
      given found t = .ok found := by
  refine ⟨fun p q => Path.same_iff_join_shortens,fun paths t => ?_⟩
  have normal := Path.isNormalForm_dropRepeats paths
  refine ⟨_,rfl,normal,?_,?_⟩
  · intro paths' permuted
    exact ⟨_,rfl,normal.forall₂_same (Path.isNormalForm_dropRepeats paths') permuted⟩
  · have sorted : Path.sort (Path.dropRepeats (Path.sort paths)) = Path.dropRepeats (Path.sort paths) :=
      List.mergeSort_of_pairwise (normal.pairwise_key.imp fun before => Path.not_precedes_iff.mpr before.le)
    rw [given,sorted,Path.dropRepeats_of_pairwise normal.pairwise_key]

/-- Three spellings of one path, and a path that a leading dot tells apart from it. -/
def respelledPaths : List Path := [⟨"src//a.js"⟩,⟨"./src/a.js"⟩,⟨"src/a.js"⟩,⟨"src/./a.js/"⟩]

theorem respelledPaths_found :
    respelledPaths.Perm respelledPaths.reverse ∧
    ∃ found found', given respelledPaths (.empty []) = .ok found ∧
      given respelledPaths.reverse (.empty []) = .ok found' ∧ List.Forall₂ Path.Same found found' ∧
      ⟨"src//a.js"⟩ ∈ found ∧ ⟨"src/a.js"⟩ ∉ found ∧ ⟨"./src/a.js"⟩ ∈ found := by
  have permuted : respelledPaths.Perm respelledPaths.reverse := (List.reverse_perm _).symm
  obtain ⟨found,located,normal,others,_⟩ := given_normal_form.2 respelledPaths (.empty [])
  obtain ⟨found',located',same⟩ := others _ permuted
  obtain ⟨q,first,kept⟩ := normal.once ⟨"src/a.js"⟩ (by decide +kernel)
  obtain ⟨q',first',kept'⟩ := normal.once ⟨"./src/a.js"⟩ (by decide +kernel)
  have slashes : respelledPaths.find? (fun q => q.Same ⟨"src/a.js"⟩) = some ⟨"src//a.js"⟩ := by decide +kernel
  have dotted : respelledPaths.find? (fun q => q.Same ⟨"./src/a.js"⟩) = some ⟨"./src/a.js"⟩ := by decide +kernel
  obtain rfl : q = ⟨"src//a.js"⟩ := by simpa [slashes] using first.symm
  obtain rfl : q' = ⟨"./src/a.js"⟩ := by simpa [dotted] using first'.symm
  refine ⟨permuted,found,found',located,located',same,?_,?_,?_⟩
  · exact List.mem_of_mem_filter (kept ▸ List.mem_singleton_self _)
  · intro member
    have both : (⟨"src/a.js"⟩ : Path) ∈ found.filter fun q => q.Same ⟨"src/a.js"⟩ :=
      List.mem_filter.mpr ⟨member,decide_eq_true rfl⟩
    rw [kept,List.mem_singleton] at both
    exact absurd both (by decide)
  · exact List.mem_of_mem_filter (kept' ▸ List.mem_singleton_self _)

end Candidates

end ErrorMigration
