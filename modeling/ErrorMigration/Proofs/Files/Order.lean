import ErrorMigration.Proofs.Files.Path
import Mathlib.Data.List.Lex
import Mathlib.Data.Prod.Lex

/-! The order of paths. Components are compared by a key in a linear order, and lists of components as lists of
keys, so sorting is told by its members: a sorted list of paths with different components is the only one with
its members. Paths with the same components keep the order that they came in. -/
namespace ErrorMigration.Path

theorem map_toNat_lt_iff {xs ys : List UInt8} : xs.map UInt8.toNat < ys.map UInt8.toNat ↔ xs < ys := by
  induction xs generalizing ys with
  | nil => cases ys <;> simp
  | cons x xs ih =>
    cases ys with
    | nil => simp
    | cons y ys => simp [List.cons_lt_cons_iff,ih,UInt8.lt_iff_toNat_lt,UInt8.toNat_inj]

def Component.key (c : Component) : ℕ ×ₗ List ℕ := toLex (c.rank,c.nameBytes.map UInt8.toNat)

theorem Component.key_injective : Function.Injective Component.key := by
  intro a b same
  simp only [key,EmbeddingLike.apply_eq_iff_eq,Prod.mk.injEq] at same
  obtain ⟨ranks,names⟩ := same
  have bytes := List.map_injective_iff.mpr (fun _ _ => UInt8.toNat_inj.mp) names
  cases a <;> cases b <;> simp_all [rank,nameBytes,Text.bytes_inj]

theorem Component.precedes_iff {a b : Component} : a.precedes b = true ↔ a.key < b.key := by
  simp [precedes,key,Prod.Lex.toLex_lt_toLex,map_toNat_lt_iff]

theorem componentsPrecede_iff {as bs : List Component} :
    componentsPrecede as bs = true ↔ as.map Component.key < bs.map Component.key := by
  induction as generalizing bs with
  | nil => cases bs <;> simp [componentsPrecede]
  | cons a as ih =>
    cases bs with
    | nil => simp [componentsPrecede]
    | cons b bs =>
      simp [componentsPrecede,List.cons_lt_cons_iff,Component.precedes_iff,ih,Component.key_injective.eq_iff]

@[mk_iff] inductive Component.Before : Component → Component → Prop where
  | rootHere : Before .root .here
  | rootUp : Before .root .up
  | rootName {text : String} : Before .root (.name text)
  | hereUp : Before .here .up
  | hereName {text : String} : Before .here (.name text)
  | upName {text : String} : Before .up (.name text)
  | names {text text' : String} (less : Text.bytes text < Text.bytes text') : Before (.name text) (.name text')

theorem Component.precedes_iff_before {a b : Component} : a.precedes b = true ↔ a.Before b := by
  rw [precedes,Bool.or_eq_true,Bool.and_eq_true,decide_eq_true_iff,decide_eq_true_iff,before_iff]
  cases a <;> cases b <;> simp [rank,nameBytes]

/-- Paths are in order as lists of components are: by the first two that differ, or a front before the whole. -/
theorem precedes_iff_lex {p q : Path} : p.precedes q = true ↔ List.Lex Component.Before p.components q.components := by
  rw [precedes]
  generalize p.components = as,q.components = bs
  induction as generalizing bs with
  | nil => cases bs <;> simp [componentsPrecede]
  | cons a as ih =>
    cases bs with
    | nil => simp [componentsPrecede]
    | cons b bs => simp [componentsPrecede,List.cons_lex_cons_iff,Component.precedes_iff_before,ih]

def key (p : Path) : List (ℕ ×ₗ List ℕ) := p.components.map Component.key

theorem precedes_iff_key_lt {a b : Path} : a.precedes b = true ↔ a.key < b.key := componentsPrecede_iff

theorem not_precedes_iff {a b : Path} : (!b.precedes a) = true ↔ a.key ≤ b.key := by
  rw [Bool.not_eq_true',← Bool.not_eq_true,precedes,componentsPrecede_iff]
  exact not_lt

theorem key_eq_iff {a b : Path} : a.key = b.key ↔ a.components = b.components :=
  (List.map_injective_iff.mpr Component.key_injective).eq_iff

theorem same_iff_key_eq {a b : Path} : Same a b ↔ a.key = b.key := key_eq_iff.symm

theorem not_precedes_trans (a b c : Path) (first : (!b.precedes a) = true) (second : (!c.precedes b) = true) :
    (!c.precedes a) = true := by
  rw [not_precedes_iff] at first second ⊢
  exact le_trans first second

theorem not_precedes_total (a b : Path) : (!b.precedes a || !a.precedes b) = true := by
  rw [Bool.or_eq_true,not_precedes_iff,not_precedes_iff]
  exact le_total a.key b.key

theorem pairwise_sort (paths : List Path) : (sort paths).Pairwise fun a b => a.key ≤ b.key :=
  (List.pairwise_mergeSort not_precedes_trans not_precedes_total paths).imp not_precedes_iff.mp

/-- Sorting is stable: the spellings of one path keep the order that they came in. -/
theorem filter_sort (p : Path) (paths : List Path) :
    (sort paths).filter (fun q => Same q p) = paths.filter fun q => Same q p := by
  have alike : (paths.filter fun q => Same q p).Pairwise fun a b => (!b.precedes a) = true := by
    refine List.pairwise_of_forall_mem_list fun a left b right => not_precedes_iff.mpr (le_of_eq ?_)
    rw [List.mem_filter,decide_eq_true_iff,same_iff_key_eq] at left right
    rw [left.2,right.2]
  have kept := (List.sublist_mergeSort not_precedes_trans not_precedes_total alike List.filter_sublist).filter
    fun q => Same q p
  have counted := ((List.mergeSort_perm paths fun a b => !b.precedes a).filter fun q => Same q p).length_eq
  rw [List.filter_filter] at kept
  simp only [Bool.and_self] at kept
  exact (kept.eq_of_length counted.symm).symm

/-- Sorting gives the sorted list with the same members, if no two members have the same components. -/
theorem sort_eq {paths sorted : List Path} (permuted : paths.Perm sorted)
    (ordered : sorted.Pairwise fun a b => a.key ≤ b.key)
    (apart : ∀ p ∈ sorted, ∀ q ∈ sorted, p.components = q.components → p = q) : sort paths = sorted := by
  have moved : (sort paths).Perm sorted := (List.mergeSort_perm _ _).trans permuted
  refine moved.eq_of_pairwise ?_ (pairwise_sort paths) ordered
  intro p q left right pq qp
  exact apart p (moved.mem_iff.mp left) q right (key_eq_iff.mp (le_antisymm pq qp))

end ErrorMigration.Path
