import ErrorMigration.Proofs.Candidates
import Mathlib.Data.List.TakeWhile

/-! What a locator finds. A candidate is told by the names on the way down to it through real directories, by the end of
its last name and by the marker in its bytes; links and names that are no text lead to none. The one further condition
is that its path is short enough to be opened. -/
namespace ErrorMigration

namespace Path

/-- The extension of a name is what follows its last dot; a dot in front of the whole name starts none. -/
def EndsIn (name extension : List Char) : Prop := '.' ∉ extension ∧ ∃ stem, stem ≠ [] ∧ name = stem ++ '.' :: extension

theorem extensionOf?_eq_some_iff {name extension : List Char} :
    extensionOf? name = some extension ↔ EndsIn name extension := by
  constructor
  · intro found
    have split := List.takeWhile_append_dropWhile (p := fun c => decide (c ≠ '.')) (l := name.reverse)
    have stops := List.head?_dropWhile_not (fun c => decide (c ≠ '.')) name.reverse
    have quiet : '.' ∉ name.reverse.takeWhile fun c => decide (c ≠ '.') := fun member => by
      simpa using List.mem_takeWhile_imp member
    unfold extensionOf? at found
    rcases front : name.reverse.dropWhile (fun c => decide (c ≠ '.')) with _ | ⟨dot,_ | ⟨last,rest⟩⟩
    · simp only [front] at found
      contradiction
    · simp only [front] at found
      contradiction
    · simp only [front,Option.some.injEq] at found
      simp only [front,List.head?_cons,decide_eq_false_iff_not,not_not] at stops
      rw [front,stops] at split
      generalize name.reverse.takeWhile (fun c => decide (c ≠ '.')) = behind at found split quiet
      refine ⟨by simpa [← found] using quiet,(last :: rest).reverse,by simp,?_⟩
      rw [← List.reverse_inj,← found,← split]
      simp
  · rintro ⟨quiet,stem,filled,rfl⟩
    obtain ⟨last,rest,reversed⟩ := List.exists_cons_of_ne_nil (List.reverse_ne_nil_iff.mpr filled)
    have passed : ∀ c ∈ extension.reverse, decide (c ≠ '.') = true := by
      intro c member
      rw [decide_eq_true_iff]
      rintro rfl
      exact quiet (List.mem_reverse.mp member)
    have backwards : (stem ++ '.' :: extension).reverse = extension.reverse ++ '.' :: last :: rest := by
      simp [reversed]
    simp only [extensionOf?,backwards]
    rw [List.dropWhile_append_of_pos passed,List.takeWhile_append_of_pos passed]
    simp

end Path

namespace Tree

/-- Joined with legal names, a path that can be used can still be used if it is short enough. -/
theorem usable_foldl_joinName_iff {root : Path} {texts : List String} (usable : unusable? root = none)
    (legal : ∀ text ∈ texts, Name.IsLegal (Text.bytes text)) :
    unusable? (texts.foldl Path.joinName root) = none ↔
      (texts.foldl Path.joinName root).spelling.utf8ByteSize ≤ maxPathLength := by
  have spelled : '\x00' ∉ (texts.foldl Path.joinName root).spelling.toList ∧
      (texts.foldl Path.joinName root).spelling ≠ "" := by
    obtain ⟨noZero,filled⟩ := And.imp_right And.left (unusable?_eq_none_iff.mp usable)
    clear usable
    induction texts generalizing root with
    | nil => exact ⟨noZero,filled⟩
    | cons text texts ih =>
      rw [List.forall_mem_cons] at legal
      have entry := legal.1.entry rfl
      have plain : '\x00' ∉ text.toList := fun member =>
        legal.1.noZero ((Text.ascii_mem_bytes (by decide) text).mpr member)
      apply ih legal.2
      · rw [Path.joinName_eq root entry.noSlash]
        split <;> simp [noZero,plain]
      · rw [Path.joinName_eq root entry.noSlash]
        split <;> simp [filled]
  rw [unusable?_eq_none_iff]
  exact ⟨fun all => all.2.2,fun short => ⟨spelled.1,spelled.2,short⟩⟩

/-- The way down from a directory to a regular file: through real directories, with no link on it. -/
inductive Descends (t : Tree) : Place → List Name → List UInt8 → Prop where
  | file {place : Place} {name : Name} {content : List UInt8}
      (found : t.node? (place ++ [name]) = some (.file content)) : Descends t place [name] content
  | enter {place : Place} {name : Name} {names : List Name} {content : List UInt8}
      (directory : t.node? (place ++ [name]) = some .directory)
      (further : Descends t (place ++ [name]) names content) : Descends t place (name :: names) content

variable {t : Tree} {place : Place} {names : List Name} {content : List UInt8}

theorem Descends.node? (down : t.Descends place names content) :
    names ≠ [] ∧ t.node? (place ++ names) = some (.file content) := by
  induction down with
  | file found => exact ⟨by simp,found⟩
  | enter _ _ ih => exact ⟨by simp,by simpa using ih.2⟩

/-- In a well-formed tree real directories lead down to every entry. -/
theorem WellFormed.descends_iff (formed : t.WellFormed) :
    t.Descends place names content ↔ names ≠ [] ∧ t.node? (place ++ names) = some (.file content) := by
  refine ⟨Descends.node?,?_⟩
  rintro ⟨filled,found⟩
  induction names generalizing place with
  | nil => contradiction
  | cons name names ih =>
    rw [List.append_cons] at found
    by_cases last : names = []
    · subst last
      exact .file (by simpa using found)
    · exact .enter (formed.directory_above found last) (ih last found)

end Tree

namespace Candidates

/-- What makes a file below a directory a candidate, whatever the length of its path. -/
structure Qualifies (extension marker : String) (t : Tree) (base : Place) (texts : List String)
    (content : List UInt8) : Prop where
  down : t.Descends base (texts.map Text.bytes) content
  ending : ∃ last ∈ texts.getLast?, Path.EndsIn last.toList (bareExtension extension)
  marked : Text.bytes marker <:+: content

variable {root : Path} {extension marker : String} {t : Tree} {base : Place} {texts : List String}
  {content : List UInt8}

theorem hasExtension_foldl_joinName (entries : ∀ text ∈ texts, Path.IsEntryName text) (filled : texts ≠ []) :
    hasExtension extension (texts.foldl Path.joinName root) = true ↔
      ∃ last ∈ texts.getLast?, Path.EndsIn last.toList (bareExtension extension) := by
  obtain ⟨init,last,rfl⟩ := (List.eq_nil_or_concat' texts).resolve_left filled
  simp only [hasExtension,List.foldl_append,List.foldl_cons,List.foldl_nil,
    Path.fileName?_joinName _ (entries last (by simp)),Option.bind_some,decide_eq_true_eq,
    Path.extensionOf?_eq_some_iff]
  simp

/-- A locator is to find the candidates whose paths are short enough to be opened. -/
theorem matches_iff (formed : t.WellFormed) (usable : Tree.unusable? root = none) :
    Matches root extension marker t base texts content ↔ Qualifies extension marker t base texts content ∧
      (texts.foldl Path.joinName root).spelling.utf8ByteSize ≤ Tree.maxPathLength := by
  have legal (found : t.node? (base ++ texts.map Text.bytes) = some (.file content)) :
      ∀ text ∈ texts, Name.IsLegal (Text.bytes text) := fun text member =>
    formed.legal found _ (List.mem_append_right _ (List.mem_map_of_mem member))
  constructor
  · intro matched
    have entries := matched.entries formed
    refine ⟨⟨formed.descends_iff.mpr ⟨by simpa using matched.below,matched.found⟩,
      (hasExtension_foldl_joinName entries matched.below).mp matched.extension,
      Text.occursIn_iff_isInfix.mp matched.marked⟩,?_⟩
    exact (Tree.usable_foldl_joinName_iff usable (legal matched.found)).mp matched.usable
  · rintro ⟨⟨down,ending,marked⟩,short⟩
    obtain ⟨below,found⟩ := down.node?
    have filled : texts ≠ [] := by simpa using below
    refine ⟨filled,found,?_,(Tree.usable_foldl_joinName_iff usable (legal found)).mpr short,
      Text.occursIn_iff_isInfix.mpr marked⟩
    exact (hasExtension_foldl_joinName (fun text member => (legal found text member).entry rfl) filled).mpr ending

/-- There are no more candidates than entries. -/
theorem Listing.length_le {found : List Candidate} (listing : Listing root extension marker t base found) :
    found.length ≤ t.entries.length := by
  have inside : found.map Candidate.place ⊆ t.entries.map Prod.fst := by
    intro place member
    obtain ⟨c,picked,rfl⟩ := List.mem_map.mp member
    exact List.mem_map.mpr ⟨_,(t.mem_entries_iff (by simp [Candidate.place])).mpr (listing.inside c picked).found,rfl⟩
  simpa using (List.subperm_of_subset listing.apart inside).length_le

/-- Two paths to one place are one path. -/
theorem Listing.path_unique {found : List Candidate} (listing : Listing root extension marker t base found)
    {p q : Path} {place : Place} {bytes bytes' : List UInt8} (left : p ∈ found.map Candidate.path)
    (right : q ∈ found.map Candidate.path) (leads : t.resolve p = .ok (.file place bytes))
    (leads' : t.resolve q = .ok (.file place bytes')) : p = q := by
  obtain ⟨c,member,rfl⟩ := List.mem_map.mp left
  obtain ⟨c',member',rfl⟩ := List.mem_map.mp right
  have resolved : t.resolve c.path = .ok (.file c.place c.content) := (listing.inside c member).resolveFor .use
  have resolved' : t.resolve c'.path = .ok (.file c'.place c'.content) := (listing.inside c' member').resolveFor .use
  rw [resolved] at leads
  rw [resolved'] at leads'
  cases leads
  have same : c.place = c'.place := by
    rw [Except.ok.injEq,Tree.Target.file.injEq] at leads'
    exact leads'.1.symm
  rw [List.inj_on_of_nodup_map listing.apart member member' same]

/-- A list of paths is what there is to find below a directory: the path of each candidate that is short enough to be
opened, in path order, and no file twice. -/
structure Located (root : Path) (extension marker : String) (t : Tree) (base : Place) (paths : List Path) : Prop where
  exact : ∀ path, path ∈ paths ↔ ∃ texts content, path = texts.foldl Path.joinName root ∧
    Qualifies extension marker t base texts content ∧ path.spelling.utf8ByteSize ≤ Tree.maxPathLength
  joined : ∀ texts, (∀ text ∈ texts, Path.IsEntryName text) → (texts.foldl Path.joinName root ∈ paths ↔
    (∃ content, Qualifies extension marker t base texts content) ∧
      (texts.foldl Path.joinName root).spelling.utf8ByteSize ≤ Tree.maxPathLength)
  ordered : paths.Pairwise fun p q => p.precedes q = true
  leads : ∀ path ∈ paths, ∃ place content, t.resolve path = .ok (.file place content) ∧ Text.bytes marker <:+: content
  once : ∀ p ∈ paths, ∀ q ∈ paths, ∀ place content content', t.resolve p = .ok (.file place content) →
    t.resolve q = .ok (.file place content') → p = q
  bounded : paths.length ≤ t.entries.length

theorem Listing.located {found : List Candidate} (listing : Listing root extension marker t base found)
    (formed : t.WellFormed) (usable : Tree.unusable? root = none) :
    Located root extension marker t base (found.map Candidate.path) := by
  have exact : ∀ path, path ∈ found.map Candidate.path ↔ ∃ texts content, path = texts.foldl Path.joinName root ∧
      Qualifies extension marker t base texts content ∧ path.spelling.utf8ByteSize ≤ Tree.maxPathLength := by
    intro path
    constructor
    · intro member
      obtain ⟨c,picked,rfl⟩ := List.mem_map.mp member
      obtain ⟨texts,joined,_,matched⟩ := listing.sound c picked
      exact ⟨texts,c.content,joined.symm,joined ▸ (matches_iff formed usable).mp matched⟩
    · rintro ⟨texts,content,rfl,wanted⟩
      exact listing.complete texts content ((matches_iff formed usable).mpr wanted)
  refine ⟨exact,fun texts entries => ?_,?_,?_,fun p left q right _ _ _ => listing.path_unique left right,?_⟩
  · rw [exact]
    constructor
    · rintro ⟨texts',content,same,wanted⟩
      have entries' := ((matches_iff formed usable).mpr (same ▸ wanted)).entries formed
      rw [texts_unique entries entries' (congrArg Path.components same)] at wanted ⊢
      exact ⟨⟨content,wanted.1⟩,wanted.2⟩
    · rintro ⟨⟨content,wanted⟩,short⟩
      exact ⟨texts,content,rfl,wanted,short⟩
  · refine (listing.ordered.and listing.unique).imp_of_mem fun {p q} left right ⟨before,apart⟩ => ?_
    have other : p.key ≠ q.key := fun same =>
      apart (listing.path_of_components formed p left q right (Path.key_eq_iff.mp same))
    exact Path.componentsPrecede_iff.mpr (lt_of_le_of_ne before other)
  · intro path member
    obtain ⟨c,picked,rfl⟩ := List.mem_map.mp member
    exact ⟨c.place,c.content,(listing.inside c picked).resolveFor .use,
      Text.occursIn_iff_isInfix.mp (listing.marked c picked)⟩
  · simpa using listing.length_le

/-- A locator fails if and only if the root of the search leads to no directory, and says so. Otherwise it finds exactly
the candidates below the directory whose paths can be opened. -/
theorem below_exact {t : Tree} (formed : t.WellFormed) (root : Path) (extension marker : String) :
    ((∃ error, below root extension marker t = .error error) ↔ t.directoryAt? root = none) ∧
    (∀ error, below root extension marker t = .error error → error = .notDirectory root) ∧
    ∀ base, t.directoryAt? root = some base →
      ∃ paths, below root extension marker t = .ok paths ∧ Located root extension marker t base paths := by
  cases directory : t.directoryAt? root with
  | none =>
    have failed := below_notDirectory directory extension marker
    exact ⟨by simp [failed],by simp [failed],nofun⟩
  | some base =>
    obtain ⟨found,located,listing⟩ := exists_listing extension marker formed directory
    refine ⟨by simp [located],by simp [located],?_⟩
    rintro _ ⟨⟩
    exact ⟨_,located,listing.located formed (Tree.directoryAt?_eq_some_iff.mp directory).1⟩

/-- Sources below `src`: one in a directory, and one that a cycle of links, a name that is no text and a directory named
like a source stand beside. -/
def tangledTree : Tree :=
  (Tree.ofEntries [(["src"],.directory),(["src","lib.js"],.directory),
    (["src","lib.js","a.min.js"],.file (Text.bytes "new StandardErrorWrapper")),(["src","lib.js","loop"],.link ".."),
    (["src","b.js"],.link "lib.js/a.min.js"),(["src",".js"],.file (Text.bytes "StandardErrorWrapper"))]).put
    [Text.bytes "src",[0xff,0x2e,0x6a,0x73]] (.file (Text.bytes "StandardErrorWrapper"))

theorem tangledTree_located :
    tangledTree.WellFormed ∧
    ∃ paths, below ⟨"src"⟩ "..js" "StandardErrorWrapper" tangledTree = .ok paths ∧
      (["lib.js","a.min.js"].foldl Path.joinName ⟨"src"⟩ : Path) ∈ paths ∧
      (["lib.js","loop","lib.js","a.min.js"].foldl Path.joinName ⟨"src"⟩ : Path) ∉ paths ∧
      (["b.js"].foldl Path.joinName ⟨"src"⟩ : Path) ∉ paths := by
  have formed : tangledTree.WellFormed := by decide +kernel
  have directory : tangledTree.directoryAt? ⟨"src"⟩ = some [Text.bytes "src"] := by decide +kernel
  obtain ⟨paths,found,located⟩ := (below_exact formed ⟨"src"⟩ "..js" "StandardErrorWrapper").2.2 _ directory
  have entries : ∀ text ∈ ["lib.js","loop","lib.js","a.min.js","b.js"], Path.IsEntryName text := by
    have legal : ∀ text ∈ ["lib.js","loop","lib.js","a.min.js","b.js"], Name.IsLegal (Text.bytes text) := by
      decide +kernel
    exact fun text member => (legal text member).entry rfl
  simp only [List.mem_cons,List.not_mem_nil,or_false,forall_eq_or_imp,forall_eq] at entries
  have lib : tangledTree.node? ([Text.bytes "src"] ++ [Text.bytes "lib.js"]) = some .directory := by decide +kernel
  have file : tangledTree.node? ([Text.bytes "src"] ++ [Text.bytes "lib.js"] ++ [Text.bytes "a.min.js"]) =
      some (.file (Text.bytes "new StandardErrorWrapper")) := by decide +kernel
  refine ⟨formed,paths,found,?_,?_,?_⟩
  · refine (located.exact _).mpr ⟨_,_,rfl,⟨.enter lib (.file file),⟨"a.min.js",rfl,?_⟩,?_⟩,by decide +kernel⟩
    · exact Path.extensionOf?_eq_some_iff.mp (by decide +kernel)
    · exact Text.occursIn_iff_isInfix.mp (by decide +kernel)
  · rw [located.joined _ (by simp [entries])]
    rintro ⟨⟨_,wanted⟩,_⟩
    have nothing : tangledTree.node? ([Text.bytes "src"] ++
        ["lib.js","loop","lib.js","a.min.js"].map Text.bytes) = none := by decide +kernel
    rw [wanted.down.node?.2] at nothing
    contradiction
  · rw [located.joined _ (by simp [entries])]
    rintro ⟨⟨_,wanted⟩,_⟩
    have linked : tangledTree.node? ([Text.bytes "src"] ++ ["b.js"].map Text.bytes) =
        some (.link "lib.js/a.min.js") := by decide +kernel
    rw [wanted.down.node?.2] at linked
    simp at linked

def slashedRoot : Nat → Path
  | 0 => ⟨"src"⟩
  | n + 1 => ⟨(slashedRoot n).spelling ++ "/"⟩

theorem plainSteps_slashedRoot (n : Nat) : Tree.plainSteps (slashedRoot n) = [.down (Text.bytes "src")] := by
  induction n with
  | zero => decide +kernel
  | succ n ih =>
    rw [← ih]
    simp [slashedRoot,Tree.plainSteps,Path.segments,Text.pieces_append_mark,Text.pieces]

theorem slashedRoot_spelling (n : Nat) : (slashedRoot n).spelling.utf8ByteSize = 3 + n ∧
    '\x00' ∉ (slashedRoot n).spelling.toList ∧ (slashedRoot n).spelling.toList.head? = some 's' := by
  induction n with
  | zero => exact ⟨by decide +kernel,by decide +kernel,by decide +kernel⟩
  | succ n ih =>
    obtain ⟨size,noZero,first⟩ := ih
    refine ⟨?_,by simp [slashedRoot,noZero],by simp [slashedRoot,first]⟩
    rw [slashedRoot,String.utf8ByteSize_append,size]
    rfl

theorem directoryAt?_slashedRoot {t : Tree} (home : t.home = []) (directory : t.node? [Text.bytes "src"] = some .directory)
    {n : Nat} (short : 3 + n ≤ Tree.maxPathLength) : t.directoryAt? (slashedRoot n) = some [Text.bytes "src"] := by
  obtain ⟨size,noZero,first⟩ := slashedRoot_spelling n
  have filled : (slashedRoot n).spelling ≠ "" := by
    intro empty
    simp [empty] at first
  have start : t.startOf (slashedRoot n) = [] := by
    simp [Tree.startOf,Path.isAbsolute,first,home]
  refine Tree.directoryAt?_eq_some_iff.mpr
    ⟨Tree.unusable?_eq_none_iff.mpr ⟨noZero,filled,size ▸ short⟩,Tree.maxLinks,?_⟩
  rw [start,plainSteps_slashedRoot]
  exact .down (by decide +kernel) directory .done

def shallowTree : Tree :=
  .ofEntries [(["src"],.directory),(["src","a.js"],.file (Text.bytes "StandardErrorWrapper"))]

/-- With many slashes the root is still short enough to be opened, and the path of the source is not. -/
theorem below_slashedRoot {n : Nat} (short : 3 + (n + 1) ≤ Tree.maxPathLength)
    (long : Tree.maxPathLength < 3 + (n + 1) + 4) :
    below (slashedRoot (n + 1)) "js" "StandardErrorWrapper" shallowTree = .ok [] := by
  have directory : shallowTree.directoryAt? (slashedRoot (n + 1)) = some [Text.bytes "src"] :=
    directoryAt?_slashedRoot rfl (by decide +kernel) short
  have only : filesBelow shallowTree [Text.bytes "src"] =
      [([Text.bytes "a.js"],Text.bytes "StandardErrorWrapper")] := by decide +kernel
  have joined : (slashedRoot (n + 1)).joinName "a.js" = ⟨(slashedRoot (n + 1)).spelling ++ "a.js"⟩ := by
    rw [Path.joinName_eq _ (by decide +kernel),if_pos]
    simp [slashedRoot]
  have unopened : Tree.unusable? ((slashedRoot (n + 1)).joinName "a.js") ≠ none := by
    intro usable
    have size := (Tree.unusable?_eq_none_iff.mp usable).2.2
    rw [joined,String.utf8ByteSize_append,(slashedRoot_spelling (n + 1)).1] at size
    exact absurd (Nat.lt_of_lt_of_le long size) (Nat.lt_irrefl _)
  have unmatched : matchingPath? (slashedRoot (n + 1)) "js" "StandardErrorWrapper"
      ([Text.bytes "a.js"],Text.bytes "StandardErrorWrapper") = none := by
    rw [Option.eq_none_iff_forall_ne_some]
    intro path found
    obtain ⟨texts,encoded,rfl,_,usable,_⟩ := matchingPath?_eq_some_iff.mp found
    have alone : texts = ["a.js"] := List.map_injective_iff.mpr Text.bytes_injective encoded
    rw [alone] at usable
    exact unopened usable
  rw [below_of_directory directory,only,List.filterMap_cons_none unmatched,List.filterMap_nil,Path.sort,
    List.mergeSort_nil]

/-- A root of 4093 bytes leads to the directory of a source that holds the marker, and nothing is found. -/
theorem shallowTree_missed :
    shallowTree.WellFormed ∧ shallowTree.directoryAt? (slashedRoot 4090) = some [Text.bytes "src"] ∧
    Qualifies "js" "StandardErrorWrapper" shallowTree [Text.bytes "src"] ["a.js"] (Text.bytes "StandardErrorWrapper") ∧
    below (slashedRoot 4090) "js" "StandardErrorWrapper" shallowTree = .ok [] := by
  have file : shallowTree.node? ([Text.bytes "src"] ++ [Text.bytes "a.js"]) =
      some (.file (Text.bytes "StandardErrorWrapper")) := by decide +kernel
  refine ⟨by decide +kernel,directoryAt?_slashedRoot rfl (by decide +kernel) (by decide),⟨.file file,⟨"a.js",rfl,?_⟩,?_⟩,?_⟩
  · exact Path.extensionOf?_eq_some_iff.mp (by decide +kernel)
  · exact Text.occursIn_iff_isInfix.mp (by decide +kernel)
  · exact below_slashedRoot (n := 4089) (by decide) (by decide)

end Candidates

end ErrorMigration
