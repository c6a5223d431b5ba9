import ErrorMigration.Proofs.FileAtomicity
import ErrorMigration.Proofs.Verification

/-! The search of bytes and the search of characters. A needle is looked for in windows that are slid along the bytes;
in the bytes of a text a window shows a word where the word stands in the text and nowhere else. So the files that a
locator finds by their bytes are those whose texts still have the marker. -/
namespace ErrorMigration

namespace Text

def windows (size : Nat) (bs : List UInt8) : List (List UInt8) :=
  (List.range (bs.length + 1 - size)).map fun start => (bs.drop start).take size

variable {needle bs : List UInt8}

theorem getElem?_windows_eq_some_iff (filled : needle ≠ []) {start : Nat} :
    (windows needle.length bs)[start]? = some needle ↔ needle <+: bs.drop start := by
  have positive := List.length_pos_of_ne_nil filled
  rw [windows,List.getElem?_map,Option.map_eq_some_iff,List.prefix_iff_eq_take]
  simp only [List.getElem?_eq_some_iff,List.length_range,List.getElem_range,exists_prop]
  constructor
  · rintro ⟨_,⟨_,rfl⟩,shown⟩
    exact shown.symm
  · intro shown
    refine ⟨start,⟨?_,rfl⟩,shown.symm⟩
    have size := congrArg List.length shown
    rw [List.length_take,List.length_drop] at size
    omega

theorem mem_windows_iff (filled : needle ≠ []) : needle ∈ windows needle.length bs ↔ needle <:+: bs := by
  rw [List.mem_iff_getElem?,infix_iff_exists_prefix_drop]
  exact exists_congr fun _ => getElem?_windows_eq_some_iff filled

/-- A needle is found if it is empty or a window shows it. -/
theorem occursIn_iff_mem_windows : occursIn needle bs = true ↔ needle = [] ∨ needle ∈ windows needle.length bs := by
  rw [occursIn_iff_isInfix]
  by_cases filled : needle = []
  · simp [filled]
  · rw [mem_windows_iff filled,or_iff_right filled]

/-- A window over the bytes of a text shows a word where the word stands in the text. -/
theorem getElem?_windows_bytes_iff {word text : String} (filled : word ≠ "") {start : Nat} :
    (windows (bytes word).length (bytes text))[start]? = some (bytes word) ↔
      OccursAt word.toList text.toList start := by
  have characters : word.toList ≠ [] := fun empty => filled (String.toList_eq_nil_iff.mp empty)
  rw [getElem?_windows_eq_some_iff fun empty => filled (bytes_eq_nil.mp empty),bytes_eq_flatMap,bytes_eq_flatMap,
    encode_prefix_drop_iff characters]

end Text

namespace Candidates

variable {root : Path} {extension marker : String} {t : Tree} {base : Place}

theorem holds_empty (content : List UInt8) : holds "" content = true := by
  rw [holds,Text.bytes_empty,Text.occursIn_iff_isInfix]
  exact List.nil_infix

theorem matches_iff_holds {texts : List String} {content : List UInt8} :
    Matches root extension marker t base texts content ↔
      Matches root extension "" t base texts content ∧ holds marker content = true :=
  ⟨fun matched => ⟨{matched with marked := holds_empty content},matched.marked⟩,
    fun matched => {matched.1 with marked := matched.2}⟩

/-- Of the files with the extension those are found whose texts have the marker. -/
theorem below_of_readText (formed : t.WellFormed) {all : List Path} (located : below root extension "" t = .ok all)
    (marker : String) : ∃ found, below root extension marker t = .ok found ∧ found ⊆ all ∧
      ∀ path ∈ all, ∀ text, t.readText path = .ok text → (path ∈ found ↔ marker.toList <:+: text.toList) := by
  cases directory : t.directoryAt? root with
  | none =>
    rw [below_notDirectory directory] at located
    contradiction
  | some base =>
    obtain ⟨_,same,_,_,files⟩ := below_directory formed directory extension ""
    obtain ⟨found,marked,_,_,members⟩ := below_directory formed directory extension marker
    obtain rfl := Except.ok.inj (located.symm.trans same)
    refine ⟨found,marked,?_,?_⟩
    · intro path member
      obtain ⟨texts,content,joined,matched⟩ := (members path).mp member
      exact (files path).mpr ⟨texts,content,joined,(matches_iff_holds.mp matched).1⟩
    · intro path member text read
      obtain ⟨_,_,rfl,matched⟩ := (files path).mp member
      obtain ⟨c,addressed,inside,texts,joined,_,matched⟩ := matched.candidate formed directory
      rw [← addressed] at read ⊢
      obtain ⟨place,resolved⟩ := Tree.readText_eq_ok_iff.mp read
      have stored : c.content = Text.bytes text := by
        have leads : t.resolve c.path = .ok (.file c.place c.content) := inside.resolveFor .use
        rw [leads,Except.ok.injEq,Tree.Target.file.injEq] at resolved
        exact resolved.2
      rw [← Text.occursIn_iff_isInfix,← holds_bytes,← stored,members]
      constructor
      · rintro ⟨texts',content,joined',matched'⟩
        have same := texts_unique (matched'.entries formed) (matched.entries formed) (by rw [joined',joined])
        have found := matched'.found
        rw [same,matched.found,Option.some.injEq,Node.file.injEq] at found
        exact found ▸ matched'.marked
      · exact fun marked => ⟨texts,c.content,joined,matches_iff_holds.mpr ⟨matched,marked⟩⟩

/-- Bytes and characters are searched alike. In a file that is UTF-8 a marker is found, by windows over the bytes, if
and only if it stands in the text, and in the same places; so the file has the deprecated marker for a locator if and
only if it has it for the migration, and of the files with the extension those are found whose texts have it. -/
theorem search_agrees :
    (∀ (content : List UInt8) (text : String), Text.ofBytes? content = some text →
      (∀ marker : String,
        (holds marker content = true ↔
          marker = "" ∨ Text.bytes marker ∈ Text.windows (Text.bytes marker).length content) ∧
        (holds marker content = true ↔ marker.toList <:+: text.toList)) ∧
      (∀ (marker : String) (start : Nat), marker ≠ "" →
        ((Text.windows (Text.bytes marker).length content)[start]? = some (Text.bytes marker) ↔
          Text.OccursAt marker.toList text.toList start)) ∧
      holds deprecatedMarker content = containsMarker text.toList) ∧
    ∀ (t : Tree) (root : Path) (extension : String) (all : List Path), t.WellFormed →
      below root extension "" t = .ok all →
      ∃ found, below root extension deprecatedMarker t = .ok found ∧ found ⊆ all ∧
        ∀ path ∈ all, ∀ text, t.readText path = .ok text → (path ∈ found ↔ containsMarker text.toList = true) := by
  refine ⟨?_,?_⟩
  · intro content text decoded
    obtain rfl := Text.ofBytes?_eq_some_iff.mp decoded
    refine ⟨fun marker => ⟨?_,?_⟩,fun marker start filled => Text.getElem?_windows_bytes_iff filled,
      holds_bytes deprecatedMarker text⟩
    · rw [holds,Text.occursIn_iff_mem_windows,Text.bytes_eq_nil]
    · rw [holds_bytes,Text.occursIn_iff_isInfix]
  · intro t root extension all formed located
    obtain ⟨found,marked,within,same⟩ := below_of_readText formed located deprecatedMarker
    refine ⟨found,marked,within,fun path member text read => ?_⟩
    rw [same path member text read,containsMarker,Text.occursIn_iff_isInfix]

/-- Two sources below `src`, with characters of two bytes; in one of them such a character stands in the marker. -/
def accentedTree : Tree :=
  .ofEntries [(["src"],.directory),(["src","a.js"],.file (Text.bytes "«StandardErrorWrapper»")),
    (["src","b.js"],.file (Text.bytes "StandardErrörWrapper"))]

theorem accentedTree_searched :
    accentedTree.WellFormed ∧ holds "ö" (Text.bytes "StandardErrörWrapper") = true ∧
    ∃ all found, below ⟨"src"⟩ "js" "" accentedTree = .ok all ∧
      below ⟨"src"⟩ "js" deprecatedMarker accentedTree = .ok found ∧
      ⟨"src/a.js"⟩ ∈ found ∧ ⟨"src/b.js"⟩ ∈ all ∧ ⟨"src/b.js"⟩ ∉ found := by
  have formed : accentedTree.WellFormed := by decide +kernel
  have directory : accentedTree.directoryAt? ⟨"src"⟩ = some [Text.bytes "src"] := by decide +kernel
  obtain ⟨all,located,_,_,members⟩ := below_directory formed directory "js" ""
  obtain ⟨texts,files⟩ := search_agrees
  obtain ⟨found,marked,_,same⟩ := files accentedTree ⟨"src"⟩ "js" all formed located
  have member (name : String) (content : List UInt8)
      (file : accentedTree.node? ([Text.bytes "src"] ++ [Text.bytes name]) = some (.file content))
      (wanted : hasExtension "js" ((⟨"src"⟩ : Path).joinName name) = true)
      (usable : Tree.unusable? ((⟨"src"⟩ : Path).joinName name) = none) : (⟨"src"⟩ : Path).joinName name ∈ all :=
    (members _).mpr ⟨[name],content,rfl,by simp,file,wanted,usable,holds_empty content⟩
  have first : ⟨"src/a.js"⟩ ∈ all :=
    member "a.js" (Text.bytes "«StandardErrorWrapper»") (by decide +kernel) (by decide +kernel) (by decide +kernel)
  have second : ⟨"src/b.js"⟩ ∈ all :=
    member "b.js" (Text.bytes "StandardErrörWrapper") (by decide +kernel) (by decide +kernel) (by decide +kernel)
  have read : accentedTree.readText ⟨"src/a.js"⟩ = .ok "«StandardErrorWrapper»" :=
    Tree.readText_eq_ok_iff.mpr ⟨[Text.bytes "src",Text.bytes "a.js"],rfl⟩
  have read' : accentedTree.readText ⟨"src/b.js"⟩ = .ok "StandardErrörWrapper" :=
    Tree.readText_eq_ok_iff.mpr ⟨[Text.bytes "src",Text.bytes "b.js"],rfl⟩
  refine ⟨formed,?_,all,found,located,marked,?_,second,?_⟩
  · exact ((texts _ _ (Text.ofBytes?_bytes "StandardErrörWrapper")).1 "ö").2.mpr
      ⟨"StandardErr".toList,"rWrapper".toList,by decide +kernel⟩
  · exact (same _ first _ read).mpr (by decide +kernel)
  · exact fun inside => absurd ((same _ second _ read').mp inside) (by decide +kernel)

end Candidates

end ErrorMigration
