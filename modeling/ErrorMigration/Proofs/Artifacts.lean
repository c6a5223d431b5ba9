import ErrorMigration.Artifacts
import ErrorMigration.Proofs.Run

/-! What the files of a run can overwrite. In a tree without links they are written under their own names in one
directory, and none of these names is numbered, so no backup is among what they replace. -/
namespace ErrorMigration

namespace Artifacts

open BackupStore (IsNumbered IsNumberedPlace)

theorem makeParent_becomes {rewritable addable : Place → Prop} (p : Path) (t : Tree) :
    t.Becomes rewritable addable (makeParent p t).2 := by
  unfold makeParent
  cases p.parent? with
  | none => exact .refl t
  | some parent => exact Tree.makeAll_becomes _ _ t parent.ancestors

theorem store_apply (p : Path) (text : String) (t : Tree) :
    (store p text t).2 = (makeParent p t).2 ∨
      (makeParent p t).2.write p (Text.bytes text) = .ok (store p text t).2 := by
  simp only [store,FileTask.bind_apply]
  rcases makeParent p t with ⟨_ | _,made⟩
  · exact .inl rfl
  · simp only [FileTask.orElseError_apply,FileTask.writeFile,FileTask.update]
    cases written : made.write p (Text.bytes text) with
    | error cause => exact .inl rfl
    | ok t' => exact .inr rfl

def names : List String := ["report.json","report.md","patch.diff"]

theorem entry_of_mem_names {name : String} (member : name ∈ names) : Path.IsEntryName name := by
  simp only [names,List.mem_cons,List.not_mem_nil,or_false] at member
  rcases member with rfl | rfl | rfl <;> exact ⟨by decide,by decide,by decide,by decide⟩

theorem not_isNumbered_of_mem_names {name : String} (member : name ∈ names) : ¬ IsNumbered name := by
  simp only [names,List.mem_cons,List.not_mem_nil,or_false] at member
  have lettered (extension : List Char) (c : Char) (ends : Path.extensionOf? name.toList = some extension)
      (letter : c ∈ extension) (notSign : c ≠ '-') (notDigit : c.isDigit = false) : ¬ IsNumbered name :=
    BackupStore.not_isNumbered_of_extension ends (not_isIntegerLiteral letter notSign notDigit)
  rcases member with rfl | rfl | rfl
  · exact lettered "json".toList 'j' (by decide) (by decide) (by decide) (by decide)
  · exact lettered "md".toList 'm' (by decide) (by decide) (by decide) (by decide)
  · exact lettered "diff".toList 'f' (by decide) (by decide) (by decide) (by decide)

def IsArtifactPlace (directory place : Place) : Prop := ∃ name ∈ names, place = directory ++ [Text.bytes name]

theorem IsArtifactPlace.not_numbered {directory place : Place} (artifact : IsArtifactPlace directory place) :
    ¬ IsNumberedPlace place := by
  obtain ⟨name,member,rfl⟩ := artifact
  rw [BackupStore.isNumberedPlace_iff]
  exact not_isNumbered_of_mem_names member

/-- A file that is stored in a directory is written under its own name. -/
theorem store_becomes {t : Tree} (free : t.LinkFree) (dir : Path) (text : String) {name : String}
    (member : name ∈ names) {directory : Place}
    (spelled : Tree.lexical (t.startOf dir) (Tree.plainSteps dir) = directory) :
    t.Becomes (IsArtifactPlace directory) (IsArtifactPlace directory) (store (dir.joinName name) text t).2 := by
  have entry := entry_of_mem_names member
  have made : t.Becomes (IsArtifactPlace directory) (IsArtifactPlace directory)
    (makeParent (dir.joinName name) t).2 := makeParent_becomes _ t
  have freeMade := made.linkFree free
  rcases store_apply (dir.joinName name) text t with same | written
  · rw [same]
    exact made
  · have own {parent : Place} (leads : (makeParent (dir.joinName name) t).2.joinPlace? dir = some parent) :
        IsArtifactPlace directory (parent ++ [Text.bytes name]) := by
      have place := Tree.joinPlace?_eq_lexical freeMade leads
      rw [Tree.startOf_eq made.home,spelled] at place
      exact ⟨name,member,by rw [place]⟩
    obtain ⟨place,stored,⟨before,resolved,found⟩ | ⟨goal,last,rfl,resolved,vacant⟩⟩ := Tree.write_place written
    · obtain ⟨parent,_,leads,target,_⟩ := (freeMade.noLinksIn dir).resolveFor_joinName entry resolved
      obtain rfl := target place before rfl
      rw [stored]
      exact made.trans (.put_rewritten _ found (own leads))
    · obtain ⟨parent,_,leads,_,target⟩ := (freeMade.noLinksIn dir).resolveFor_joinName entry resolved
      obtain ⟨rfl,rfl⟩ := target goal last rfl
      rw [stored]
      exact made.trans (.put_added _ vacant (own leads))

/-- The four steps of leaving the files of a run touch no other file. -/
theorem write_becomes_own {t : Tree} (free : t.LinkFree) (outcome : Outcome) (dir : Path) :
    t.Becomes (IsArtifactPlace (Tree.lexical (t.startOf dir) (Tree.plainSteps dir)))
      (IsArtifactPlace (Tree.lexical (t.startOf dir) (Tree.plainSteps dir))) (write outcome dir t).2 := by
  generalize spelled : Tree.lexical (t.startOf dir) (Tree.plainSteps dir) = directory
  have stored {t' : Tree} (change : t.Becomes (IsArtifactPlace directory) (IsArtifactPlace directory) t')
      (name : String) (member : name ∈ names) (text : String) :
      t'.Becomes (IsArtifactPlace directory) (IsArtifactPlace directory) (store (dir.joinName name) text t').2 :=
    store_becomes (change.linkFree free) dir text member (by rw [Tree.startOf_eq change.home,spelled])
  have prepared : t.Becomes (IsArtifactPlace directory) (IsArtifactPlace directory)
      ((FileTask.makeDirectories dir).orElseError (.makingDirectory dir : _ → StoreError) t).2 :=
    Tree.makeAll_becomes _ _ t dir.ancestors
  refine FileTask.bind_becomes prepared fun _ => ?_
  have json := stored prepared "report.json" (by decide) outcome.report.prettyText
  refine FileTask.bind_becomes json fun _ => ?_
  have markdown := stored (prepared.trans json) "report.md" (by decide) outcome.report.markdown
  refine FileTask.bind_becomes markdown fun _ => ?_
  exact stored ((prepared.trans json).trans markdown) "patch.diff" (by decide) (String.ofList outcome.patch)

/-- What a run leaves replaces no backup. -/
theorem write_becomes {t : Tree} (free : t.LinkFree) (outcome : Outcome) (dir : Path) :
    t.Becomes (fun place => ¬ IsNumberedPlace place) (fun _ => True) (write outcome dir t).2 :=
  (write_becomes_own free outcome dir).mono (fun _ artifact => artifact.not_numbered) fun _ _ => trivial

end Artifacts

end ErrorMigration
