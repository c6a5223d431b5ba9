import ErrorMigration.Proofs.Files.Tree

/-! Where paths lead. `Walks` says what each step of a walk can do. `Reaches` says that a walk ends in a directory and
how many links it may still follow then; walks are cut and joined by it. It survives every change that a tree can go
through, and in a tree without links it is decided by the steps alone. -/
namespace ErrorMigration.Tree

def linkStart (place : Place) (target : String) : Place := if Path.isAbsolute ⟨target⟩ then [] else place

/-- The steps lead from one place to a directory, with `links` links to follow before and `left` after. -/
inductive Reaches (t : Tree) : Nat → Place → List Step → Place → Nat → Prop where
  | done {links place} : Reaches t links place [] place links
  | stay {links place rest goal left} :
      Reaches t links place rest goal left → Reaches t links place (.stay :: rest) goal left
  | slash {links place rest goal left} :
      Reaches t links place rest goal left → Reaches t links place (.slash :: rest) goal left
  | up {links place rest goal left} :
      Reaches t links place.dropLast rest goal left → Reaches t links place (.up :: rest) goal left
  | down {links place name rest goal left} (short : name.length ≤ maxNameLength)
      (found : t.node? (place ++ [name]) = some .directory) :
      Reaches t links (place ++ [name]) rest goal left → Reaches t links place (.down name :: rest) goal left
  | link {links place name target rest goal left} (short : name.length ≤ maxNameLength)
      (found : t.node? (place ++ [name]) = some (.link target)) :
      Reaches t links (linkStart place target) (steps ⟨target⟩ ++ rest) goal left →
      Reaches t (links + 1) place (.down name :: rest) goal left

section Equations

variable (t : Tree) (purpose : Purpose) (links : Nat) (place : Place) (rest : List Step)

@[simp] theorem walkLinks_nil : t.walkLinks purpose links place [] = .ok (.directory place) := by
  cases links <;> simp [walkLinks,walk]

@[simp] theorem walkLinks_stay :
    t.walkLinks purpose links place (.stay :: rest) = t.walkLinks purpose links place rest := by
  cases links <;> simp [walkLinks,walk]

@[simp] theorem walkLinks_slash :
    t.walkLinks purpose links place (.slash :: rest) = t.walkLinks purpose links place rest := by
  cases links <;> simp [walkLinks,walk]

@[simp] theorem walkLinks_up :
    t.walkLinks purpose links place (.up :: rest) = t.walkLinks purpose links place.dropLast rest := by
  cases links <;> simp [walkLinks,walk]

def followLink : Nat → Place → List Step → Except Cause Target
  | 0, _, _ => .error .tooManyLinks
  | links + 1, place, steps => t.walkLinks purpose links place steps

theorem walkLinks_down (name : Name) :
    t.walkLinks purpose links place (.down name :: rest) =
      if purpose = .write && rest = [.slash] then .error .isDirectory
      else if maxNameLength < name.length then .error .nameTooLong
      else
        match t.node? (place ++ [name]) with
        | none => if rest.isEmpty then .ok (.vacant place name) else .error .notFound
        | some .directory => t.walkLinks purpose links (place ++ [name]) rest
        | some (.file content) =>
          if rest.isEmpty then .ok (.file (place ++ [name]) content) else .error .notDirectory
        | some (.link target) => followLink t purpose links (linkStart place target) (steps ⟨target⟩ ++ rest) := by
  cases links <;> rfl

end Equations

/-- The steps lead from one place to a target, with `links` links to follow. A walk that is to write must not see its
last name followed by a slash. -/
inductive Walks (t : Tree) (purpose : Purpose) : Nat → Place → List Step → Target → Prop where
  | done {links place} : Walks t purpose links place [] (.directory place)
  | stay {links place rest target} :
      Walks t purpose links place rest target → Walks t purpose links place (.stay :: rest) target
  | slash {links place rest target} :
      Walks t purpose links place rest target → Walks t purpose links place (.slash :: rest) target
  | up {links place rest target} :
      Walks t purpose links place.dropLast rest target → Walks t purpose links place (.up :: rest) target
  | vacant {links place name} (short : name.length ≤ maxNameLength) (free : t.node? (place ++ [name]) = none) :
      Walks t purpose links place [.down name] (.vacant place name)
  | file {links place name content} (short : name.length ≤ maxNameLength)
      (found : t.node? (place ++ [name]) = some (.file content)) :
      Walks t purpose links place [.down name] (.file (place ++ [name]) content)
  | down {links place name rest target} (named : purpose = .write → rest ≠ [.slash])
      (short : name.length ≤ maxNameLength) (found : t.node? (place ++ [name]) = some .directory) :
      Walks t purpose links (place ++ [name]) rest target → Walks t purpose links place (.down name :: rest) target
  | link {links place name text rest target} (named : purpose = .write → rest ≠ [.slash])
      (short : name.length ≤ maxNameLength) (found : t.node? (place ++ [name]) = some (.link text)) :
      Walks t purpose links (linkStart place text) (steps ⟨text⟩ ++ rest) target →
      Walks t purpose (links + 1) place (.down name :: rest) target

variable {t t' : Tree} {purpose : Purpose} {links left : Nat} {place goal : Place}

theorem walks_of_walkLinks {steps : List Step} {target : Target}
    (walked : t.walkLinks purpose links place steps = .ok target) : Walks t purpose links place steps target := by
  -- the links bound the outer induction, since following one may lengthen the steps
  induction links using Nat.strongRecOn generalizing place steps with
  | _ links outer =>
    induction steps generalizing place with
    | nil =>
      simp only [walkLinks_nil,Except.ok.injEq] at walked
      exact walked ▸ .done
    | cons step rest ih =>
      cases step with
      | stay => exact .stay (ih (by simpa using walked))
      | slash => exact .slash (ih (by simpa using walked))
      | up => exact .up (ih (by simpa using walked))
      | down name =>
        rw [walkLinks_down] at walked
        split at walked
        · simp at walked
        rename_i allowed
        have named : purpose = .write → rest ≠ [.slash] := by simpa using allowed
        split at walked
        · simp at walked
        rename_i short
        have short := Nat.le_of_not_lt short
        split at walked
        · rename_i free
          split at walked
          · rename_i last
            obtain rfl := List.isEmpty_iff.mp last
            cases walked
            exact .vacant short free
          · simp at walked
        · rename_i found
          exact .down named short found (ih walked)
        · rename_i found
          split at walked
          · rename_i last
            obtain rfl := List.isEmpty_iff.mp last
            cases walked
            exact .file short found
          · simp at walked
        · rename_i found
          cases links with
          | zero => simp [followLink] at walked
          | succ links => exact .link named short found (outer links (Nat.lt_succ_self links) walked)

theorem Walks.walkLinks_eq {steps : List Step} {target : Target} (walks : Walks t purpose links place steps target) :
    t.walkLinks purpose links place steps = .ok target := by
  induction walks with
  | done => exact walkLinks_nil _ _ _ _
  | stay _ ih => simpa using ih
  | slash _ ih => simpa using ih
  | up _ ih => simpa using ih
  | vacant short free => rw [walkLinks_down,if_neg (by simp),if_neg (by omega),free]; rfl
  | file short found => rw [walkLinks_down,if_neg (by simp),if_neg (by omega),found]; rfl
  | down named short found _ ih =>
    rw [walkLinks_down,if_neg (by simpa using named),if_neg (by omega),found]
    exact ih
  | link named short found _ ih =>
    rw [walkLinks_down,if_neg (by simpa using named),if_neg (by omega),found]
    exact ih

/-- What a walk can do, step by step. -/
theorem walkLinks_eq_ok_iff {steps : List Step} {target : Target} :
    t.walkLinks purpose links place steps = .ok target ↔ Walks t purpose links place steps target :=
  ⟨walks_of_walkLinks,Walks.walkLinks_eq⟩

/-- Behind a directory that is reached, the walk goes on from there. A walk that is to write must not see
its last name followed by a slash alone. -/
theorem Reaches.walkLinks_append {front back : List Step} (reached : Reaches t links place front goal left)
    (named : purpose = .write → ∀ steps : List Step, steps ++ back ≠ [.slash]) :
    t.walkLinks purpose links place (front ++ back) = t.walkLinks purpose left goal back := by
  have allowed (steps : List Step) : (purpose = .write && steps ++ back = [.slash]) = false := by
    simp only [Bool.and_eq_false_iff,decide_eq_false_iff_not]
    by_cases writes : purpose = .write
    · exact .inr (named writes steps)
    · exact .inl writes
  induction reached with
  | done => rfl
  | stay _ ih => simpa using ih
  | slash _ ih => simpa using ih
  | up _ ih => simpa using ih
  | down short found _ ih =>
    rw [List.cons_append,walkLinks_down,allowed,if_neg (by simp),if_neg (by omega),found]
    exact ih
  | link short found _ ih =>
    rw [List.cons_append,walkLinks_down,allowed,if_neg (by simp),if_neg (by omega),found]
    simpa [followLink] using ih

theorem Reaches.walkLinks {steps : List Step} (reached : Reaches t links place steps goal left) :
    t.walkLinks .use links place steps = .ok (.directory goal) := by
  have ended : t.walkLinks .use links place (steps ++ []) = t.walkLinks .use left goal [] :=
    reached.walkLinks_append (by simp)
  simpa using ended

/-- A walk that ends in a directory reaches it. -/
theorem reaches_of_walkLinks {steps : List Step}
    (walked : t.walkLinks purpose links place steps = .ok (.directory goal)) :
    ∃ left, Reaches t links place steps goal left := by
  rw [walkLinks_eq_ok_iff] at walked
  generalize ended : Target.directory goal = target at walked
  induction walked with
  | done => cases ended; exact ⟨_,.done⟩
  | stay _ ih => obtain ⟨left,tail⟩ := ih ended; exact ⟨left,.stay tail⟩
  | slash _ ih => obtain ⟨left,tail⟩ := ih ended; exact ⟨left,.slash tail⟩
  | up _ ih => obtain ⟨left,tail⟩ := ih ended; exact ⟨left,.up tail⟩
  | vacant | file => cases ended
  | down _ short found _ ih => obtain ⟨left,tail⟩ := ih ended; exact ⟨left,.down short found tail⟩
  | link _ short found _ ih => obtain ⟨left,tail⟩ := ih ended; exact ⟨left,.link short found tail⟩

/-- A walk that gets past some of its steps has reached a directory by them. -/
theorem reaches_of_walkLinks_append {front back : List Step} {target : Target} (more : back ≠ [])
    (walked : t.walkLinks purpose links place (front ++ back) = .ok target) :
    ∃ goal left, Reaches t links place front goal left := by
  rw [walkLinks_eq_ok_iff] at walked
  generalize whole : front ++ back = steps at walked
  induction walked generalizing front with
  | done => exact absurd (List.append_eq_nil_iff.mp whole).2 more
  | stay _ ih =>
    rcases List.append_eq_cons_iff.mp whole with ⟨rfl,_⟩ | ⟨rest,rfl,same⟩
    · exact ⟨_,_,.done⟩
    · obtain ⟨goal,left,tail⟩ := ih same.symm
      exact ⟨goal,left,.stay tail⟩
  | slash _ ih =>
    rcases List.append_eq_cons_iff.mp whole with ⟨rfl,_⟩ | ⟨rest,rfl,same⟩
    · exact ⟨_,_,.done⟩
    · obtain ⟨goal,left,tail⟩ := ih same.symm
      exact ⟨goal,left,.slash tail⟩
  | up _ ih =>
    rcases List.append_eq_cons_iff.mp whole with ⟨rfl,_⟩ | ⟨rest,rfl,same⟩
    · exact ⟨_,_,.done⟩
    · obtain ⟨goal,left,tail⟩ := ih same.symm
      exact ⟨goal,left,.up tail⟩
  | vacant | file =>
    obtain ⟨rfl,_⟩ | ⟨rest,_,same⟩ := List.append_eq_cons_iff.mp whole
    · exact ⟨_,_,.done⟩
    · exact absurd (List.append_eq_nil_iff.mp same.symm).2 more
  | down _ short found _ ih =>
    rcases List.append_eq_cons_iff.mp whole with ⟨rfl,_⟩ | ⟨rest,rfl,same⟩
    · exact ⟨_,_,.done⟩
    · obtain ⟨goal,left,tail⟩ := ih same.symm
      exact ⟨goal,left,.down short found tail⟩
  | link _ short found _ ih =>
    rcases List.append_eq_cons_iff.mp whole with ⟨rfl,_⟩ | ⟨rest,rfl,rfl⟩
    · exact ⟨_,_,.done⟩
    · obtain ⟨goal,left,tail⟩ := ih (List.append_assoc _ _ _)
      exact ⟨goal,left,.link short found tail⟩

theorem Reaches.append {front back : List Step} {between : Place} {links' : Nat}
    (first : Reaches t links place front between links') (second : Reaches t links' between back goal left) :
    Reaches t links place (front ++ back) goal left := by
  induction first with
  | done => exact second
  | stay _ ih => exact .stay (ih second)
  | slash _ ih => exact .slash (ih second)
  | up _ ih => exact .up (ih second)
  | down short found _ ih => exact .down short found (ih second)
  | link short found _ ih => exact .link short found (by simpa using ih second)

/-- Where the steps lead depends on nothing else. -/
theorem Reaches.unique {steps : List Step} {goal' : Place} {left' : Nat}
    (first : Reaches t links place steps goal left) (second : Reaches t links place steps goal' left') :
    goal = goal' ∧ left = left' := by
  induction first with
  | done => cases second; exact ⟨rfl,rfl⟩
  | stay _ ih => cases second with | stay tail => exact ih tail
  | slash _ ih => cases second with | slash tail => exact ih tail
  | up _ ih => cases second with | up tail => exact ih tail
  | down short found _ ih =>
    cases second with
    | down _ _ tail => exact ih tail
    | link _ other _ => simp [found] at other
  | link short found _ ih =>
    cases second with
    | down _ other _ => simp [found] at other
    | link _ other tail =>
      rw [found] at other
      cases other
      exact ih tail

theorem Reaches.becomes {rewritable addable : Place → Prop} {steps : List Step}
    (change : Becomes rewritable addable t t') (reached : Reaches t links place steps goal left) :
    Reaches t' links place steps goal left := by
  induction reached with
  | done => exact .done
  | stay _ ih => exact .stay ih
  | slash _ ih => exact .slash ih
  | up _ ih => exact .up ih
  | down short found _ ih => exact .down short (change.directory found) ih
  | link short found _ ih => exact .link short (change.link found) ih

/-- The place that steps lead to when nothing on the way is a link. -/
def lexical : Place → List Step → Place
  | place, [] => place
  | place, .stay :: rest => lexical place rest
  | place, .slash :: rest => lexical place rest
  | place, .up :: rest => lexical place.dropLast rest
  | place, .down name :: rest => lexical (place ++ [name]) rest

theorem lexical_append (place : Place) (front back : List Step) :
    lexical place (front ++ back) = lexical (lexical place front) back := by
  induction front generalizing place with
  | nil => rfl
  | cons step rest ih => cases step <;> simp [lexical,ih]

theorem Reaches.eq_lexical {steps : List Step} (free : t.LinkFree)
    (reached : Reaches t links place steps goal left) : goal = lexical place steps ∧ left = links := by
  induction reached with
  | done => exact ⟨rfl,rfl⟩
  | stay _ ih => exact ih
  | slash _ ih => exact ih
  | up _ ih => exact ih
  | down _ _ _ ih => exact ih
  | link _ found => exact absurd found (free _ _)

/-- What a walk finds at its end is what the tree holds there. -/
theorem node?_of_walkLinks {steps : List Step} {target : Target}
    (walked : t.walkLinks purpose links place steps = .ok target) :
    (∀ goal content, target = .file goal content → t.node? goal = some (.file content)) ∧
    (∀ parent name, target = .vacant parent name → t.node? (parent ++ [name]) = none) := by
  rw [walkLinks_eq_ok_iff] at walked
  induction walked with
  | done => simp
  | stay _ ih | slash _ ih | up _ ih | down _ _ _ _ ih | link _ _ _ _ ih => exact ih
  | vacant _ free => simpa using free
  | file _ found => simpa using found

/-- A walk that may write is a walk. -/
theorem walkLinks_use_of_write {steps : List Step} {target : Target}
    (walked : t.walkLinks .write links place steps = .ok target) :
    t.walkLinks .use links place steps = .ok target := by
  rw [walkLinks_eq_ok_iff] at walked ⊢
  induction walked with
  | done => exact .done
  | stay _ ih => exact .stay ih
  | slash _ ih => exact .slash ih
  | up _ ih => exact .up ih
  | vacant short free => exact .vacant short free
  | file short found => exact .file short found
  | down _ short found _ ih => exact .down (by simp) short found ih
  | link _ short found _ ih => exact .link (by simp) short found ih

/-- What a slash follows is no file. -/
theorem walkLinks_slash_ne_file (front : List Step) {content : List UInt8} :
    t.walkLinks .use links place (front ++ [.slash]) ≠ .ok (.file goal content) := by
  intro walked
  obtain ⟨found,left,reached⟩ := reaches_of_walkLinks_append (by simp) walked
  have whole := (reached.append (.slash .done)).walkLinks
  rw [walked] at whole
  simp at whole

/-- A walk to a file may write. -/
theorem walkLinks_write_of_file {steps : List Step} {content : List UInt8}
    (walked : t.walkLinks .use links place steps = .ok (.file goal content)) :
    t.walkLinks .write links place steps = .ok (.file goal content) := by
  rw [walkLinks_eq_ok_iff] at walked ⊢
  generalize ended : Target.file goal content = target at walked ⊢
  induction walked with
  | done => cases ended
  | stay _ ih => exact .stay (ih ended)
  | slash _ ih => exact .slash (ih ended)
  | up _ ih => exact .up (ih ended)
  | vacant => cases ended
  | file short found => exact .file short found
  | down _ short found tail ih =>
    refine .down (fun _ => ?_) short found (ih ended)
    rintro rfl
    exact walkLinks_slash_ne_file [] (ended ▸ tail.walkLinks_eq)
  | link _ short found tail ih =>
    refine .link (fun _ => ?_) short found (ih ended)
    rintro rfl
    exact walkLinks_slash_ne_file _ (ended ▸ tail.walkLinks_eq)

/-- The place of the file that a path leads to, or of the one that writing to it would make. -/
def Target.filePlace? : Target → Option Place
  | .directory _ => none
  | .file place _ => some place
  | .vacant parent name => some (parent ++ [name])

/-- A change leaves the way to a place, whatever file stands there then. -/
theorem walkLinks_file_becomes {rewritable addable : Place → Prop} (change : Becomes rewritable addable t t')
    {steps : List Step} {target : Target} {content : List UInt8} (found : t'.node? goal = some (.file content))
    (leads : target.filePlace? = some goal) (walked : t.walkLinks purpose links place steps = .ok target) :
    t'.walkLinks purpose links place steps = .ok (.file goal content) := by
  rw [walkLinks_eq_ok_iff] at walked ⊢
  induction walked with
  | done => cases leads
  | stay _ ih => exact .stay (ih leads)
  | slash _ ih => exact .slash (ih leads)
  | up _ ih => exact .up (ih leads)
  | vacant short | file short => cases leads; exact .file short found
  | down named short directory _ ih => exact .down named short (change.directory directory) (ih leads)
  | link named short link _ ih => exact .link named short (change.link link) (ih leads)

section Paths

variable {p : Path}

theorem unusable?_eq_none_iff : unusable? p = none ↔
    '\x00' ∉ p.spelling.toList ∧ p.spelling ≠ "" ∧ p.spelling.utf8ByteSize ≤ maxPathLength := by
  unfold unusable?
  split
  · simp_all
  split
  · simp_all
  split <;> simp_all

theorem resolveFor_eq_ok_iff {target : Target} : t.resolveFor purpose p = .ok target ↔
    unusable? p = none ∧ t.walkLinks purpose maxLinks (t.startOf p) (steps p) = .ok target := by
  unfold resolveFor
  split <;> simp_all [resolveSteps]

theorem node?_of_resolve {content : List UInt8} (resolved : t.resolve p = .ok (.file goal content)) :
    t.node? goal = some (.file content) :=
  (node?_of_walkLinks (resolveFor_eq_ok_iff.mp resolved).2).1 goal content rfl

theorem resolveFor_of_file {content : List UInt8} (resolved : t.resolve p = .ok (.file goal content)) :
    t.resolveFor .write p = .ok (.file goal content) := by
  obtain ⟨usable,walked⟩ := resolveFor_eq_ok_iff.mp resolved
  exact resolveFor_eq_ok_iff.mpr ⟨usable,walkLinks_write_of_file walked⟩

theorem startOf_eq {t t' : Tree} (home : t'.home = t.home) (p : Path) : t'.startOf p = t.startOf p := by
  simp [startOf,home]

theorem resolve_file_becomes {rewritable addable : Place → Prop} (change : Becomes rewritable addable t t')
    {before after : List UInt8} (resolved : t.resolve p = .ok (.file goal before))
    (found : t'.node? goal = some (.file after)) : t'.resolve p = .ok (.file goal after) := by
  obtain ⟨usable,walked⟩ := resolveFor_eq_ok_iff.mp resolved
  refine resolveFor_eq_ok_iff.mpr ⟨usable,?_⟩
  rw [startOf_eq change.home]
  exact walkLinks_file_becomes change found rfl walked

theorem directoryAt?_eq_some_iff : t.directoryAt? p = some goal ↔
    unusable? p = none ∧ ∃ left, Reaches t maxLinks (t.startOf p) (plainSteps p) goal left := by
  have resolved : t.directoryAt? p = some goal ↔ t.resolve p = .ok (.directory goal) := by
    unfold directoryAt?
    split <;> simp_all
  rw [resolved,resolve,resolveFor_eq_ok_iff,and_congr_right_iff]
  intro _
  unfold steps
  constructor
  · intro walked
    split at walked
    · -- a trailing slash asks for a directory, which is there anyway
      obtain ⟨found,left,front⟩ := reaches_of_walkLinks_append (by simp) walked
      have whole := (front.append (.slash .done)).walkLinks
      rw [walked,Except.ok.injEq,Target.directory.injEq] at whole
      exact ⟨left,whole ▸ front⟩
    · exact reaches_of_walkLinks (by simpa using walked)
  · rintro ⟨left,reached⟩
    split
    · exact (reached.append (.slash .done)).walkLinks
    · simpa using reached.walkLinks

theorem directoryAt?_becomes {rewritable addable : Place → Prop} (change : Becomes rewritable addable t t')
    (found : t.directoryAt? p = some goal) : t'.directoryAt? p = some goal := by
  obtain ⟨usable,left,reached⟩ := directoryAt?_eq_some_iff.mp found
  refine directoryAt?_eq_some_iff.mpr ⟨usable,left,?_⟩
  rw [startOf_eq change.home]
  exact reached.becomes change

/-- The path names the entry `name` of the directory `parent`, whether or not it is there. -/
structure Addresses (t : Tree) (p : Path) (parent : Place) (name : Name) : Prop where
  usable : unusable? p = none
  short : name.length ≤ maxNameLength
  walk : ∃ front left, steps p = front ++ [.down name] ∧ Reaches t maxLinks (t.startOf p) front parent left

namespace Addresses

variable {parent : Place} {name : Name}

theorem becomes {rewritable addable : Place → Prop} (change : Becomes rewritable addable t t')
    (addressed : Addresses t p parent name) : Addresses t' p parent name where
  usable := addressed.usable
  short := addressed.short
  walk := by
    obtain ⟨front,left,split,reached⟩ := addressed.walk
    refine ⟨front,left,split,?_⟩
    rw [startOf_eq change.home]
    exact reached.becomes change

theorem resolveFor_eq (addressed : Addresses t p parent name) (purpose : Purpose) :
    ∃ left, t.resolveFor purpose p = t.walkLinks purpose left parent [.down name] := by
  obtain ⟨front,left,split,reached⟩ := addressed.walk
  refine ⟨left,?_⟩
  simp only [resolveFor,addressed.usable,resolveSteps,split]
  refine reached.walkLinks_append ?_
  intro _ steps equal
  have last := congrArg List.getLast? equal
  simp at last

theorem resolveFor_file (addressed : Addresses t p parent name) {content : List UInt8}
    (found : t.node? (parent ++ [name]) = some (.file content)) (purpose : Purpose) :
    t.resolveFor purpose p = .ok (.file (parent ++ [name]) content) := by
  obtain ⟨left,resolved⟩ := addressed.resolveFor_eq purpose
  rw [resolved,walkLinks_eq_ok_iff]
  exact .file addressed.short found

theorem resolveFor_vacant (addressed : Addresses t p parent name)
    (free : t.node? (parent ++ [name]) = none) (purpose : Purpose) :
    t.resolveFor purpose p = .ok (.vacant parent name) := by
  obtain ⟨left,resolved⟩ := addressed.resolveFor_eq purpose
  rw [resolved,walkLinks_eq_ok_iff]
  exact .vacant addressed.short free

theorem resolveFor_directory (addressed : Addresses t p parent name)
    (found : t.node? (parent ++ [name]) = some .directory) (purpose : Purpose) :
    t.resolveFor purpose p = .ok (.directory (parent ++ [name])) := by
  obtain ⟨left,resolved⟩ := addressed.resolveFor_eq purpose
  rw [resolved,walkLinks_eq_ok_iff]
  exact .down (by simp) addressed.short found .done

theorem eq_lexical (free : t.LinkFree) (addressed : Addresses t p parent name) :
    parent ++ [name] = lexical (t.startOf p) (steps p) := by
  obtain ⟨front,left,split,reached⟩ := addressed.walk
  rw [split,lexical_append,← (reached.eq_lexical free).1]
  rfl

end Addresses

theorem addresses_joinName {name : String} {parent : Place} {left : Nat} (entry : Path.IsEntryName name)
    (usable : unusable? (p.joinName name) = none) (short : (Text.bytes name).length ≤ maxNameLength)
    (reached : Reaches t maxLinks (t.startOf p) (plainSteps p) parent left) :
    Addresses t (p.joinName name) parent (Text.bytes name) where
  usable := usable
  short := short
  walk := ⟨plainSteps p,left,steps_joinName p entry,by rwa [startOf_joinName t p entry]⟩

/-- A path with a name joined to it that can be resolved names an entry of the directory on its left. -/
theorem addresses_of_resolve {name : String} {target : Target} (entry : Path.IsEntryName name)
    (resolved : t.resolveFor purpose (p.joinName name) = .ok target) :
    ∃ parent left, Addresses t (p.joinName name) parent (Text.bytes name) ∧
      Reaches t maxLinks (t.startOf p) (plainSteps p) parent left := by
  obtain ⟨usable,walked⟩ := resolveFor_eq_ok_iff.mp resolved
  rw [steps_joinName p entry,startOf_joinName t p entry] at walked
  obtain ⟨parent,left,reached⟩ := reaches_of_walkLinks_append (by simp) walked
  refine ⟨parent,left,addresses_joinName entry usable ?_ reached,reached⟩
  rw [reached.walkLinks_append (by
    intro _ steps equal
    have last := congrArg List.getLast? equal
    simp at last),walkLinks_eq_ok_iff] at walked
  cases walked with
  | vacant short | file short | down _ short | link _ short => exact short

end Paths

end ErrorMigration.Tree
