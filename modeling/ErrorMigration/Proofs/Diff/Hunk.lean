import ErrorMigration.Diff.Hunk
import ErrorMigration.Proofs.Diff.Script
import Mathlib.Data.List.SplitBy

/-! Hunks are applied in order: the lines between them stay, lines of context and removed lines have to be there, and
the ranges have to say where the hunk stands and how many lines it has. The changes of a script tile both lists with the
lines they share, so the hunks of two lists, applied to the old one, give the new one. -/
namespace ErrorMigration.Diff

variable {α : Type}

section Apply

variable [DecidableEq α]

/-- What the body of a hunk puts out at the given lines, and the lines behind it. -/
def applyBody : List (Mark × α) → List α → Option (List α × List α)
  | [],lines => some ([],lines)
  | (.added,line) :: body,lines => (applyBody body lines).map fun p => (line :: p.1,p.2)
  | (.removed,line) :: body,found :: lines => if line = found then applyBody body lines else none
  | (.context,line) :: body,found :: lines =>
    if line = found then (applyBody body lines).map fun p => (line :: p.1,p.2) else none
  | _ :: _,[] => none

/-- What hunks make of the lines from `oldLine` on, which go to `newLine` and on. -/
def applyHunks : List (Hunk α) → Nat → Nat → List α → Option (List α)
  | [],_,_,lines => some lines
  | hunk :: hunks,oldLine,newLine,lines => do
    let skipped := hunk.oldStart - oldLine
    guard (oldLine ≤ hunk.oldStart ∧ skipped ≤ lines.length ∧ hunk.newStart = newLine + skipped)
    let (out,rest) ← applyBody hunk.body (lines.drop skipped)
    guard (skipped + hunk.oldCount + rest.length = lines.length ∧ hunk.newCount = out.length)
    let tail ← applyHunks hunks (hunk.oldStart + hunk.oldCount) (hunk.newStart + hunk.newCount) rest
    return lines.take skipped ++ out ++ tail

end Apply

section Sides

/-- The lines of a body but for those with one mark, in order. -/
def side (absent : Mark) (body : List (Mark × α)) : List α := (body.filter fun entry => entry.1 ≠ absent).map Prod.snd

abbrev oldSide (body : List (Mark × α)) : List α := side .added body

abbrev newSide (body : List (Mark × α)) : List α := side .removed body

@[simp] theorem side_append (absent : Mark) (front back : List (Mark × α)) :
    side absent (front ++ back) = side absent front ++ side absent back := by simp [side]

@[simp] theorem side_marked (absent mark : Mark) (lines : List α) :
    side absent (marked mark lines) = if mark = absent then [] else lines := by
  by_cases left : mark = absent <;> simp [side,marked,left,List.filter_map,Function.comp_def]

/-- A body is applied where its old side stands, and puts out its new side. -/
theorem applyBody_oldSide [DecidableEq α] (body : List (Mark × α)) (rest : List α) :
    applyBody body (oldSide body ++ rest) = some (newSide body,rest) := by
  induction body with
  | nil => rfl
  | cons entry body ih =>
    obtain ⟨mark,line⟩ := entry
    cases mark <;> simpa [side,applyBody] using ih

end Sides

section Slices

theorem slice_append_drop {a b : Nat} (order : a ≤ b) (lines : List α) :
    slice a b lines ++ lines.drop b = lines.drop a := by
  rw [slice,List.drop_take,show lines.drop b = (lines.drop a).drop (b - a) by simp [Nat.add_sub_cancel' order],
    List.take_append_drop]

theorem slice_append_slice {a b c : Nat} (first : a ≤ b) (second : b ≤ c) (lines : List α) :
    slice a b lines ++ slice b c lines = slice a c lines := by
  simp only [slice,List.drop_take]
  rw [show c - a = b - a + (c - b) by omega,List.take_add,List.drop_drop,Nat.add_sub_cancel' first]

theorem length_slice {a b : Nat} {lines : List α} (inside : b ≤ lines.length) : (slice a b lines).length = b - a := by
  simp [slice,inside]

/-- Two lists share `k` lines from the given ones on. -/
structure Shared (old new : List α) (i j k : Nat) : Prop where
  oldInside : i + k ≤ old.length
  newInside : j + k ≤ new.length
  same : ∀ n < k,old[i + n]? = new[j + n]?

variable {old new : List α} {i j k : Nat}

theorem Shared.slice_eq (shared : Shared old new i j k) : slice i (i + k) old = slice j (j + k) new := by
  apply List.ext_getElem?
  intro n
  by_cases inside : n < k
  · simp [slice,inside,shared.same n inside]
  · simp [slice,inside]

theorem Shared.part (shared : Shared old new i j k) {a n : Nat} (inside : a + n ≤ k) :
    Shared old new (i + a) (j + a) n where
  oldInside := by have := shared.oldInside; omega
  newInside := by have := shared.newInside; omega
  same m below := by
    have here := shared.same (a + m) (by omega)
    rwa [← Nat.add_assoc,← Nat.add_assoc] at here

theorem Shared.append (shared : Shared old new i j k) {n : Nat} (more : Shared old new (i + k) (j + k) n) :
    Shared old new i j (k + n) where
  oldInside := by have := more.oldInside; omega
  newInside := by have := more.newInside; omega
  same m below := by
    by_cases inside : m < k
    · exact shared.same m inside
    · have here := more.same (m - k) (by omega)
      rwa [show i + k + (m - k) = i + m by omega,show j + k + (m - k) = j + m by omega] at here

theorem shared_of_drop {lines oldRest newRest : List α} (oldInside : i ≤ old.length) (newInside : j ≤ new.length)
    (before : old.drop i = lines ++ oldRest) (after : new.drop j = lines ++ newRest) :
    Shared old new i j lines.length where
  oldInside := by have := congrArg List.length before; simp at this; omega
  newInside := by have := congrArg List.length after; simp at this; omega
  same n below := by
    rw [← List.getElem?_drop,← List.getElem?_drop,before,after,List.getElem?_append_left below,
      List.getElem?_append_left below]

end Slices

section Aligned

/-- A change that is the first one behind the given lines. Only at the start of both lists may it follow at once. -/
structure Opens (old new : List α) (i j : Nat) (c : Change) : Prop where
  place : i ≤ c.oldStart
  newPlace : c.newStart = j + (c.oldStart - i)
  shared : Shared old new i j (c.oldStart - i)
  gap : i < c.oldStart ∨ i = 0 ∧ j = 0
  oldOrder : c.oldStart ≤ c.oldStop
  newOrder : c.newStart ≤ c.newStop
  oldInside : c.oldStop ≤ old.length
  newInside : c.newStop ≤ new.length

def Change.Moves (c : Change) : Prop := c.oldStart < c.oldStop ∨ c.newStart < c.newStop

/-- Changes that tile two lists from the given lines on, together with the lines these share. -/
inductive Aligned (old new : List α) : Nat → Nat → List Change → Prop where
  | done {i j k : Nat} (shared : Shared old new i j k) (oldEnd : i + k = old.length) (newEnd : j + k = new.length) :
      Aligned old new i j []
  | next {i j : Nat} {c : Change} {rest : List Change} (opens : Opens old new i j c) (moves : c.Moves)
      (behind : Aligned old new c.oldStop c.newStop rest) : Aligned old new i j (c :: rest)

variable {old new : List α} {i j : Nat}

/-- What follows some of the lines at a place. -/
theorem drop_of_drop_eq_append {all lines rest : List α} (here : all.drop i = lines ++ rest) :
    all.drop (i + lines.length) = rest := by
  rw [← List.drop_drop,here,List.drop_left]

theorem add_length_le_of_drop {all lines rest : List α} (inside : i ≤ all.length) (here : all.drop i = lines ++ rest) :
    i + lines.length ≤ all.length := by
  have lengths := congrArg List.length here
  rw [List.length_drop,List.length_append] at lengths
  omega

/-- The place behind lines that are kept, as a change without lines. -/
theorem opens_empty {k : Nat} (shared : Shared old new i j k) (gap : 0 < k ∨ i = 0 ∧ j = 0) :
    Opens old new i j ⟨i + k,i + k,j + k,j + k⟩ where
  place := Nat.le_add_right i k
  newPlace := by simp
  shared := by simpa using shared
  gap := gap.imp_left fun some => Nat.lt_add_of_pos_right some
  oldOrder := Nat.le_refl _
  newOrder := Nat.le_refl _
  oldInside := shared.oldInside
  newInside := shared.newInside

/-- The same with more kept lines. -/
theorem Opens.past {c : Change} {n : Nat} (opens : Opens old new i j c) (oldEmpty : c.oldStart = c.oldStop)
    (newEmpty : c.newStart = c.newStop) (some : 0 < n) (more : Shared old new c.oldStop c.newStop n) :
    Opens old new i j ⟨c.oldStop + n,c.oldStop + n,c.newStop + n,c.newStop + n⟩ := by
  have place := opens.place
  have newPlace := opens.newPlace
  have oldLine : c.oldStop = i + (c.oldStart - i) := by omega
  have newLine : c.newStop = j + (c.oldStart - i) := by omega
  rw [oldLine,newLine] at more
  have whole := opens_empty (opens.shared.append more) (.inl (Nat.add_pos_right _ some))
  rwa [← Nat.add_assoc,← Nat.add_assoc,← oldLine,← newLine] at whole

/-- The change under way is `c`; as long as it has no lines, it has not started. -/
theorem aligned_changesFrom (script : List (Edit α)) (filled : Filled script) {c : Change} (opens : Opens old new i j c)
    (before : old.drop c.oldStop = linesBefore script) (after : new.drop c.newStop = linesAfter script)
    {current : Option Change} (going : current.getD ⟨c.oldStop,c.oldStop,c.newStop,c.newStop⟩ = c)
    (moves : ∀ started ∈ current,Change.Moves started) :
    Aligned old new i j (changesFrom c.oldStop c.newStop current script) := by
  induction script generalizing i j c current with
  | nil =>
    have oldEnd : c.oldStop = old.length := Nat.le_antisymm opens.oldInside (List.drop_eq_nil_iff.mp before)
    have newEnd : c.newStop = new.length := Nat.le_antisymm opens.newInside (List.drop_eq_nil_iff.mp after)
    cases current with
    | none =>
      have oldEmpty : c.oldStart = c.oldStop := congrArg Change.oldStart going.symm
      have newEmpty : c.newStart = c.newStop := congrArg Change.newStart going.symm
      have place := opens.place
      have newPlace := opens.newPlace
      exact .done opens.shared (by omega) (by omega)
    | some started =>
      obtain rfl : started = c := going
      exact .next opens (moves _ rfl) (.done (k := 0) ⟨opens.oldInside,opens.newInside,nofun⟩ oldEnd newEnd)
  | cons e script ih =>
    rw [filled_cons] at filled
    obtain ⟨kind,lines⟩ := e
    have some : 0 < lines.length := List.length_pos_of_ne_nil filled.1
    cases kind with
    | keep =>
      have more : Shared old new c.oldStop c.newStop lines.length :=
        shared_of_drop opens.oldInside opens.newInside before after
      have beforeRest := drop_of_drop_eq_append before
      have afterRest := drop_of_drop_eq_append after
      cases current with
      | none =>
        have oldEmpty : c.oldStart = c.oldStop := congrArg Change.oldStart going.symm
        have newEmpty : c.newStart = c.newStop := congrArg Change.newStart going.symm
        exact ih filled.2 (opens.past oldEmpty newEmpty some more) beforeRest afterRest rfl nofun
      | some started =>
        obtain rfl : started = c := going
        exact .next opens (moves _ rfl) (ih filled.2 (opens_empty more (.inl some)) beforeRest afterRest rfl nofun)
    | delete =>
      have grown : Opens old new i j { c with oldStop := c.oldStop + lines.length } :=
        { opens with
          oldOrder := Nat.le_add_right_of_le opens.oldOrder
          oldInside := add_length_le_of_drop opens.oldInside before }
      have started : Change.Moves { c with oldStop := c.oldStop + lines.length } :=
        .inl (Nat.lt_of_le_of_lt opens.oldOrder (Nat.lt_add_of_pos_right some))
      simp only [changesFrom,going]
      exact ih filled.2 grown (drop_of_drop_eq_append before) after rfl (by rintro _ ⟨⟩; exact started)
    | insert =>
      have grown : Opens old new i j { c with newStop := c.newStop + lines.length } :=
        { opens with
          newOrder := Nat.le_add_right_of_le opens.newOrder
          newInside := add_length_le_of_drop opens.newInside after }
      have started : Change.Moves { c with newStop := c.newStop + lines.length } :=
        .inr (Nat.lt_of_le_of_lt opens.newOrder (Nat.lt_add_of_pos_right some))
      simp only [changesFrom,going]
      exact ih filled.2 grown before (drop_of_drop_eq_append after) rfl (by rintro _ ⟨⟩; exact started)

theorem aligned_changes {script : List (Edit α)} (leads : Leads old new script) :
    Aligned old new 0 0 (changes script) := by
  have start : Opens old new 0 0 ⟨0,0,0,0⟩ :=
    opens_empty (k := 0) ⟨Nat.zero_le _,Nat.zero_le _,nofun⟩ (.inr ⟨rfl,rfl⟩)
  exact aligned_changesFrom script leads.filled start leads.before.symm leads.after.symm rfl nofun

theorem Aligned.inside {changes : List Change} (aligned : Aligned old new i j changes) :
    i ≤ old.length ∧ j ≤ new.length := by
  cases aligned with
  | done shared oldEnd newEnd => omega
  | next opens _ _ =>
    have oldInside := opens.shared.oldInside
    have newInside := opens.shared.newInside
    omega

/-- The lists share the lines up to the first change, or to the end. -/
theorem Aligned.shared {changes : List Change} (aligned : Aligned old new i j changes) {n : Nat}
    (oldRoom : i + n ≤ old.length) (free : ∀ c ∈ changes.head?,i + n ≤ c.oldStart) : Shared old new i j n := by
  cases aligned with
  | done shared oldEnd newEnd => exact shared.part (a := 0) (by omega)
  | next opens moves behind =>
    have free := free _ rfl
    exact opens.shared.part (a := 0) (by omega)

end Aligned

section Groups

variable {old new : List α} {i j : Nat}

abbrev lastChange (first : Change) (others : List Change) : Change := others.getLast?.getD first

theorem lastChange_cons (first next : Change) (others : List Change) :
    lastChange first (next :: others) = lastChange next others := by simp [lastChange,List.getLast?_cons]

theorem getLast_eq_lastChange (first : Change) (others : List Change) (filled : first :: others ≠ []) :
    (first :: others).getLast filled = lastChange first others :=
  Option.some.inj (by rw [← List.getLast?_eq_some_getLast,List.getLast?_cons])

structure Passed (old new : List α) (first last : Change) (rest : List Change) : Prop where
  oldOrder : first.oldStart ≤ last.oldStop
  newOrder : first.newStart ≤ last.newStop
  moves : last.Moves
  behind : Aligned old new last.oldStop last.newStop rest

theorem Aligned.passed {first : Change} {others rest : List Change}
    (aligned : Aligned old new i j (first :: others ++ rest)) :
    Passed old new first (lastChange first others) rest := by
  induction others generalizing first i j with
  | nil =>
    cases aligned with
    | next opens moves behind => exact ⟨opens.oldOrder,opens.newOrder,moves,behind⟩
  | cons next others ih =>
    cases aligned with
    | next opens moves behind =>
      have more := ih behind
      cases behind with
      | next nextOpens _ _ =>
        have oldOrder := opens.oldOrder
        have newOrder := opens.newOrder
        have oldPlace := nextOpens.place
        have newPlace := nextOpens.newPlace
        rw [lastChange_cons]
        exact ⟨by have := more.oldOrder; omega,by have := more.newOrder; omega,more.moves,more.behind⟩

/-- The two sides of the bodies are the lines from the start of the first change to the context behind the last. -/
theorem sides_bodies {first last : Change} {others rest : List Change} (isLast : lastChange first others = last)
    (aligned : Aligned old new i j (first :: others ++ rest))
    (context : Shared old new last.oldStop last.newStop (last.trailing old new)) :
    oldSide (bodies old new (first :: others)) = slice first.oldStart (last.oldStop + last.trailing old new) old ∧
      newSide (bodies old new (first :: others)) = slice first.newStart (last.newStop + last.trailing old new) new := by
  induction others generalizing first i j with
  | nil =>
    obtain rfl : first = last := isLast
    cases aligned with
    | next opens moves behind =>
      constructor
      · simp only [bodies,Change.body,side_append,side_marked,reduceCtorEq,if_false,if_true,List.append_nil,
          ← context.slice_eq]
        exact slice_append_slice opens.oldOrder (Nat.le_add_right _ _) old
      · simp only [bodies,Change.body,side_append,side_marked,reduceCtorEq,if_false,if_true,List.nil_append]
        exact slice_append_slice opens.newOrder (Nat.le_add_right _ _) new
  | cons next others ih =>
    rw [lastChange_cons] at isLast
    cases aligned with
    | next opens moves behind =>
      obtain ⟨oldMore,newMore⟩ := ih isLast behind
      have passed := behind.passed
      rw [isLast] at passed
      cases behind with
      | next nextOpens _ _ =>
        have place := nextOpens.place
        have newPlace := nextOpens.newPlace
        have kept : min (next.oldStart - first.oldStop) (next.newStart - first.newStop) =
            next.oldStart - first.oldStop := by omega
        have shared := nextOpens.shared.slice_eq
        constructor
        · simp only [bodies,Change.body,side_append,side_marked,reduceCtorEq,if_false,if_true,
            List.append_nil,kept,← shared,oldMore]
          rw [Nat.add_sub_cancel' place,slice_append_slice opens.oldOrder place,
            slice_append_slice (Nat.le_trans opens.oldOrder place) (Nat.le_add_right_of_le passed.oldOrder)]
        · simp only [bodies,Change.body,side_append,side_marked,reduceCtorEq,if_false,if_true,
            List.nil_append,kept,newMore,← newPlace]
          rw [slice_append_slice opens.newOrder (by omega),
            slice_append_slice (by have := opens.newOrder; omega) (Nat.le_add_right_of_le passed.newOrder)]

/-- Changes that do not touch leave room for the context of both. -/
theorem Opens.apart {c next : Change} (opens : Opens old new c.oldStop c.newStop next) (moves : c.Moves)
    (free : c.touches old new next = false) : c.oldStop + c.trailing old new + contextSize ≤ next.oldStart := by
  have oldInside := opens.shared.oldInside
  have newInside := opens.shared.newInside
  have gap := opens.gap
  -- at least one line is kept between the two, so the context behind the first is not empty
  have free : ¬ min next.oldStart (old.length - 1) - contextSize < c.oldStop + c.trailing old new :=
    of_decide_eq_false free
  simp only [Change.trailing,contextSize] at free ⊢
  simp only [Change.Moves] at moves
  omega

end Groups

section Tiles

/-- A hunk whose sides are the lines of its ranges. -/
structure Hunk.Fits (old new : List α) (hunk : Hunk α) : Prop where
  oldInside : hunk.oldStart + hunk.oldCount ≤ old.length
  newInside : hunk.newStart + hunk.newCount ≤ new.length
  oldLines : oldSide hunk.body = slice hunk.oldStart (hunk.oldStart + hunk.oldCount) old
  newLines : newSide hunk.body = slice hunk.newStart (hunk.newStart + hunk.newCount) new

/-- Hunks that tile two lists from the given lines on, together with the lines these share. -/
inductive Tiled (old new : List α) : Nat → Nat → List (Hunk α) → Prop where
  | done {i j k : Nat} (shared : Shared old new i j k) (oldEnd : i + k = old.length) (newEnd : j + k = new.length) :
      Tiled old new i j []
  | next {i j k : Nat} {hunk : Hunk α} {rest : List (Hunk α)} (shared : Shared old new i j k)
      (oldStart : hunk.oldStart = i + k) (newStart : hunk.newStart = j + k) (fits : hunk.Fits old new)
      (behind : Tiled old new (hunk.oldStart + hunk.oldCount) (hunk.newStart + hunk.newCount) rest) :
      Tiled old new i j (hunk :: rest)

variable {old new : List α} {i j : Nat}

theorem Tiled.applied [DecidableEq α] {hunks : List (Hunk α)} (tiled : Tiled old new i j hunks) :
    applyHunks hunks i j (old.drop i) = some (new.drop j) := by
  induction tiled with
  | @done i j k shared oldEnd newEnd =>
    have same := shared.slice_eq
    simp only [slice,oldEnd,newEnd,List.take_length] at same
    rw [applyHunks,same]
  | @next i j k hunk rest shared oldStart newStart fits behind ih =>
    have oldInside := fits.oldInside
    have newInside := fits.newInside
    have skipped : hunk.oldStart - i = k := by omega
    have body : applyBody hunk.body (old.drop (i + k)) =
        some (newSide hunk.body,old.drop (hunk.oldStart + hunk.oldCount)) := by
      rw [← oldStart,← slice_append_drop (Nat.le_add_right _ hunk.oldCount),← fits.oldLines,applyBody_oldSide]
    have out : (newSide hunk.body).length = hunk.newCount := by
      rw [fits.newLines,length_slice newInside,Nat.add_sub_cancel_left]
    have front : (old.drop i).take k = slice j (j + k) new := by
      rw [← shared.slice_eq,slice,List.drop_take,Nat.add_sub_cancel_left]
    have whole : (old.drop i).take k ++ newSide hunk.body ++ new.drop (hunk.newStart + hunk.newCount) = new.drop j := by
      rw [front,fits.newLines,List.append_assoc,slice_append_drop (Nat.le_add_right _ _),newStart,
        slice_append_drop (Nat.le_add_right _ _)]
    have starts : i ≤ hunk.oldStart ∧ k ≤ (old.drop i).length ∧ hunk.newStart = j + k := by
      simp only [List.length_drop]
      omega
    have counts : k + hunk.oldCount + (old.drop (hunk.oldStart + hunk.oldCount)).length = (old.drop i).length ∧
        hunk.newCount = (newSide hunk.body).length := by
      simp only [List.length_drop]
      omega
    simp only [applyHunks,skipped,List.drop_drop,body,ih,guard,if_pos starts,if_pos counts,whole,Option.pure_def,
      Option.bind_eq_bind,Option.bind_some]

theorem mem_of_mem_slice {start stop : Nat} {lines : List α} {line : α} (member : line ∈ slice start stop lines) :
    line ∈ lines := List.mem_of_mem_take (List.mem_of_mem_drop member)

/-- A hunk has no lines but those of the two lists. -/
theorem Hunk.Fits.mem {hunk : Hunk α} (fits : hunk.Fits old new) {entry : Mark × α} (member : entry ∈ hunk.body) :
    entry.2 ∈ old ∨ entry.2 ∈ new := by
  by_cases added : entry.1 = .added
  · have side : entry.2 ∈ newSide hunk.body :=
      List.mem_map_of_mem (List.mem_filter.mpr ⟨member,by simp [added]⟩)
    exact .inr (mem_of_mem_slice (fits.newLines ▸ side))
  · have side : entry.2 ∈ oldSide hunk.body :=
      List.mem_map_of_mem (List.mem_filter.mpr ⟨member,by simp [added]⟩)
    exact .inl (mem_of_mem_slice (fits.oldLines ▸ side))

theorem Tiled.fits {hunks : List (Hunk α)} (tiled : Tiled old new i j hunks) : ∀ hunk ∈ hunks,hunk.Fits old new := by
  induction tiled with
  | done _ _ _ => nofun
  | next _ _ _ fits _ ih => exact List.forall_mem_cons.mpr ⟨fits,ih⟩

/-- Changes that touch as one hunk, behind `t` lines of context of the hunk before. -/
theorem Tiled.ofChanges {first last : Change} {others rest : List Change} {hunks : List (Hunk α)} {t : Nat}
    (aligned : Aligned old new i j (first :: others ++ rest))
    (room : i + t + contextSize ≤ first.oldStart ∨ i = 0 ∧ j = 0 ∧ t = 0) (isLast : lastChange first others = last)
    (context : Shared old new last.oldStop last.newStop (last.trailing old new))
    (behind : Tiled old new (last.oldStop + last.trailing old new) (last.newStop + last.trailing old new) hunks) :
    Tiled old new (i + t) (j + t) (Hunk.ofChanges old new first others :: hunks) := by
  have passed := aligned.passed
  rw [isLast] at passed
  obtain ⟨oldBody,newBody⟩ := sides_bodies isLast aligned context
  cases aligned with
  | next opens _ _ =>
    have place := opens.place
    have newPlace := opens.newPlace
    have oldOrder := passed.oldOrder
    have newOrder := passed.newOrder
    obtain ⟨skipped,oldStart,newStart⟩ : ∃ k,first.oldStart - contextSize = i + (t + k) ∧
        first.newStart - contextSize = j + (t + k) := ⟨first.oldStart - contextSize - (i + t),by omega,by omega⟩
    have oldStop : first.oldStart - contextSize + (last.oldStop + last.trailing old new -
        (first.oldStart - contextSize)) = last.oldStop + last.trailing old new := by omega
    have newStop : first.newStart - contextSize + (last.newStop + last.trailing old new -
        (first.newStart - contextSize)) = last.newStop + last.trailing old new := by omega
    have lead : slice (first.oldStart - contextSize) first.oldStart old =
        slice (first.newStart - contextSize) first.newStart new := by
      have part := (opens.shared.part (a := t + skipped) (n := first.oldStart - (i + (t + skipped)))
        (by omega)).slice_eq
      rwa [← oldStart,← newStart,Nat.add_sub_cancel' (by omega),
        show first.newStart - contextSize + (first.oldStart - (first.oldStart - contextSize)) = first.newStart by omega]
        at part
    refine .next (opens.shared.part (a := t) (n := skipped) (by omega)) (by simp [Hunk.ofChanges]; omega)
      (by simp [Hunk.ofChanges]; omega) ?_ ?_
    · constructor
      · simpa [Hunk.ofChanges,isLast,oldStop] using context.oldInside
      · simpa [Hunk.ofChanges,isLast,newStop] using context.newInside
      · simp only [Hunk.ofChanges,isLast,side_append,side_marked,reduceCtorEq,if_false,oldBody,oldStop,← lead]
        exact slice_append_slice (by omega) (by omega) old
      · simp only [Hunk.ofChanges,isLast,side_append,side_marked,reduceCtorEq,if_false,newBody,newStop]
        exact slice_append_slice (by omega) (by omega) new
    · simpa [Hunk.ofChanges,isLast,oldStop,newStop] using behind

theorem tiled_groups (groups : List (List Change)) (filled : [] ∉ groups)
    (apart : groups.IsChain fun a b => ∃ ha hb,Change.touches old new (a.getLast ha) (b.head hb) = false) {t : Nat}
    (aligned : Aligned old new i j groups.flatten) (shared : Shared old new i j t)
    (room : ∀ c ∈ groups.flatten.head?,i + t + contextSize ≤ c.oldStart ∨ i = 0 ∧ j = 0 ∧ t = 0) :
    Tiled old new (i + t) (j + t) (groups.flatMap fun
      | [] => []
      | first :: others => [Hunk.ofChanges old new first others]) := by
  induction groups generalizing i j t with
  | nil =>
    cases aligned with
    | @done i j k whole oldEnd newEnd =>
      have oldInside := shared.oldInside
      exact .done (whole.part (a := t) (n := k - t) (by omega)) (by omega) (by omega)
  | cons group groups ih =>
    cases group with
    | nil => exact absurd List.mem_cons_self filled
    | cons first others =>
      have passed := aligned.passed
      have free : ∀ c ∈ groups.flatten.head?,(lastChange first others).oldStop +
          (lastChange first others).trailing old new + contextSize ≤ c.oldStart := by
        intro c member
        cases groups with
        | nil => cases member
        | cons group groups =>
          obtain ⟨_,filledNext,untouched⟩ := (List.isChain_cons_cons.mp apart).1
          obtain ⟨next,others',rfl⟩ := List.exists_cons_of_ne_nil filledNext
          obtain rfl : next = c := by simpa using member
          have behind := passed.behind
          cases behind with
          | next opens _ _ =>
            refine opens.apart passed.moves ?_
            rwa [getLast_eq_lastChange] at untouched
      have context : Shared old new (lastChange first others).oldStop (lastChange first others).newStop
          ((lastChange first others).trailing old new) := by
        refine passed.behind.shared ?_ fun c member => Nat.le_of_add_right_le (free c member)
        have inside := passed.behind.inside
        simp only [Change.trailing]
        omega
      exact .ofChanges aligned (room first rfl) rfl context
        (ih (fun member => filled (List.mem_cons_of_mem _ member)) apart.tail passed.behind context
          fun c member => .inl (free c member))

variable [BEq α] [LawfulBEq α]

theorem tiled_hunks (old new : List α) : Tiled old new 0 0 (hunks old new) := by
  have aligned := aligned_changes (leads_compact_compare old new)
  refine tiled_groups (t := 0) _ (List.nil_notMem_splitBy _ _) (List.isChain_getLast_head_splitBy _ _) ?_
    ⟨Nat.zero_le _,Nat.zero_le _,nofun⟩ (fun _ _ => .inr ⟨rfl,rfl,rfl⟩)
  rwa [List.flatten_splitBy]

theorem applyHunks_hunks [DecidableEq α] (old new : List α) : applyHunks (hunks old new) 0 0 old = some new :=
  (tiled_hunks old new).applied

theorem hunks_ne_nil {old new : List α} (changed : old ≠ new) : hunks old new ≠ [] := by
  classical
  intro none
  have applied := applyHunks_hunks old new
  rw [none] at applied
  exact changed (Option.some.inj applied)

end Tiles

end ErrorMigration.Diff
