import ErrorMigration.Proofs.Files.Order
import ErrorMigration.Proofs.Moment
import ErrorMigration.Settings

/-! The names of run directories. A name tells the second that the run began in. In the years of four digits all names
have one length, their digits stand for numbers that grow with the time, and so names are in the order of time when they
are compared byte by byte. -/
namespace ErrorMigration

namespace Text

theorem precedes_iff {s t : String} :
    precedes s t = true ↔ (bytes s).map UInt8.toNat < (bytes t).map UInt8.toNat := by
  rw [precedes,decide_eq_true_iff,Path.map_toNat_lt_iff]

/-- Of texts of one length the smaller one stays smaller, whatever follows. -/
theorem append_lt_append {xs xs' : List UInt8} (less : xs < xs') (length : xs.length = xs'.length)
    (ys ys' : List UInt8) : xs ++ ys < xs' ++ ys' := by
  induction xs generalizing xs' with
  | nil =>
    rw [List.eq_nil_of_length_eq_zero length.symm] at less
    simp at less
  | cons x xs ih =>
    obtain ⟨x',xs',rfl⟩ := List.exists_cons_of_length_eq_add_one length.symm
    rw [List.cons_append,List.cons_append,List.cons_lt_cons_iff]
    rw [List.cons_lt_cons_iff] at less
    exact less.imp_right fun same => ⟨same.1,ih same.2 (by simpa using length)⟩

end Text

namespace Moment

def dateText (m : Moment) : List Char := yearText m.day.year ++ two m.day.month ++ two m.day.day

def clockText (m : Moment) : List Char :=
  two (m.secondOfDay / 3600) ++ two (m.secondOfDay / 60 % 60) ++ two m.secondOfMinute

theorem toList_stamp (m : Moment) : m.stamp.toList = m.dateText ++ '_' :: m.clockText := by
  simp [stamp,dateText,clockText]

/-- The years that are written with four digits and no sign. -/
def HasPlainYear (m : Moment) : Prop := 0 ≤ m.day.year ∧ m.day.year ≤ 9999

instance (m : Moment) : Decidable m.HasPlainYear := inferInstanceAs (Decidable (_ ∧ _))

theorem dateText_isNumeral {m : Moment} (plain : m.HasPlainYear) :
    Text.IsNumeral m.dateText 8 (10 ^ 2 * (10 ^ 2 * m.day.year.toNat + m.day.month) + m.day.day) := by
  obtain ⟨month,day⟩ : m.day.month ≤ 12 ∧ m.day.day ≤ 31 := Day.ofNumber_within _
  have written : yearText m.day.year = Text.zeroPadded 4 m.day.year.toNat := by
    rw [yearText,if_pos (by simpa [HasPlainYear] using plain)]
  have year : Text.IsNumeral (yearText m.day.year) 4 m.day.year.toNat := by
    rw [written]
    exact .zeroPadded (by decide) (by have := plain.2; omega)
  exact (year.append (two_isNumeral (by omega))).append (two_isNumeral (by omega))

theorem clockText_isNumeral (m : Moment) : Text.IsNumeral m.clockText 6
    (10 ^ 2 * (10 ^ 2 * (m.secondOfDay / 3600) + m.secondOfDay / 60 % 60) + m.secondOfMinute) := by
  have time := m.secondOfDay_lt
  have limit := m.secondOfMinute_le
  exact ((two_isNumeral (by omega)).append (two_isNumeral (by omega))).append (two_isNumeral (by omega))

theorem bytes_stamp {m : Moment} (plain : m.HasPlainYear) : Text.bytes m.stamp =
    m.dateText.map Char.toUInt8 ++ '_'.toUInt8 :: m.clockText.map Char.toUInt8 := by
  have digits {c : Char} (digit : c.isDigit = true) : c.toNat < 128 := by
    have := Text.toNat_of_isDigit digit
    omega
  rw [Text.bytes_of_ascii,toList_stamp,List.map_append,List.map_cons]
  rw [toList_stamp,List.forall_mem_append,List.forall_mem_cons]
  exact ⟨fun c member => digits ((dateText_isNumeral plain).all c member),by decide,
    fun c member => digits (m.clockText_isNumeral.all c member)⟩

theorem dateText_lt {a b : Moment} (plain : a.HasPlainYear) (plain' : b.HasPlainYear)
    (earlier : a.day.toNumber < b.day.toNumber) :
    a.dateText.map Char.toUInt8 < b.dateText.map Char.toUInt8 := by
  have proper : a.day.IsOfMonth := Day.isOfMonth_ofNumber _
  have proper' : b.day.IsOfMonth := Day.isOfMonth_ofNumber _
  have before := proper.before proper' earlier
  refine (dateText_isNumeral plain).map_toUInt8_lt (dateText_isNumeral plain') ?_
  have month := And.intro proper.month_pos proper.month_le
  have month' := And.intro proper'.month_pos proper'.month_le
  have day := proper.day_le.trans (Day.daysIn_le _ _)
  have start := plain.1
  have start' := plain'.1
  unfold Day.monthNumber at before
  omega

theorem clockText_lt {a b : Moment}
    (earlier : a.secondOfDay < b.secondOfDay ∨
      a.secondOfDay = b.secondOfDay ∧ a.isLeap = false ∧ b.isLeap = true) :
    a.clockText.map Char.toUInt8 < b.clockText.map Char.toUInt8 := by
  refine a.clockText_isNumeral.map_toUInt8_lt b.clockText_isNumeral ?_
  have hours (m : Moment) : m.secondOfDay / 3600 = m.secondOfDay / 60 / 60 := (Nat.div_div_eq_div_mul _ 60 60).symm
  rw [hours,hours]
  rcases earlier with earlier | ⟨same,ordinary,leap⟩
  · -- a leap second ends its minute, so what is later is in another
    rcases a.secondOfMinute_cases with ⟨_,sixty,last⟩ | ⟨_,least⟩ <;>
      rcases b.secondOfMinute_cases with ⟨_,sixty',last'⟩ | ⟨_,least'⟩ <;> omega
  · rw [secondOfMinute,secondOfMinute,ordinary,leap,if_neg Bool.false_ne_true,if_pos rfl]
    omega

/-- Of two instants in plain years the earlier second has the smaller stamp. -/
theorem stamp_lt {a b : Moment} (plain : a.HasPlainYear) (plain' : b.HasPlainYear) (earlier : a.second < b.second) :
    Text.bytes a.stamp < Text.bytes b.stamp := by
  rw [bytes_stamp plain,bytes_stamp plain']
  have order := second_lt_iff.mp earlier
  have seconds : a.seconds ≤ b.seconds := by omega
  rcases (Int.ediv_le_ediv (by decide : (0 : Int) < 86400) seconds).lt_or_eq with days | days
  · have numbers (m : Moment) : m.day.toNumber = m.seconds / 86400 := Day.toNumber_ofNumber _
    rw [← numbers,← numbers] at days
    refine Text.append_lt_append (dateText_lt plain plain' days) ?_ _ _
    rw [List.length_map,List.length_map,(dateText_isNumeral plain).length,(dateText_isNumeral plain').length]
  · have same : a.day = b.day := by
      rw [day,day]
      exact congrArg Day.ofNumber days
    have time (m : Moment) : m.secondOfDay = (m.seconds % 86400).toNat := rfl
    have later : a.secondOfDay < b.secondOfDay ∨
        a.secondOfDay = b.secondOfDay ∧ a.isLeap = false ∧ b.isLeap = true := by
      rw [time,time]
      exact order.imp (by omega) (And.imp_left fun together => by rw [together])
    rw [dateText,dateText,same]
    exact List.append_left_lt (List.cons_lt_cons_iff.mpr (.inr ⟨rfl,clockText_lt later⟩))

theorem precedes_append_stamp (front : String) {a b : Moment} (plain : a.HasPlainYear) (plain' : b.HasPlainYear)
    (earlier : a.second < b.second) : Text.precedes (front ++ a.stamp) (front ++ b.stamp) = true := by
  rw [Text.precedes,decide_eq_true_iff,Text.bytes_append,Text.bytes_append]
  exact List.append_left_lt (stamp_lt plain plain' earlier)

/-- What is written in the order of time tells which of two seconds is the earlier. -/
theorem second_lt_iff_precedes (write : Moment → String)
    (same : ∀ a b : Moment, a.second = b.second → write a = write b)
    (ordered : ∀ a b : Moment, a.HasPlainYear → b.HasPlainYear → a.second < b.second →
      Text.precedes (write a) (write b) = true)
    {a b : Moment} (plain : a.HasPlainYear) (plain' : b.HasPlainYear) :
    a.second < b.second ↔ Text.precedes (write a) (write b) = true := by
  refine ⟨ordered a b plain plain',fun before => ?_⟩
  rcases lt_trichotomy a.second b.second with earlier | together | later
  · exact earlier
  · rw [same a b together,Text.precedes_iff] at before
    exact absurd before (lt_irrefl _)
  · have after := ordered b a plain' plain later
    rw [Text.precedes_iff] at before after
    exact absurd after (lt_asymm before)

theorem stamp_congr {a b : Moment} (together : a.second = b.second) : a.stamp = b.stamp := by
  obtain ⟨seconds,leap⟩ := second_eq_iff.mp together
  simp only [stamp,day,secondOfMinute,secondOfDay,seconds,leap]

end Moment

/-- The name of a run directory is that of an entry. -/
theorem entry_runDir (started : Moment) : Path.IsEntryName ("backups-" ++ started.stamp) := by
  have letter : 'b' ∈ ("backups-" ++ started.stamp).toList := by simp
  have digits (width n : Nat) : '/' ∉ Text.zeroPadded width n := fun member =>
    absurd (Text.isDigit_of_mem_zeroPadded member) (by decide)
  have year (year : Int) : '/' ∉ Moment.yearText year := by
    unfold Moment.yearText
    split
    · exact digits 4 _
    · split <;> simp [digits]
  refine ⟨?_,?_,?_,?_⟩
  · intro same
    simp [same] at letter
  · simp [Moment.stamp,Moment.two,digits,year]
  · intro same
    simp [same] at letter
  · intro same
    simp [same] at letter

namespace Settings

/-- The spelling of a run directory is that of the directory of all runs, and the name behind it. -/
theorem exists_spelling_runDir (settings : Settings) :
    ∃ front, ∀ started : Moment, (settings.runDir started).spelling = front ++ ("backups-" ++ started.stamp) := by
  by_cases joined : (settings.resolve settings.reportsDir).spelling = "" ||
      (settings.resolve settings.reportsDir).spelling.toList.getLast? = some '/'
  · exact ⟨_,fun started => by rw [runDir,Path.joinName_eq _ (entry_runDir started).noSlash,if_pos joined]⟩
  · exact ⟨_,fun started => by rw [runDir,Path.joinName_eq _ (entry_runDir started).noSlash,if_neg joined]⟩

theorem runDir_congr (settings : Settings) {a b : Moment} (together : a.second = b.second) :
    settings.runDir a = settings.runDir b := by
  rw [runDir,runDir,Moment.stamp_congr together]

theorem second_eq_of_runDir_same {settings : Settings} {a b : Moment}
    (same : (settings.runDir a).Same (settings.runDir b)) : a.second = b.second := by
  rw [Path.Same,runDir,runDir,Path.components_joinName _ (entry_runDir a),Path.components_joinName _ (entry_runDir b),
    List.append_cancel_left_eq,List.cons.injEq,Path.Component.name.injEq,String.append_right_inj] at same
  exact Moment.second_eq_of_stamp_eq same.1

/-- Run directories follow the time: they are the same directory for the same second only, and in the years of four
digits their names are in the order of time, byte by byte, alone or behind the directory they are in. -/
theorem runDir_follows_time (settings : Settings) (a b : Moment) :
    (settings.runDir a = settings.runDir b ↔ a.second = b.second) ∧
    ((settings.runDir a).Same (settings.runDir b) ↔ a.second = b.second) ∧
    (a.isLeap = false → b.isLeap = false → (settings.runDir a = settings.runDir b ↔ a.seconds = b.seconds)) ∧
    ∃ name name', (settings.runDir a).fileName? = some name ∧ (settings.runDir b).fileName? = some name' ∧
      (a.HasPlainYear → b.HasPlainYear →
        (a.second < b.second ↔ Text.precedes name name' = true) ∧
        (a.second < b.second ↔
          Text.precedes (settings.runDir a).spelling (settings.runDir b).spelling = true)) := by
  have follows : settings.runDir a = settings.runDir b ↔ a.second = b.second :=
    ⟨fun same => second_eq_of_runDir_same (congrArg Path.components same),settings.runDir_congr⟩
  refine ⟨follows,
    ⟨second_eq_of_runDir_same,fun together => congrArg Path.components (settings.runDir_congr together)⟩,
    fun ordinary ordinary' => follows.trans (Moment.second_eq_iff_of_not_leap ordinary ordinary'),?_⟩
  refine ⟨_,_,Path.fileName?_joinName _ (entry_runDir a),Path.fileName?_joinName _ (entry_runDir b),?_⟩
  intro plain plain'
  constructor
  · refine Moment.second_lt_iff_precedes (fun m => "backups-" ++ m.stamp) ?_ ?_ plain plain'
    · exact fun a b together => congrArg ("backups-" ++ ·) (Moment.stamp_congr together)
    · exact fun a b plain plain' earlier => Moment.precedes_append_stamp _ plain plain' earlier
  · obtain ⟨front,spelled⟩ := settings.exists_spelling_runDir
    refine Moment.second_lt_iff_precedes (fun m => (settings.runDir m).spelling) ?_ ?_ plain plain'
    · exact fun a b together => congrArg Path.spelling (settings.runDir_congr together)
    · intro a b plain plain' earlier
      rw [spelled,spelled,← String.append_assoc,← String.append_assoc]
      exact Moment.precedes_append_stamp _ plain plain' earlier

/-- The last second of a leap day and the first of the next month. -/
theorem runDir_leapDay :
    (⟨1709251199,0⟩ : Moment).stamp = "20240229_235959" ∧ (⟨1709251200,0⟩ : Moment).stamp = "20240301_000000" ∧
    ({} : Settings).runDir ⟨1709251199,0⟩ ≠ ({} : Settings).runDir ⟨1709251200,0⟩ ∧
    ∃ name name', (({} : Settings).runDir ⟨1709251199,0⟩).fileName? = some name ∧
      (({} : Settings).runDir ⟨1709251200,0⟩).fileName? = some name' ∧ Text.precedes name name' = true := by
  obtain ⟨_,_,same,name,name',named,named',ordered⟩ := runDir_follows_time {} ⟨1709251199,0⟩ ⟨1709251200,0⟩
  have plain : (⟨1709251199,0⟩ : Moment).HasPlainYear := by decide +kernel
  have plain' : (⟨1709251200,0⟩ : Moment).HasPlainYear := by decide +kernel
  exact ⟨by decide +kernel,by decide +kernel,by simp [same (by decide) (by decide)],name,name',named,named',(ordered plain plain').1.mp (Moment.second_lt_iff.mpr (.inl (by decide)))⟩

end Settings

end ErrorMigration
