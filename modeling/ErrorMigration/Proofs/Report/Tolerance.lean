import ErrorMigration.Proofs.Json.Tolerance
import ErrorMigration.Proofs.Report.Codec

/-! The rules for the fields of a report. Each record is read by its rules, so a report is read from every loose form of
what was written for it, and from no JSON that breaks a rule at any depth. -/
namespace ErrorMigration

open Json

namespace Tool

def rules : List Rule := [⟨"name",.required,.value⟩,⟨"version",.optional,.value⟩]

theorem tolerant : Tolerant (.record rules) ofJson? :=
  tolerant_record (by decide) <|
    .next (reads_required "name" (tolerant_value string?) rfl) fun _ =>
    .next (reads_optional "version" string?) fun _ => .done _

end Tool

namespace RunInfo

def rules : List Rule :=
  [⟨"started_at",.required,.value⟩,⟨"ended_at",.optional,.value⟩,⟨"dry_run",.fallback (.boolean false),.value⟩,
    ⟨"backup_dir",.optional,.value⟩]

theorem tolerant : Tolerant (.record rules) ofJson? :=
  tolerant_record (by decide) <|
    .next (reads_required "started_at" (tolerant_value Moment.ofJson?) rfl) fun _ =>
    .next (reads_optional "ended_at" Moment.ofJson?) fun _ =>
    .next (reads_withDefault "dry_run" (tolerant_value boolean?) rfl rfl) fun _ =>
    .next (reads_optional "backup_dir" Path.ofJson?) fun _ => .done _

end RunInfo

namespace ScanInfo

def rules : List Rule := [⟨"root",.required,.value⟩,⟨"extension",.required,.value⟩,⟨"marker",.required,.value⟩]

theorem tolerant : Tolerant (.record rules) ofJson? :=
  tolerant_record (by decide) <|
    .next (reads_required "root" (tolerant_value Path.ofJson?) rfl) fun _ =>
    .next (reads_required "extension" (tolerant_value string?) rfl) fun _ =>
    .next (reads_required "marker" (tolerant_value string?) rfl) fun _ => .done _

end ScanInfo

namespace FailureDetail

def rules : List Rule := [⟨"path",.required,.value⟩,⟨"message",.required,.value⟩]

theorem tolerant : Tolerant (.record rules) ofJson? :=
  tolerant_record (by decide) <|
    .next (reads_required "path" (tolerant_value Path.ofJson?) rfl) fun _ =>
    .next (reads_required "message" (tolerant_value string?) rfl) fun _ => .done _

end FailureDetail

namespace FileResult

def rules : List Rule :=
  [⟨"path",.required,.value⟩,⟨"status",.required,.value⟩,⟨"message",.optional,.value⟩,
    ⟨"rewritten_calls",.fallback (.natural 0),.value⟩,⟨"import_inserted",.fallback (.boolean false),.value⟩,
    ⟨"backup_path",.optional,.value⟩,⟨"sha256_before",.optional,.value⟩,⟨"sha256_after",.optional,.value⟩]

theorem tolerant : Tolerant (.record rules) ofJson? :=
  tolerant_record (by decide) <|
    .next (reads_required "path" (tolerant_value Path.ofJson?) rfl) fun _ =>
    .next (reads_required "status" (tolerant_value Status.ofJson?) rfl) fun _ =>
    .next (reads_optional "message" string?) fun _ =>
    .next (reads_withDefault "rewritten_calls" (tolerant_value counter?) rfl rfl) fun _ =>
    .next (reads_withDefault "import_inserted" (tolerant_value boolean?) rfl rfl) fun _ =>
    .next (reads_optional "backup_path" Path.ofJson?) fun _ =>
    .next (reads_optional "sha256_before" string?) fun _ =>
    .next (reads_optional "sha256_after" string?) fun _ => .done _

end FileResult

namespace Summary

def rules : List Rule :=
  [⟨"total",.required,.value⟩,⟨"complete",.required,.value⟩,⟨"partial",.required,.value⟩,⟨"skipped",.required,.value⟩,
    ⟨"failed",.required,.value⟩,⟨"failures",.fallback (.array []),.list (.record FailureDetail.rules)⟩,
    ⟨"remaining",.fallback (.array []),.list .value⟩]

theorem tolerant : Tolerant (.record rules) ofJson? :=
  tolerant_record (by decide) <|
    .next (reads_required "total" (tolerant_value counter?) rfl) fun _ =>
    .next (reads_required "complete" (tolerant_value counter?) rfl) fun _ =>
    .next (reads_required "partial" (tolerant_value counter?) rfl) fun _ =>
    .next (reads_required "skipped" (tolerant_value counter?) rfl) fun _ =>
    .next (reads_required "failed" (tolerant_value counter?) rfl) fun _ =>
    .next (reads_withDefault "failures" (tolerant_list FailureDetail.tolerant) rfl rfl) fun _ =>
    .next (reads_withDefault "remaining" (tolerant_list (tolerant_value Path.ofJson?)) rfl rfl) fun _ => .done _

end Summary

namespace Report

def rules : List Rule :=
  [⟨"schema",.required,.value⟩,⟨"tool",.required,.record Tool.rules⟩,⟨"run",.required,.record RunInfo.rules⟩,
    ⟨"scan",.required,.record ScanInfo.rules⟩,⟨"results",.fallback (.array []),.list (.record FileResult.rules)⟩,
    ⟨"summary",.required,.record Summary.rules⟩]

theorem tolerant : Tolerant (.record rules) ofJson? :=
  tolerant_record (by decide) <|
    .next (reads_required "schema" (tolerant_value string?) rfl) fun _ =>
    .next (reads_required "tool" Tool.tolerant rfl) fun _ =>
    .next (reads_required "run" RunInfo.tolerant rfl) fun _ =>
    .next (reads_required "scan" ScanInfo.tolerant rfl) fun _ =>
    .next (reads_withDefault "results" (tolerant_list FileResult.tolerant) rfl rfl) fun _ =>
    .next (reads_required "summary" Summary.tolerant rfl) fun _ => .done _

/-- A report is read from every loose form of what was written for it: fields in any order, unknown ones among them,
nulls for absent optional ones and defaults left out, in the report or anywhere inside. Where a field that has no
default is missing, a known field is repeated or one that is not optional is null, at any depth, no report is read. -/
theorem ofJson?_tolerance :
    (∀ (r : Report) (j : Json),r.Storable → (Shape.record rules).Varies r.toJson j →
      ofJson? j = some r ∧ ∀ text,Json.parse? text = some j → parse? text = some r) ∧
    ∀ j : Json,(Shape.record rules).Faulty j →
      ofJson? j = none ∧ ∀ text,Json.parse? text = some j → parse? text = none := by
  constructor
  · intro r j stored varied
    have decoded : ofJson? j = some r := tolerant.keeps varied (codec.reads r stored)
    exact ⟨decoded,fun text read => by rw [parse?,read,Option.bind_some,decoded]⟩
  · intro j faulty
    have refused : ofJson? j = none := tolerant.refuses faulty
    exact ⟨refused,fun text read => by rw [parse?,read,Option.bind_some,refused]⟩

/-- A result that leaves a flag out and says null for its message. -/
def looseResult : Json := .object
  [("message",.null),("path",.string "a"),("status",.string "partial"),
    ("rewritten_calls",.natural 18446744073709551615),("sha256_after",.string "")]

/-- A report with that result, backwards and with an unknown field. -/
def looseForm : Json := .object
  [("extra",.broken),("summary",extreme.summary.toJson),("results",.array [looseResult]),("scan",extreme.scan.toJson),
    ("run",extreme.run.toJson),("tool",extreme.tool.toJson),("schema",.string extreme.schema)]

/-- A report with a result that has no path but a null. -/
def spoiltForm : Json := .object [("results",.array [looseResult,.object [("path",.null)]])]

theorem varies_looseResult {result : FileResult} (member : result ∈ extreme.results) :
    (Shape.record FileResult.rules).Varies result.toJson looseResult := by
  obtain rfl := List.mem_singleton.mp member
  have message : (⟨"message",.optional,.value⟩ : Rule) ∈ FileResult.rules := by simp [FileResult.rules]
  have inserted : (⟨"import_inserted",.fallback (.boolean false),.value⟩ : Rule) ∈ FileResult.rules := by
    simp [FileResult.rules]
  have dropped := Loosens.dropped [("message",.null),("path",.string "a"),("status",.string "partial"),
    ("rewritten_calls",.natural 18446744073709551615)] [("sha256_after",.string "")] inserted rfl
  exact ⟨_,_,rfl,rfl,(Relation.ReflTransGen.single (.null message rfl (by simp [Json.optionalField]))).tail dropped⟩

theorem varies_looseForm : (Shape.record rules).Varies extreme.toJson looseForm := by
  have results : (⟨"results",.fallback (.array []),.list (.record FileResult.rules)⟩ : Rule) ∈ rules := by simp [rules]
  have items : (Shape.list (.record FileResult.rules)).Varies (.array (extreme.results.map FileResult.toJson))
      (.array [looseResult]) := ⟨_,_,rfl,rfl,.cons (varies_looseResult (List.mem_singleton.mpr rfl)) .nil⟩
  have inside := Loosens.inside [("schema",.string extreme.schema),("tool",extreme.tool.toJson),
    ("run",extreme.run.toJson),("scan",extreme.scan.toJson)] [("summary",extreme.summary.toJson)] results items
  have backwards := (Relation.ReflTransGen.single inside).tail (.permuted (List.reverse_perm _).symm)
  exact ⟨_,_,rfl,rfl,backwards.tail (.unknown (by simp [rules]) .broken)⟩

theorem faulty_spoiltForm : (Shape.record rules).Faulty spoiltForm := by
  have path : (⟨"path",.required,.value⟩ : Rule) ∈ FileResult.rules := by simp [FileResult.rules]
  have results : (⟨"results",.fallback (.array []),.list (.record FileResult.rules)⟩ : Rule) ∈ rules := by simp [rules]
  have item : (Shape.record FileResult.rules).Faulty (.object [("path",.null)]) :=
    ⟨_,rfl,.null path nofun (List.mem_singleton.mpr rfl)⟩
  exact ⟨_,rfl,.inside results (List.mem_singleton.mpr rfl) ⟨_,rfl,_,by simp,item⟩⟩

theorem ofJson?_tolerance_extreme : extreme.Storable ∧ (Shape.record rules).Varies extreme.toJson looseForm ∧
    ofJson? looseForm = some extreme ∧ (Shape.record rules).Faulty spoiltForm ∧ ofJson? spoiltForm = none :=
  ⟨extreme_storable,varies_looseForm,(ofJson?_tolerance.1 extreme looseForm extreme_storable varies_looseForm).1,
    faulty_spoiltForm,(ofJson?_tolerance.2 spoiltForm faulty_spoiltForm).1⟩

end Report

end ErrorMigration
