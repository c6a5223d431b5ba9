import ErrorMigration.Json.Reader
import ErrorMigration.Json.Record
import ErrorMigration.Json.Writer
import ErrorMigration.Report.Record

/-! The JSON form of a report. Absent optional fields are left out, counters and flags are always
written, and reading fills in what may be left out. -/
namespace ErrorMigration

open Json (Decoder Fields)

namespace Path

def toJson (p : Path) : Json := .string p.spelling

def ofJson? : Decoder Path := fun j => (Json.string? j).map Path.mk

end Path

namespace Moment

def toJson (m : Moment) : Json := .string m.text

def ofJson? : Decoder Moment := fun j => (Json.string? j).bind ofText?

end Moment

namespace Status

def toJson (s : Status) : Json := .string s.label

/-- The label as a string, or as the one field of an object, with null in it. -/
def ofJson? : Decoder Status
  | .string text => ofLabel? text
  | .object [(text, .null)] => ofLabel? text
  | _ => none

end Status

namespace FileResult

def fieldNames : List String :=
  ["path", "status", "message", "rewritten_calls", "import_inserted", "backup_path", "sha256_before",
   "sha256_after"]

def toJson (r : FileResult) : Json := .object <|
  [("path", r.path.toJson), ("status", r.status.toJson)] ++
    Json.optionalField "message" .string r.message ++
    [("rewritten_calls", .natural r.callCount), ("import_inserted", .boolean r.importInserted)] ++
    Json.optionalField "backup_path" Path.toJson r.backupPath ++
    Json.optionalField "sha256_before" .string r.digestBefore ++
    Json.optionalField "sha256_after" .string r.digestAfter

def ofJson? : Decoder FileResult := fun j => do
  let fields ← Json.fieldsOf? fieldNames j
  pure
    { path := ← fields.required "path" Path.ofJson?
      status := ← fields.required "status" Status.ofJson?
      message := ← fields.optional "message" Json.string?
      callCount := ← fields.withDefault "rewritten_calls" Json.counter? 0
      importInserted := ← fields.withDefault "import_inserted" Json.boolean? false
      backupPath := ← fields.optional "backup_path" Path.ofJson?
      digestBefore := ← fields.optional "sha256_before" Json.string?
      digestAfter := ← fields.optional "sha256_after" Json.string? }

end FileResult

namespace FailureDetail

def fieldNames : List String := ["path", "message"]

def toJson (d : FailureDetail) : Json :=
  .object [("path", d.path.toJson), ("message", .string d.message)]

def ofJson? : Decoder FailureDetail := fun j => do
  let fields ← Json.fieldsOf? fieldNames j
  pure
    { path := ← fields.required "path" Path.ofJson?
      message := ← fields.required "message" Json.string? }

end FailureDetail

namespace Summary

def fieldNames : List String :=
  ["total", "complete", "partial", "skipped", "failed", "failures", "remaining"]

def toJson (s : Summary) : Json := .object <|
  [("total", .natural s.total), ("complete", .natural s.complete), ("partial", .natural s.incomplete),
   ("skipped", .natural s.skipped), ("failed", .natural s.failed)] ++
    (if s.failures.isEmpty then [] else [("failures", .array (s.failures.map FailureDetail.toJson))]) ++
    [("remaining", .array (s.remaining.map Path.toJson))]

def ofJson? : Decoder Summary := fun j => do
  let fields ← Json.fieldsOf? fieldNames j
  pure
    { total := ← fields.required "total" Json.counter?
      complete := ← fields.required "complete" Json.counter?
      incomplete := ← fields.required "partial" Json.counter?
      skipped := ← fields.required "skipped" Json.counter?
      failed := ← fields.required "failed" Json.counter?
      failures := ← fields.withDefault "failures" (Json.list? FailureDetail.ofJson?) []
      remaining := ← fields.withDefault "remaining" (Json.list? Path.ofJson?) [] }

end Summary

namespace Tool

def fieldNames : List String := ["name", "version"]

def toJson (t : Tool) : Json := .object <|
  ("name", .string t.name) :: Json.optionalField "version" .string t.version

def ofJson? : Decoder Tool := fun j => do
  let fields ← Json.fieldsOf? fieldNames j
  pure
    { name := ← fields.required "name" Json.string?
      version := ← fields.optional "version" Json.string? }

end Tool

namespace RunInfo

def fieldNames : List String := ["started_at", "ended_at", "dry_run", "backup_dir"]

def toJson (r : RunInfo) : Json := .object <|
  ("started_at", r.startedAt.toJson) :: Json.optionalField "ended_at" Moment.toJson r.endedAt ++
    ("dry_run", .boolean r.dryRun) :: Json.optionalField "backup_dir" Path.toJson r.backupDir

def ofJson? : Decoder RunInfo := fun j => do
  let fields ← Json.fieldsOf? fieldNames j
  pure
    { startedAt := ← fields.required "started_at" Moment.ofJson?
      endedAt := ← fields.optional "ended_at" Moment.ofJson?
      dryRun := ← fields.withDefault "dry_run" Json.boolean? false
      backupDir := ← fields.optional "backup_dir" Path.ofJson? }

end RunInfo

namespace ScanInfo

def fieldNames : List String := ["root", "extension", "marker"]

def toJson (s : ScanInfo) : Json := .object
  [("root", s.root.toJson), ("extension", .string s.extension), ("marker", .string s.marker)]

def ofJson? : Decoder ScanInfo := fun j => do
  let fields ← Json.fieldsOf? fieldNames j
  pure
    { root := ← fields.required "root" Path.ofJson?
      extension := ← fields.required "extension" Json.string?
      marker := ← fields.required "marker" Json.string? }

end ScanInfo

namespace Report

def fieldNames : List String := ["schema", "tool", "run", "scan", "results", "summary"]

def toJson (r : Report) : Json := .object
  [("schema", .string r.schema), ("tool", r.tool.toJson), ("run", r.run.toJson),
   ("scan", r.scan.toJson), ("results", .array (r.results.map FileResult.toJson)),
   ("summary", r.summary.toJson)]

def ofJson? : Decoder Report := fun j => do
  let fields ← Json.fieldsOf? fieldNames j
  pure
    { schema := ← fields.required "schema" Json.string?
      tool := ← fields.required "tool" Tool.ofJson?
      run := ← fields.required "run" RunInfo.ofJson?
      scan := ← fields.required "scan" ScanInfo.ofJson?
      results := ← fields.withDefault "results" (Json.list? FileResult.ofJson?) []
      summary := ← fields.required "summary" Summary.ofJson? }

def parse? (text : String) : Option Report := (Json.parse? text).bind ofJson?

def prettyText (r : Report) : String := String.ofList r.toJson.pretty

end Report

end ErrorMigration
