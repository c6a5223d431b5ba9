import ErrorMigration.Proofs.Json.Record
import ErrorMigration.Proofs.Moment
import ErrorMigration.Report.Codec

/-! The JSON form of a report. Every record of it is read back from the fields that it was written to, whichever of its
optional fields are left out. -/
namespace ErrorMigration

open Json (Codec Fields)

theorem Path.codec : Codec Path.toJson Path.ofJson? fun _ => True where
  plain _ := Json.isPlain_string _
  reads _ _ := rfl
  storable _ _ _ := trivial

theorem Moment.codec : Codec toJson ofJson? InRange where
  plain _ := Json.isPlain_string _
  reads m shown := by rw [ofJson?,toJson,Json.string?,Option.bind_some,ofText?_text shown]
  storable _ _ read := by
    obtain ⟨_,_,decoded⟩ := Option.bind_eq_some_iff.mp read
    exact inRange_of_ofText? decoded

theorem Status.codec : Codec Status.toJson Status.ofJson? fun _ => True where
  plain _ := Json.isPlain_string _
  reads s _ := by cases s <;> rfl
  storable _ _ _ := trivial

namespace Tool

theorem codec : Codec toJson ofJson? fun _ => True where
  plain t := by simp [toJson,Json.all_isPlain_optionalField Json.isPlain_string]
  reads t _ := by
    obtain ⟨fields,known,found⟩ := Json.fieldsOf?_eq (rfl : t.toJson = .object _) (by decide : fieldNames.Nodup)
      ((Json.keys_optionalField "version" .string t.version).cons_cons "name")
    have name : fields "name" = some (.string t.name) := by simp [found]
    have version : fields "version" = t.version.map .string := by simp [found,List.lookup_cons,Json.lookup_optionalField]
    refine Option.bind_eq_some_iff.mpr ⟨_,known,?_⟩
    refine Option.bind_eq_some_iff.mpr ⟨_,Fields.required_eq Json.stringCodec name trivial,?_⟩
    exact Option.bind_eq_some_iff.mpr ⟨_,Fields.optional_eq Json.stringCodec (by simp) version (by simp),rfl⟩
  storable _ _ _ := trivial

end Tool

namespace ScanInfo

theorem codec : Codec toJson ofJson? fun _ => True where
  plain s := by simp [toJson,Path.codec.plain]
  reads s _ := rfl
  storable _ _ _ := trivial

end ScanInfo

namespace FailureDetail

theorem codec : Codec toJson ofJson? fun _ => True where
  plain d := by simp [toJson,Path.codec.plain]
  reads d _ := rfl
  storable _ _ _ := trivial

end FailureDetail

namespace RunInfo

/-- The time stamps of a run are such as a clock can show. -/
structure Storable (r : RunInfo) : Prop where
  started : r.startedAt.InRange
  ended : ∀ m ∈ r.endedAt, m.InRange

theorem codec : Codec toJson ofJson? Storable where
  plain r := by
    simp [toJson,Moment.codec.plain,Json.all_isPlain_optionalField Moment.codec.plain,
      Json.all_isPlain_optionalField Path.codec.plain]
  reads r stored := by
    obtain ⟨fields,known,found⟩ := Json.fieldsOf?_eq (rfl : r.toJson = .object _) (by decide : fieldNames.Nodup) <| by
      simp only [List.map_append,List.map_cons]
      exact ((Json.keys_optionalField "ended_at" _ r.endedAt).cons_cons "started_at").append
        ((Json.keys_optionalField "backup_dir" _ r.backupDir).cons_cons "dry_run")
    simp only [List.lookup_append,List.lookup_cons,Json.lookup_optionalField] at found
    have started : fields "started_at" = some r.startedAt.toJson := by simp [found]
    have ended : fields "ended_at" = r.endedAt.map Moment.toJson := by simp [found]
    have dry : fields "dry_run" = some (.boolean r.dryRun) := by simp [found]
    have backup : fields "backup_dir" = r.backupDir.map Path.toJson := by simp [found]
    refine Option.bind_eq_some_iff.mpr ⟨_,known,?_⟩
    refine Option.bind_eq_some_iff.mpr ⟨_,Fields.required_eq Moment.codec started stored.started,?_⟩
    refine Option.bind_eq_some_iff.mpr ⟨_,Fields.optional_eq Moment.codec (by simp [Moment.toJson]) ended stored.ended,?_⟩
    refine Option.bind_eq_some_iff.mpr ⟨_,Fields.withDefault_eq Json.booleanCodec dry trivial _,?_⟩
    exact Option.bind_eq_some_iff.mpr ⟨_,Fields.optional_eq Path.codec (by simp [Path.toJson]) backup (by simp),rfl⟩
  storable j r read := by
    obtain ⟨fields,_,read⟩ := Option.bind_eq_some_iff.mp read
    obtain ⟨_,started,read⟩ := Option.bind_eq_some_iff.mp read
    obtain ⟨_,ended,read⟩ := Option.bind_eq_some_iff.mp read
    obtain ⟨_,_,read⟩ := Option.bind_eq_some_iff.mp read
    obtain ⟨_,_,read⟩ := Option.bind_eq_some_iff.mp read
    cases read
    exact ⟨Fields.storable_required Moment.codec started,Fields.storable_optional Moment.codec ended⟩

end RunInfo

namespace FileResult

def Storable (r : FileResult) : Prop := r.callCount < Text.wordLimit

theorem codec : Codec toJson ofJson? Storable where
  plain r := by
    simp [toJson,Path.codec.plain,Status.codec.plain,Json.all_isPlain_optionalField Json.isPlain_string,
      Json.all_isPlain_optionalField Path.codec.plain]
  reads r stored := by
    obtain ⟨fields,known,found⟩ := Json.fieldsOf?_eq (rfl : r.toJson = .object _) (by decide : fieldNames.Nodup) <| by
      simp only [List.map_append]
      exact ((((List.Sublist.refl _).append (Json.keys_optionalField "message" _ r.message)).append
        (List.Sublist.refl _)).append (Json.keys_optionalField "backup_path" _ r.backupPath)).append
          (Json.keys_optionalField "sha256_before" _ r.digestBefore) |>.append
          (Json.keys_optionalField "sha256_after" _ r.digestAfter)
    -- a field that may be left out hides none of those behind it
    simp only [List.lookup_append,List.lookup_cons,List.lookup_nil,Json.lookup_optionalField] at found
    have path : fields "path" = some r.path.toJson := by simp [found]
    have status : fields "status" = some r.status.toJson := by simp [found]
    have message : fields "message" = r.message.map .string := by simp [found]
    have count : fields "rewritten_calls" = some (.natural r.callCount) := by simp [found]
    have inserted : fields "import_inserted" = some (.boolean r.importInserted) := by simp [found]
    have backup : fields "backup_path" = r.backupPath.map Path.toJson := by simp [found]
    have before : fields "sha256_before" = r.digestBefore.map .string := by simp [found]
    have after : fields "sha256_after" = r.digestAfter.map .string := by simp [found]
    refine Option.bind_eq_some_iff.mpr ⟨_,known,?_⟩
    refine Option.bind_eq_some_iff.mpr ⟨_,Fields.required_eq Path.codec path trivial,?_⟩
    refine Option.bind_eq_some_iff.mpr ⟨_,Fields.required_eq Status.codec status trivial,?_⟩
    refine Option.bind_eq_some_iff.mpr ⟨_,Fields.optional_eq Json.stringCodec (by simp) message (by simp),?_⟩
    refine Option.bind_eq_some_iff.mpr ⟨_,Fields.withDefault_eq Json.counterCodec count stored _,?_⟩
    refine Option.bind_eq_some_iff.mpr ⟨_,Fields.withDefault_eq Json.booleanCodec inserted trivial _,?_⟩
    refine Option.bind_eq_some_iff.mpr ⟨_,Fields.optional_eq Path.codec (by simp [Path.toJson]) backup (by simp),?_⟩
    refine Option.bind_eq_some_iff.mpr ⟨_,Fields.optional_eq Json.stringCodec (by simp) before (by simp),?_⟩
    exact Option.bind_eq_some_iff.mpr ⟨_,Fields.optional_eq Json.stringCodec (by simp) after (by simp),rfl⟩
  storable j r read := by
    obtain ⟨fields,_,read⟩ := Option.bind_eq_some_iff.mp read
    obtain ⟨_,_,read⟩ := Option.bind_eq_some_iff.mp read
    obtain ⟨_,_,read⟩ := Option.bind_eq_some_iff.mp read
    obtain ⟨_,_,read⟩ := Option.bind_eq_some_iff.mp read
    obtain ⟨_,count,read⟩ := Option.bind_eq_some_iff.mp read
    obtain ⟨_,_,read⟩ := Option.bind_eq_some_iff.mp read
    obtain ⟨_,_,read⟩ := Option.bind_eq_some_iff.mp read
    obtain ⟨_,_,read⟩ := Option.bind_eq_some_iff.mp read
    obtain ⟨_,_,read⟩ := Option.bind_eq_some_iff.mp read
    cases read
    exact Fields.storable_withDefault Json.counterCodec (by decide) count

end FileResult

namespace Summary

structure Storable (s : Summary) : Prop where
  total : s.total < Text.wordLimit
  complete : s.complete < Text.wordLimit
  incomplete : s.incomplete < Text.wordLimit
  skipped : s.skipped < Text.wordLimit
  failed : s.failed < Text.wordLimit

/-- The list of failures is left out when it is empty. -/
theorem failuresField_eq (s : Summary) :
    (if s.failures.isEmpty then [] else [("failures",Json.array (s.failures.map FailureDetail.toJson))]) =
      Json.optionalField "failures" (fun failures => .array (failures.map FailureDetail.toJson))
        (if s.failures.isEmpty then none else some s.failures) := by
  split <;> rfl

theorem codec : Codec toJson ofJson? Storable where
  plain s := by
    rw [toJson,failuresField_eq]
    simp [Json.all_isPlain_optionalField (Json.listCodec FailureDetail.codec).plain,Path.codec.plain]
  reads s stored := by
    obtain ⟨fields,known,found⟩ := Json.fieldsOf?_eq (by rw [toJson,failuresField_eq] : s.toJson = .object _)
      (by decide : fieldNames.Nodup) <| by
      simp only [List.map_append]
      exact ((List.Sublist.refl _).append (Json.keys_optionalField "failures" _ _)).append (List.Sublist.refl _)
    simp only [List.lookup_append,List.lookup_cons,List.lookup_nil,Json.lookup_optionalField] at found
    have total : fields "total" = some (.natural s.total) := by simp [found]
    have complete : fields "complete" = some (.natural s.complete) := by simp [found]
    have incomplete : fields "partial" = some (.natural s.incomplete) := by simp [found]
    have skipped : fields "skipped" = some (.natural s.skipped) := by simp [found]
    have failed : fields "failed" = some (.natural s.failed) := by simp [found]
    have remaining : fields "remaining" = some (.array (s.remaining.map Path.toJson)) := by simp [found]
    have listed : fields "failures" = (if s.failures.isEmpty then none else some s.failures).map fun failures =>
        .array (failures.map FailureDetail.toJson) := by simp [found]
    have failures := Fields.withDefault_optional (Json.listCodec FailureDetail.codec) listed (by simp) []
    have same : (if s.failures.isEmpty then none else some s.failures).getD [] = s.failures := by
      cases s.failures <;> rfl
    rw [same] at failures
    refine Option.bind_eq_some_iff.mpr ⟨_,known,?_⟩
    refine Option.bind_eq_some_iff.mpr ⟨_,Fields.required_eq Json.counterCodec total stored.total,?_⟩
    refine Option.bind_eq_some_iff.mpr ⟨_,Fields.required_eq Json.counterCodec complete stored.complete,?_⟩
    refine Option.bind_eq_some_iff.mpr ⟨_,Fields.required_eq Json.counterCodec incomplete stored.incomplete,?_⟩
    refine Option.bind_eq_some_iff.mpr ⟨_,Fields.required_eq Json.counterCodec skipped stored.skipped,?_⟩
    refine Option.bind_eq_some_iff.mpr ⟨_,Fields.required_eq Json.counterCodec failed stored.failed,?_⟩
    refine Option.bind_eq_some_iff.mpr ⟨_,failures,?_⟩
    exact Option.bind_eq_some_iff.mpr
      ⟨_,Fields.withDefault_eq (Json.listCodec Path.codec) remaining (by simp) _,rfl⟩
  storable j s read := by
    obtain ⟨fields,_,read⟩ := Option.bind_eq_some_iff.mp read
    obtain ⟨_,total,read⟩ := Option.bind_eq_some_iff.mp read
    obtain ⟨_,complete,read⟩ := Option.bind_eq_some_iff.mp read
    obtain ⟨_,incomplete,read⟩ := Option.bind_eq_some_iff.mp read
    obtain ⟨_,skipped,read⟩ := Option.bind_eq_some_iff.mp read
    obtain ⟨_,failed,read⟩ := Option.bind_eq_some_iff.mp read
    obtain ⟨_,_,read⟩ := Option.bind_eq_some_iff.mp read
    obtain ⟨_,_,read⟩ := Option.bind_eq_some_iff.mp read
    cases read
    exact ⟨Fields.storable_required Json.counterCodec total,Fields.storable_required Json.counterCodec complete,
      Fields.storable_required Json.counterCodec incomplete,Fields.storable_required Json.counterCodec skipped,
      Fields.storable_required Json.counterCodec failed⟩

end Summary

namespace Report

/-- All counters and time stamps of a report can be stored. -/
structure Storable (r : Report) : Prop where
  run : r.run.Storable
  results : ∀ result ∈ r.results, result.Storable
  summary : r.summary.Storable

theorem codec : Codec toJson ofJson? Storable where
  plain r := by
    simp [toJson,Tool.codec.plain,RunInfo.codec.plain,ScanInfo.codec.plain,Summary.codec.plain,FileResult.codec.plain]
  reads r stored := by
    obtain ⟨fields,known,found⟩ := Json.fieldsOf?_eq (rfl : r.toJson = .object _) (by decide : fieldNames.Nodup)
      (List.Sublist.refl _)
    have schema : fields "schema" = some (.string r.schema) := by simp [found]
    have tool : fields "tool" = some r.tool.toJson := by simp [found,List.lookup_cons]
    have run : fields "run" = some r.run.toJson := by simp [found,List.lookup_cons]
    have scan : fields "scan" = some r.scan.toJson := by simp [found,List.lookup_cons]
    have results : fields "results" = some (.array (r.results.map FileResult.toJson)) := by simp [found,List.lookup_cons]
    have summary : fields "summary" = some r.summary.toJson := by simp [found,List.lookup_cons]
    unfold ofJson?
    refine Option.bind_eq_some_iff.mpr ⟨_,known,?_⟩
    refine Option.bind_eq_some_iff.mpr ⟨_,Fields.required_eq Json.stringCodec schema trivial,?_⟩
    refine Option.bind_eq_some_iff.mpr ⟨_,Fields.required_eq Tool.codec tool trivial,?_⟩
    refine Option.bind_eq_some_iff.mpr ⟨_,Fields.required_eq RunInfo.codec run stored.run,?_⟩
    refine Option.bind_eq_some_iff.mpr ⟨_,Fields.required_eq ScanInfo.codec scan trivial,?_⟩
    refine Option.bind_eq_some_iff.mpr
      ⟨_,Fields.withDefault_eq (Json.listCodec FileResult.codec) results stored.results _,?_⟩
    exact Option.bind_eq_some_iff.mpr ⟨_,Fields.required_eq Summary.codec summary stored.summary,rfl⟩
  storable j r read := by
    obtain ⟨fields,_,read⟩ := Option.bind_eq_some_iff.mp read
    obtain ⟨_,_,read⟩ := Option.bind_eq_some_iff.mp read
    obtain ⟨_,_,read⟩ := Option.bind_eq_some_iff.mp read
    obtain ⟨_,run,read⟩ := Option.bind_eq_some_iff.mp read
    obtain ⟨_,_,read⟩ := Option.bind_eq_some_iff.mp read
    obtain ⟨_,results,read⟩ := Option.bind_eq_some_iff.mp read
    obtain ⟨_,summary,read⟩ := Option.bind_eq_some_iff.mp read
    cases read
    exact ⟨Fields.storable_required RunInfo.codec run,
      Fields.storable_withDefault (Json.listCodec FileResult.codec) (by simp) results,
      Fields.storable_required Summary.codec summary⟩

end Report

namespace Report

/-- Reports, summaries and results are read back from both of their written forms, and so is the report that was read
from any text: writing it again changes nothing. -/
theorem parse?_written :
    (∀ r : Report, r.Storable → parse? (String.ofList r.toJson.compact) = some r ∧ parse? r.prettyText = some r) ∧
      (∀ s : Summary, s.Storable →
        (Json.parse? (String.ofList s.toJson.compact)).bind Summary.ofJson? = some s ∧
          (Json.parse? (String.ofList s.toJson.pretty)).bind Summary.ofJson? = some s) ∧
      (∀ f : FileResult, f.Storable →
        (Json.parse? (String.ofList f.toJson.compact)).bind FileResult.ofJson? = some f ∧
          (Json.parse? (String.ofList f.toJson.pretty)).bind FileResult.ofJson? = some f) ∧
      ∀ (text : String) (r : Report), parse? text = some r →
        parse? (String.ofList r.toJson.compact) = some r ∧ parse? r.prettyText = some r := by
  refine ⟨fun _ => codec.parse?_forms,fun _ => Summary.codec.parse?_forms,fun _ => FileResult.codec.parse?_forms,?_⟩
  intro text r read
  exact codec.parse?_forms (codec.storable_of_parse? read)

/-- A report at the limits of what its fields hold, with characters that have to be escaped. -/
def extreme : Report where
  schema := "\x00\x1f\"\\\n\u007f"
  tool := { name := "", version := some "𝄞" }
  run := { startedAt := ⟨-62167219200,1⟩, endedAt := some ⟨253402300799,999999999⟩, backupDir := some ⟨"/"⟩ }
  scan := { root := ⟨"."⟩, extension := "ts", marker := "\x7b\x7d[]:," }
  results := [{ path := ⟨"a"⟩, status := .incomplete, callCount := 18446744073709551615, digestAfter := some "" }]
  summary := { total := 18446744073709551615, failures := [⟨⟨"b"⟩,"\t"⟩], remaining := [⟨"c"⟩] }

theorem extreme_storable : extreme.Storable where
  run := ⟨⟨by decide,.inl (by decide)⟩,by
    rintro m ⟨⟩
    exact ⟨by decide,.inl (by decide)⟩⟩
  results := by
    intro result member
    rw [List.mem_singleton.mp member]
    exact (by decide : 18446744073709551615 < Text.wordLimit)
  summary := ⟨by decide,by decide,by decide,by decide,by decide⟩

theorem parse?_written_extreme :
    (parse? (String.ofList extreme.toJson.compact) = some extreme ∧ parse? extreme.prettyText = some extreme) ∧
      (Json.parse? (String.ofList extreme.summary.toJson.pretty)).bind Summary.ofJson? = some extreme.summary ∧
      ∀ f ∈ extreme.results, (Json.parse? (String.ofList f.toJson.compact)).bind FileResult.ofJson? = some f := by
  refine ⟨parse?_written.1 extreme extreme_storable,?_,?_⟩
  · exact (parse?_written.2.1 extreme.summary extreme_storable.summary).2
  · intro f member
    exact (parse?_written.2.2.1 f (extreme_storable.results f member)).1

end Report

end ErrorMigration
