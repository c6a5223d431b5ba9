import ErrorMigration.Artifacts
import ErrorMigration.Candidates
import ErrorMigration.Config
import ErrorMigration.Console.Command
import ErrorMigration.FileFix
import ErrorMigration.Main
import ErrorMigration.Patch
import ErrorMigration.Proofs.Accounting
import ErrorMigration.Proofs.ArtifactHistory
import ErrorMigration.Proofs.Artifacts
import ErrorMigration.Proofs.Backup
import ErrorMigration.Proofs.BackupHistory
import ErrorMigration.Proofs.BackupNames
import ErrorMigration.Proofs.ByteSearch
import ErrorMigration.Proofs.Calendar
import ErrorMigration.Proofs.CallGrammar
import ErrorMigration.Proofs.CallHead
import ErrorMigration.Proofs.CallMatch
import ErrorMigration.Proofs.CallSequence
import ErrorMigration.Proofs.CallSite
import ErrorMigration.Proofs.CandidateList
import ErrorMigration.Proofs.Candidates
import ErrorMigration.Proofs.ChangeFlags
import ErrorMigration.Proofs.CodeMerge
import ErrorMigration.Proofs.CodeTable
import ErrorMigration.Proofs.Console.Agreement
import ErrorMigration.Proofs.Console.Failure
import ErrorMigration.Proofs.Diff.Hunk
import ErrorMigration.Proofs.Diff.Script
import ErrorMigration.Proofs.Discovery
import ErrorMigration.Proofs.FileAtomicity
import ErrorMigration.Proofs.FileFix
import ErrorMigration.Proofs.Files.Access
import ErrorMigration.Proofs.Files.Formed
import ErrorMigration.Proofs.Files.Order
import ErrorMigration.Proofs.Files.Path
import ErrorMigration.Proofs.Files.Resolution
import ErrorMigration.Proofs.Files.Spelling
import ErrorMigration.Proofs.Files.Tree
import ErrorMigration.Proofs.ImportLine
import ErrorMigration.Proofs.Json.Record
import ErrorMigration.Proofs.Json.Text
import ErrorMigration.Proofs.Json.Tolerance
import ErrorMigration.Proofs.LineInsertion
import ErrorMigration.Proofs.Marker
import ErrorMigration.Proofs.Moment
import ErrorMigration.Proofs.Patch
import ErrorMigration.Proofs.Prediction
import ErrorMigration.Proofs.Replacement
import ErrorMigration.Proofs.Report.Codec
import ErrorMigration.Proofs.Report.Tolerance
import ErrorMigration.Proofs.Run
import ErrorMigration.Proofs.RunFrame
import ErrorMigration.Proofs.RunNames
import ErrorMigration.Proofs.Source
import ErrorMigration.Proofs.Text.Digits
import ErrorMigration.Proofs.Text.Encoding
import ErrorMigration.Proofs.Text.Lines
import ErrorMigration.Proofs.Text.Occurrence
import ErrorMigration.Proofs.Text.Search
import ErrorMigration.Proofs.Unmarked
import ErrorMigration.Proofs.Verification
import ErrorMigration.Report.Codec
import ErrorMigration.Report.Markdown
import ErrorMigration.Report.Text
import ErrorMigration.Run
import ErrorMigration.Sha256
import ErrorMigration.Source
