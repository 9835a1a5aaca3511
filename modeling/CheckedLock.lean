import CheckedLock.Text.FileName
import CheckedLock.Text.Lines
import CheckedLock.Logging.Redaction
import CheckedLock.Lock.Trial
import CheckedLock.Lock.Bench
import CheckedLock.Guarded.Script
import CheckedLock.Guarded.Run
import CheckedLock.Main
import CheckedLock.Proofs.Lock.Exclusion
import CheckedLock.Proofs.Lock.Refinement
import CheckedLock.Proofs.Lock.Phase
import CheckedLock.Proofs.Guarded.History
import CheckedLock.Proofs.Guarded.Ledger
import CheckedLock.Proofs.Guarded.Books
import CheckedLock.Proofs.Guarded.Change
import CheckedLock.Proofs.Guarded.Attempt
import CheckedLock.Proofs.Guarded.Turn
import CheckedLock.Proofs.Guarded.Conservation
import CheckedLock.Proofs.Guarded.Values
import CheckedLock.Proofs.Guarded.Chronicle
import CheckedLock.Proofs.Guarded.Twin
import CheckedLock.Proofs.Guarded.Relocation
import CheckedLock.Proofs.Guarded.Poison
import CheckedLock.Proofs.Guarded.Release
import CheckedLock.Proofs.Stress.Counting
import CheckedLock.Proofs.Stress.Handover
import CheckedLock.Proofs.Stress.Verdict
import CheckedLock.Logging.Run
import CheckedLock.Proofs.Logging.Step
import CheckedLock.Proofs.Logging.Traffic
import CheckedLock.Proofs.Logging.Acceptance
import CheckedLock.Proofs.Logging.Closing
import CheckedLock.Proofs.Logging.Account
import CheckedLock.Proofs.Logging.Handling
import CheckedLock.Proofs.Files.Opening
import CheckedLock.Logging.Direct
import CheckedLock.Proofs.Logging.Postponing
import CheckedLock.Proofs.Logging.Synchrony
import CheckedLock.Proofs.Logging.Immediate
import CheckedLock.Proofs.Guarded.Deadlock
import CheckedLock.Proofs.Logging.Headway
import CheckedLock.Proofs.Logging.Ticket
import CheckedLock.Proofs.Logging.Flushing
import CheckedLock.Proofs.Logging.Completion
import CheckedLock.Proofs.Logging.Reporting
import CheckedLock.Proofs.Logging.Waking
import CheckedLock.Proofs.Json.Magnitude
import CheckedLock.Proofs.Config.Items
import CheckedLock.Proofs.Config.Validation
import CheckedLock.Proofs.Lock.Documents
import CheckedLock.Proofs.Guarded.Visit
import CheckedLock.Proofs.Guarded.Serialization
import CheckedLock.Proofs.Stress.CommandLine
import CheckedLock.Proofs.Logging.Untouched
import CheckedLock.Proofs.Stress.Precedence
import CheckedLock.Proofs.Text.Columns
import CheckedLock.Proofs.Time.Civil
import CheckedLock.Proofs.Time.Reading
import CheckedLock.Proofs.Time.Collation
import CheckedLock.Proofs.Lock.ThreeWay
import CheckedLock.Proofs.Guarded.Records
import CheckedLock.Proofs.Lock.Notices
import CheckedLock.Proofs.Guarded.Diagnostics
import CheckedLock.Proofs.Text.Components
import CheckedLock.Proofs.Stress.Counts
import CheckedLock.Proofs.Logging.Draining
import CheckedLock.Proofs.Logging.Rest
import CheckedLock.Proofs.Guarded.Region
import CheckedLock.Proofs.Guarded.Independence
