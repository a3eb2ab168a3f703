import Laswell.Base.Readable
import Laswell.Base.Prog
import Laswell.Base.Keyset
import Laswell.Base.Trace
import Laswell.Canonical.Utf8
import Laswell.Canonical.Json
import Laswell.Canonical.Text
import Laswell.Canonical.Reader
import Laswell.Canonical.Injective
import Laswell.Repository.Entry
import Laswell.Repository.Gate
import Laswell.Repository.Subsets
import Laswell.Repository.Assemble
import Laswell.Jobs.Job
import Laswell.Jobs.Observer
import Laswell.Tools.Start
import Laswell.Executor.Session
import Laswell.Executor.Batch
import Laswell.Executor.Walk
import Laswell.Executor.WalkSpec
import Laswell.Executor.Table
import Laswell.Executor.Backfill
import Laswell.Executor.Committed
import Laswell.Executor.Execute
import Laswell.Executor.Records
import Laswell.Executor.ExecuteSpec
import Laswell.Executor.Run
import Laswell.Executor.Checked
import Laswell.Deploy.Deployment
import Laswell.Deploy.Order
import Laswell.Deploy.Returns
import Laswell.Deploy.Starts
import Laswell.Ledger.Calls
import Laswell.Ledger.Cluster
import Laswell.Ledger.Reconcile
import Laswell.Tools.Race
import Laswell.Planner.Steps
import Laswell.Base.Triple
import Laswell.Planner.Recipes
import Laswell.Executor.OpenTxn
import Laswell.Planner.Verify
import Laswell.Executor.Resume
import Laswell.Jobs.Cancel
import Laswell.Spec.Conflicts
import Laswell.Repository.Derive
import Laswell.Projection.Intents
import Laswell.Projection.Plans
import Laswell.Base.Covers
import Laswell.Projection.Agreement
import Laswell.Projection.Effects
import Laswell.Projection.Mirrored
import Laswell.Projection.Added
import Laswell.Projection.Shared
import Laswell.Projection.Indexed
import Laswell.Projection.SharedIndexes
import Laswell.Projection.Run
import Laswell.Projection.Satisfied
import Laswell.Base.Hysteresis
import Laswell.Jobs.Config
import Laswell.Jobs.Breaker
import Laswell.Executor.Walked
import Laswell.Executor.KeyWalk
import Laswell.Executor.ColumnWalk
import Laswell.Executor.Paced
import Laswell.Executor.GroupWalk
import Laswell.Executor.GroupReach
import Laswell.Executor.GroupStuck
import Laswell.Base.Nullable
import Laswell.Planner.WalkChoice
import Laswell.Projection.Views
import Laswell.Rehearsal.Steps
import Laswell.Rehearsal.Accounts
import Laswell.Rehearsal.Chain
import Laswell.Rehearsal.Stacked
import Laswell.Base.Closure
import Laswell.Base.Resumable
import Laswell.Canonical.Sequences
import Laswell.Jobs.Slots
import Laswell.Planner.Ddl
import Laswell.Planner.DependentViews
import Laswell.Planner.Fill
import Laswell.Planner.FillAgreement
import Laswell.Planner.FilledColumns
import Laswell.Planner.FillWalked
import Laswell.Planner.PartitionedIndex
import Laswell.Planner.UniqueParts
import Laswell.Tools.Registered
import Laswell.Trust.Base64
import Laswell.Trust.Signer
import Laswell.Base.Cycle
import Laswell.Repository.Diagnosis
import Laswell.Rows.Arbiter
import Laswell.Base.Kleene
import Laswell.Planner.AttachPartition
import Laswell.Planner.TypeChange
import Laswell.Planner.Grants
import Laswell.Rows.DuplicateKeys
import Laswell.Base.FirstDecisive
import Laswell.Trust.Policy
import Laswell.Base.Copies
import Laswell.Rows.Preserve
import Laswell.Projection.Predicates
import Laswell.Base.Checks
import Laswell.Document.Reading
import Laswell.Executor.Literals
import Laswell.Document.Relations
import Laswell.Document.Objects
import Laswell.Document.Settings
import Laswell.Document.Rows
import Laswell.Document.Vendors
import Laswell.Document.ParseSpec
import Laswell.Document.Numbers
import Laswell.Repository.Scan
import Laswell.Repository.Drift
import Laswell.Rehearsal.Tally
import Laswell.Base.Lines
import Laswell.Base.Keywords
import Laswell.Server.Mcp
import Laswell.Server.Compact
import Laswell.Server.Replies
import Laswell.Config.Ini
import Laswell.Config.Conninfo
import Laswell.Config.Registry
import Laswell.Config.Sound
import Laswell.Base.Custody
import Laswell.Sessions.Cache
import Laswell.History.Rows
import Laswell.History.Rounds
import Laswell.History.Reread
import Laswell.History.Again
