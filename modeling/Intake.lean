import Intake.Agent.Basic
import Intake.Agent.Desk
import Intake.Agent.FaultDesk
import Intake.Agent.Faults
import Intake.Batch.Clock
import Intake.Batch.Dispatch
import Intake.Batch.Probe
import Intake.Batch.Run
import Intake.Batch.Trace
import Intake.Command.Arguments
import Intake.Command.Basic
import Intake.Config.Basic
import Intake.Config.Document
import Intake.Config.Report
import Intake.Exception.Record
import Intake.Fault.Basic
import Intake.Fault.Cut
import Intake.Fault.Exposure
import Intake.Fault.Redaction
import Intake.Fault.Secret
import Intake.Files.Folder
import Intake.Files.Name
import Intake.Files.Path
import Intake.Files.Tree
import Intake.Http.Accept
import Intake.Http.AcceptClock
import Intake.Http.AcceptTrace
import Intake.Http.Address
import Intake.Http.Request
import Intake.Http.Router
import Intake.Http.Serving
import Intake.Http.Submission
import Intake.Json.Basic
import Intake.Json.Reader
import Intake.Json.Writer
import Intake.Json.Written
import Intake.Log.Filter
import Intake.Log.Line
import Intake.Log.Settings
import Intake.Main
import Intake.Message.Context
import Intake.Message.ContextReader
import Intake.Message.Item
import Intake.Number.Binary64
import Intake.Number.Decimal
import Intake.Number.Natural
import Intake.Observe.Calls
import Intake.Observe.Health
import Intake.Observe.Metrics
import Intake.Observe.Reports
import Intake.Pickup.Basic
import Intake.Pickup.Claim
import Intake.Pickup.Contest
import Intake.Pickup.Session
import Intake.Pickup.Settlement
import Intake.Pickup.Suspension
import Intake.Pipeline.Basic
import Intake.Pipeline.Builder
import Intake.Pipeline.Choosing
import Intake.Pipeline.Moving
import Intake.Pipeline.Outline
import Intake.Pipeline.Probe
import Intake.Pipeline.Step
import Intake.Pipeline.Stock
import Intake.Pipeline.Trace
import Intake.Proofs.Agent.Accounting
import Intake.Proofs.Agent.Course
import Intake.Proofs.Agent.Desk
import Intake.Proofs.Agent.Phases
import Intake.Proofs.Batch.Dispatching
import Intake.Proofs.Batch.Rounds
import Intake.Proofs.Config.Reading
import Intake.Proofs.Config.Settings
import Intake.Proofs.Config.Shown
import Intake.Proofs.Fault.Capping
import Intake.Proofs.Fault.Credentials
import Intake.Proofs.Fault.Masking
import Intake.Proofs.Fault.Reading
import Intake.Proofs.Fault.Secrecy
import Intake.Proofs.Fault.Swept
import Intake.Proofs.Files.Bodies
import Intake.Proofs.Files.Routes
import Intake.Proofs.Http.AcceptSteps
import Intake.Proofs.Http.Accepting
import Intake.Proofs.Http.Correlation
import Intake.Proofs.Http.Submissions
import Intake.Proofs.Json.Grammar
import Intake.Proofs.Json.Numbers
import Intake.Proofs.Lists
import Intake.Proofs.Message.Items
import Intake.Proofs.Number.Digits
import Intake.Proofs.Number.PlainText
import Intake.Proofs.Number.Rounding
import Intake.Proofs.Number.Whole
import Intake.Proofs.Observe.Counting
import Intake.Proofs.Observe.Verdict
import Intake.Proofs.Pickup.Claims
import Intake.Proofs.Pickup.Conservation
import Intake.Proofs.Pickup.Contest
import Intake.Proofs.Pickup.Enumeration
import Intake.Proofs.Pickup.Interruption
import Intake.Proofs.Pickup.Ledger
import Intake.Proofs.Pickup.Names
import Intake.Proofs.Pickup.Polling
import Intake.Proofs.Pickup.Renaming
import Intake.Proofs.Pickup.Settlement
import Intake.Proofs.Pipeline.Disposition
import Intake.Proofs.Pipeline.Emptiness
import Intake.Proofs.Pipeline.Ending
import Intake.Proofs.Pipeline.Flattening
import Intake.Proofs.Pipeline.Laws
import Intake.Proofs.Pipeline.Orderly
import Intake.Proofs.Pipeline.Threading
import Intake.Proofs.Receiver.Changing
import Intake.Proofs.Receiver.Polling
import Intake.Proofs.Receiver.Rules
import Intake.Proofs.Schedule.Bounds
import Intake.Proofs.Schedule.Buckets
import Intake.Proofs.Schedule.Climb
import Intake.Proofs.Schedule.Consistency
import Intake.Proofs.Schedule.Draining
import Intake.Proofs.Schedule.Effects
import Intake.Proofs.Schedule.Growth
import Intake.Proofs.Schedule.Refinement
import Intake.Proofs.Schedule.Reflection
import Intake.Proofs.Schedule.Triggers
import Intake.Proofs.Schedule.Waiting
import Intake.Proofs.Schedule.Waking
import Intake.Proofs.Scheduled.Polls
import Intake.Proofs.Scheduled.Rearming
import Intake.Proofs.Scheduled.Registration
import Intake.Proofs.Scheduled.Round
import Intake.Proofs.Scheduled.Taking
import Intake.Proofs.Service.Starting
import Intake.Proofs.Table
import Intake.Proofs.Time.Seconds
import Intake.Proofs.Time.Spans
import Intake.Proofs.Time.Steady
import Intake.Proofs.Toml.Documents
import Intake.Proofs.Toml.Sized
import Intake.Proofs.Toml.Strings
import Intake.Proofs.Toml.Words
import Intake.Receiver.Basic
import Intake.Receiver.Changing
import Intake.Receiver.Lifecycle
import Intake.Receiver.Probe
import Intake.Receiver.Rules
import Intake.Receiver.Settings
import Intake.Schedule.Agenda
import Intake.Schedule.Backoff
import Intake.Schedule.Cutting
import Intake.Schedule.Entry
import Intake.Schedule.History
import Intake.Schedule.Scheduler
import Intake.Scheduled.Registration
import Intake.Scheduled.Round
import Intake.Service.Assembly
import Intake.Service.Clearing
import Intake.Service.Started
import Intake.Table
import Intake.Text.Blank
import Intake.Text.Utf8
import Intake.Time.Duration
import Intake.Time.Instant
import Intake.Toml.Basic
import Intake.Toml.Reader
import Intake.Toml.Token
import Intake.Toml.Writer
