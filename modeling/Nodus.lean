import Nodus.Syntax
import Nodus.Bytecode
import Nodus.SymbolTable
import Nodus.Compiler
import Nodus.Machine
import Nodus.Trace
import Nodus.Control
import Nodus.ModuleContext
import Nodus.CacheFormat
import Nodus.Derivation
import Nodus.Doors
import Nodus.StepEntry
import Nodus.Ownership
import Nodus.CallNames
import Nodus.PosixPath
import Nodus.ImportPaths
import Nodus.PathPolicy
import Nodus.ExactlyOnce
import Nodus.Walks
import Nodus.Paired
import Nodus.ModuleLoader
import Nodus.ColdBuild
import Nodus.WarmLoad
import Nodus.Lockstep
import Nodus.LoadBound
import Nodus.CacheHistory
import Nodus.CacheTransparency
import Nodus.AllowLists
import Nodus.InitOrder
import Nodus.LoadedProgram
import Nodus.Scheduler
import Nodus.Parking
import Nodus.Registries
import Nodus.Deadlock
import Nodus.Mailbox
import Nodus.Workers
import Nodus.Channels
import Nodus.Delivery
import Nodus.Concerns
import Nodus.Places
import Nodus.Outcomes
import Nodus.TaskGraph
import Nodus.TaskShapes
import Nodus.TaskRuns
import Nodus.TaskOrder
import Nodus.Passes
import Nodus.TaskReport
import Nodus.TaskVerdict
import Nodus.NestedRuns
import Nodus.TaskWaits
import Nodus.StateCells
import Nodus.StateRuns
import Nodus.StateTotals
import Nodus.Search
import Nodus.Rollbacks
import Nodus.Interleaving
import Nodus.RunRecords
import Nodus.StoreOrder
import Nodus.Runners
import Nodus.Schedules
import Nodus.SharedStore
import Nodus.StepArguments
import Nodus.Exclusion
import Nodus.PlainResumes
import Nodus.Compensation
import Nodus.Dispatch
import Nodus.WorkerManager
import Nodus.ManagerLock
import Nodus.StoreBackends
import Nodus.StoreEquivalence
import Nodus.Ast
import Nodus.StateRewriter
import Nodus.CellRewriting
import Nodus.Programs
import Nodus.Lexer
import Nodus.GoalValidation
import Nodus.Parser
import Nodus.CommentTransparency
import Nodus.Binary64
import Nodus.Equality
import Nodus.Folds
import Nodus.StatusOrder
import Nodus.Expansions
import Nodus.MappedSteps
import Nodus.FailedResumes
import Nodus.Semver
import Nodus.Resolution
import Nodus.Requirements
import Nodus.Selections
import Nodus.Traversal
import Nodus.Satisfaction
import Nodus.Installation
import Nodus.Ancestors
import Nodus.WriteConflicts
import Nodus.LostUpdates
import Nodus.GraphCycles
import Nodus.PlanLevels
import Nodus.StringEscapes
import Nodus.Copies
import Nodus.CompoundAssignment
import Nodus.TaskCache
import Nodus.Migration
import Nodus.RecordEquality
import Nodus.JsonText
import Nodus.JsonValues
import Nodus.HostCalls
import Nodus.ValueTraversals
import Nodus.Rounding
import Nodus.Calendar
import Nodus.Timestamps
import Nodus.Regex
import Nodus.DateTimes
import Nodus.TimeFormats
import Nodus.Iso8601
import Nodus.LocalTimes
import Nodus.AssocList
import Nodus.SchemaContract
import Nodus.StringFormat
import Nodus.Masks
import Nodus.TreeHash
import Nodus.SingleFlight
import Nodus.InsertionSort
import Nodus.CronFields
import Nodus.HostInts
import Nodus.Utf8
import Nodus.EventStreams
import Nodus.SqlRecords
import Nodus.FormatTrips
import Nodus.CronSchedule
import Nodus.Unreachable
