import Flagship.Console.EnvironmentSelection
import Flagship.Console.FlagDetailView
import Flagship.Console.RuleBuilder
import Flagship.Console.RulesetStream
import Flagship.Console.TreeEdits
import Flagship.ControlPlane.Abreast
import Flagship.ControlPlane.Accepted
import Flagship.ControlPlane.Admin
import Flagship.ControlPlane.AdminSteps
import Flagship.ControlPlane.ApiKeys
import Flagship.ControlPlane.AuditLog
import Flagship.ControlPlane.Backpressure
import Flagship.ControlPlane.Batches
import Flagship.ControlPlane.ClickHouse
import Flagship.ControlPlane.Cycle
import Flagship.ControlPlane.DeadConditions
import Flagship.ControlPlane.Filed
import Flagship.ControlPlane.FlagConfig
import Flagship.ControlPlane.FlagCreation
import Flagship.ControlPlane.Ingest
import Flagship.ControlPlane.InsertedRows
import Flagship.ControlPlane.IssuedKeys
import Flagship.ControlPlane.Keyed
import Flagship.ControlPlane.LandedInserts
import Flagship.ControlPlane.Migrations
import Flagship.ControlPlane.Published
import Flagship.ControlPlane.Publishing
import Flagship.ControlPlane.Reading
import Flagship.ControlPlane.Reports
import Flagship.ControlPlane.RuleTree
import Flagship.ControlPlane.Ruleset
import Flagship.ControlPlane.Serial
import Flagship.ControlPlane.Tenancy
import Flagship.ControlPlane.TenantIsolation
import Flagship.ControlPlane.TenantRoutes
import Flagship.ControlPlane.TenantViews
import Flagship.ControlPlane.UpdateVisible
import Flagship.Core.Additive
import Flagship.Core.BlastRadius
import Flagship.Core.Bucketing
import Flagship.Core.ClientSafe
import Flagship.Core.ErroredPrerequisite
import Flagship.Core.Evaluate
import Flagship.Core.FailClosed
import Flagship.Core.Fallback
import Flagship.Core.GuardFree
import Flagship.Core.Matching
import Flagship.Core.Murmur
import Flagship.Core.Operators
import Flagship.Core.Outcome
import Flagship.Core.Ramp
import Flagship.Core.Rollout
import Flagship.Core.SafeSegments
import Flagship.Core.Satisfiable
import Flagship.Core.SemVerOrder
import Flagship.Core.Served
import Flagship.Core.Settling
import Flagship.Core.SharedBuffer
import Flagship.Core.Sound
import Flagship.Core.Termination
import Flagship.Core.Types
import Flagship.Core.Unfiltered
import Flagship.Core.Visibility
import Flagship.Core.Widening
import Flagship.DataPlane.Delivery
import Flagship.DataPlane.EchoedId
import Flagship.DataPlane.Eviction
import Flagship.DataPlane.FrameRoundTrip
import Flagship.DataPlane.Framing
import Flagship.DataPlane.History
import Flagship.DataPlane.Hub
import Flagship.DataPlane.HubSteps
import Flagship.DataPlane.Owed
import Flagship.DataPlane.Provenance
import Flagship.DataPlane.Registry
import Flagship.DataPlane.Server
import Flagship.DataPlane.Stamps
import Flagship.DataPlane.Store
import Flagship.EndToEnd.BatchLimit
import Flagship.EndToEnd.BucketJoin
import Flagship.EndToEnd.DedupeKeys
import Flagship.EndToEnd.ExperimentCounts
import Flagship.EndToEnd.ExposureCounts
import Flagship.EndToEnd.ExposurePath
import Flagship.EndToEnd.ExposureTables
import Flagship.EndToEnd.Freshness
import Flagship.EndToEnd.Isolation
import Flagship.EndToEnd.Losses
import Flagship.EndToEnd.Platform
import Flagship.EndToEnd.RampedRollouts
import Flagship.EndToEnd.RecordedAccepted
import Flagship.EndToEnd.Replicas
import Flagship.EndToEnd.Secrecy
import Flagship.EndToEnd.VersionOrder
import Flagship.Lib.CyclePath
import Flagship.Lib.CycleSearch
import Flagship.Lib.Doubles
import Flagship.Lib.EventStream
import Flagship.Lib.GuardSet
import Flagship.Lib.Hereditary
import Flagship.Lib.Identity
import Flagship.Lib.Int32
import Flagship.Lib.Json
import Flagship.Lib.JsonLines
import Flagship.Lib.JsonText
import Flagship.Lib.Jsonb
import Flagship.Lib.MixtureScores
import Flagship.Lib.Moments
import Flagship.Lib.MurmurHash3
import Flagship.Lib.Newest
import Flagship.Lib.Noninterference
import Flagship.Lib.NormalLaw
import Flagship.Lib.Number
import Flagship.Lib.Placed
import Flagship.Lib.Readable
import Flagship.Lib.Relational
import Flagship.Lib.Rollup
import Flagship.Lib.ScriptMap
import Flagship.Lib.SemanticVersion
import Flagship.Lib.Slices
import Flagship.Lib.Tails
import Flagship.Lib.Tally
import Flagship.Lib.Transition
import Flagship.Lib.Traverse
import Flagship.Lib.TreePaths
import Flagship.Lib.UniqueColumns
import Flagship.Lib.Unknowns
import Flagship.Lib.Utf16
import Flagship.Lib.Ville
import Flagship.Lib.WholeNumbers
import Flagship.Sdk.Agreement
import Flagship.Sdk.Atomicity
import Flagship.Sdk.Client
import Flagship.Sdk.Closing
import Flagship.Sdk.Exposure
import Flagship.Sdk.ExposureAccounts
import Flagship.Sdk.Go
import Flagship.Sdk.Java
import Flagship.Sdk.Ordering
import Flagship.Sdk.Rollouts
import Flagship.Sdk.ServedAlike
import Flagship.Stats.AlwaysValid
import Flagship.Stats.Conservative
import Flagship.Stats.Distributions
import Flagship.Stats.FixedHorizon
import Flagship.Stats.Frequentist
import Flagship.Stats.Monitor
import Flagship.Stats.Planning
import Flagship.Stats.SampleRatio
import Flagship.Stats.Sequential
import Flagship.Stats.StudentTail
