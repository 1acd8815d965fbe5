import WorldClock.Binary64
import WorldClock.Calendar.Basic
import WorldClock.Calendar.Season
import WorldClock.Calendar.TimeOfDay
import WorldClock.CatchUp
import WorldClock.Channel
import WorldClock.Count
import WorldClock.Database
import WorldClock.Decimal.Digits
import WorldClock.Decimal.Layout
import WorldClock.Decimal.Shortest
import WorldClock.Describe
import WorldClock.Digits
import WorldClock.Duration
import WorldClock.Engine.Basic
import WorldClock.Engine.Run
import WorldClock.Event.Basic
import WorldClock.Event.Details
import WorldClock.Event.History
import WorldClock.Event.IndexedLog
import WorldClock.Event.Kind
import WorldClock.Event.Log
import WorldClock.Identifier
import WorldClock.Instant.Basic
import WorldClock.Instant.Civil
import WorldClock.Instant.Text
import WorldClock.Instant.Utc
import WorldClock.Json.Basic
import WorldClock.Json.Escape
import WorldClock.Json.Number
import WorldClock.Json.Reader
import WorldClock.Json.Record
import WorldClock.Json.Standard
import WorldClock.Main
import WorldClock.Manager.Basic
import WorldClock.Manager.Error
import WorldClock.Manager.Move
import WorldClock.Manager.Shutdown
import WorldClock.Notice
import WorldClock.NoticeLine
import WorldClock.Power
import WorldClock.Projection
import WorldClock.Proofs.Agreement
import WorldClock.Proofs.BackDating
import WorldClock.Proofs.BoundedReads
import WorldClock.Proofs.CatchUp
import WorldClock.Proofs.ConcurrentUpdates
import WorldClock.Proofs.DeathInCatchUp
import WorldClock.Proofs.Digits
import WorldClock.Proofs.Dispatch
import WorldClock.Proofs.Event.Encodings
import WorldClock.Proofs.Event.Histories
import WorldClock.Proofs.Event.Indexes
import WorldClock.Proofs.Event.Payloads
import WorldClock.Proofs.FailedSpawns
import WorldClock.Proofs.ForeignHistories
import WorldClock.Proofs.Identity
import WorldClock.Proofs.Instants
import WorldClock.Proofs.Json.Numbers
import WorldClock.Proofs.Json.Reals
import WorldClock.Proofs.Json.Records
import WorldClock.Proofs.Json.Strings
import WorldClock.Proofs.Json.Values
import WorldClock.Proofs.Lifecycle
import WorldClock.Proofs.LiveTimelines
import WorldClock.Proofs.LogContract
import WorldClock.Proofs.Magnitude
import WorldClock.Proofs.Manager.ActiveWorlds
import WorldClock.Proofs.Manager.Broadcasts
import WorldClock.Proofs.Manager.Chronicle
import WorldClock.Proofs.Manager.Courses
import WorldClock.Proofs.Manager.Dispatches
import WorldClock.Proofs.Manager.Errands
import WorldClock.Proofs.Manager.Fleet
import WorldClock.Proofs.Manager.Interference
import WorldClock.Proofs.Manager.Locality
import WorldClock.Proofs.Manager.Moves
import WorldClock.Proofs.Manager.Observation
import WorldClock.Proofs.Manager.Services
import WorldClock.Proofs.Manager.SoleWriter
import WorldClock.Proofs.Manager.Steps
import WorldClock.Proofs.Manager.Trail
import WorldClock.Proofs.Manager.View
import WorldClock.Proofs.Manager.WeatherCalls
import WorldClock.Proofs.Manager.WeatherMarks
import WorldClock.Proofs.Noninterference
import WorldClock.Proofs.OverdueTicks
import WorldClock.Proofs.Pausing
import WorldClock.Proofs.Rebuilding
import WorldClock.Proofs.Refusals
import WorldClock.Proofs.Registry
import WorldClock.Proofs.RegistryGuard
import WorldClock.Proofs.Replays
import WorldClock.Proofs.Restoration
import WorldClock.Proofs.RestoredTotals
import WorldClock.Proofs.Retirement
import WorldClock.Proofs.Seasons
import WorldClock.Proofs.Shutdown
import WorldClock.Proofs.SideEffects
import WorldClock.Proofs.SimulatedTime
import WorldClock.Proofs.Startup
import WorldClock.Proofs.StatusMoves
import WorldClock.Proofs.SteadyReplay
import WorldClock.Proofs.StopAndRestore
import WorldClock.Proofs.Stops
import WorldClock.Proofs.SyntheticTimes
import WorldClock.Proofs.Tallies
import WorldClock.Proofs.Ticker.Steps
import WorldClock.Proofs.TimeOrder
import WorldClock.Proofs.TimelineFold
import WorldClock.Proofs.TimelineSummary
import WorldClock.Proofs.TimelineWrites
import WorldClock.Proofs.Timelines
import WorldClock.Proofs.Versions
import WorldClock.Proofs.WeatherOrder
import WorldClock.Proofs.WeatherSpacing
import WorldClock.Registry
import WorldClock.Settings.Basic
import WorldClock.Settings.Clock
import WorldClock.Settings.Fault
import WorldClock.Settings.File
import WorldClock.Settings.LogFilter
import WorldClock.Simulation.Basic
import WorldClock.Simulation.Manage
import WorldClock.Simulation.Script
import WorldClock.StopSignal
import WorldClock.Text.Blank
import WorldClock.Text.Hex
import WorldClock.Text.Utf8
import WorldClock.Ticker.Basic
import WorldClock.Ticker.Step
import WorldClock.Ticker.Surroundings
import WorldClock.Timeline
import WorldClock.WeatherExchange
import WorldClock.World.Basic
import WorldClock.World.Json
import WorldClock.World.Snapshot
import WorldClock.World.Table
import WorldClock.Yaml.Content
import WorldClock.Yaml.Cursor
import WorldClock.Yaml.Node
import WorldClock.Yaml.Record
import WorldClock.Yaml.Scalar
import WorldClock.Yaml.Token
