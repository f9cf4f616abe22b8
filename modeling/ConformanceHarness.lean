import ConformanceHarness.Base
import ConformanceHarness.Hex
import ConformanceHarness.Lib.Actions
import ConformanceHarness.Lib.Ascending
import ConformanceHarness.Lib.Asking
import ConformanceHarness.Lib.Cbor
import ConformanceHarness.Lib.Chunks
import ConformanceHarness.Lib.Closing
import ConformanceHarness.Lib.Following
import ConformanceHarness.Lib.Forest
import ConformanceHarness.Lib.Future
import ConformanceHarness.Lib.Interleave
import ConformanceHarness.Lib.Intervals
import ConformanceHarness.Lib.KeySets
import ConformanceHarness.Lib.Lines
import ConformanceHarness.Lib.Loops
import ConformanceHarness.Lib.OrderedMaps
import ConformanceHarness.Lib.Outbox
import ConformanceHarness.Lib.Parts
import ConformanceHarness.Lib.Path
import ConformanceHarness.Lib.Program
import ConformanceHarness.Lib.RuleScript
import ConformanceHarness.Lib.Scopes
import ConformanceHarness.Lib.Search
import ConformanceHarness.Lib.Splits
import ConformanceHarness.Lib.Tables
import ConformanceHarness.Loader.StepDef
import ConformanceHarness.Loader.Validation
import ConformanceHarness.Miniprotocols.BlockFetch
import ConformanceHarness.Miniprotocols.BlockFetchServer
import ConformanceHarness.Miniprotocols.ChainSync
import ConformanceHarness.Miniprotocols.ChainSyncServer
import ConformanceHarness.Miniprotocols.Handshake
import ConformanceHarness.Miniprotocols.LeiosFetch
import ConformanceHarness.Miniprotocols.LeiosFetchServer
import ConformanceHarness.Miniprotocols.LeiosNotify
import ConformanceHarness.Miniprotocols.LeiosNotifyServer
import ConformanceHarness.Miniprotocols.Net
import ConformanceHarness.Miniprotocols.Session
import ConformanceHarness.Proof.Advance
import ConformanceHarness.Proof.AuditTrail
import ConformanceHarness.Proof.AwaitReplies
import ConformanceHarness.Proof.BatchCounts
import ConformanceHarness.Proof.BlockAnnotations
import ConformanceHarness.Proof.BlockHashes
import ConformanceHarness.Proof.BlockOrigins
import ConformanceHarness.Proof.BlockRanges
import ConformanceHarness.Proof.BlockServing
import ConformanceHarness.Proof.BodyRanges
import ConformanceHarness.Proof.Brackets
import ConformanceHarness.Proof.BrokenChains
import ConformanceHarness.Proof.Capture
import ConformanceHarness.Proof.CaptureOrder
import ConformanceHarness.Proof.CapturedBlocks
import ConformanceHarness.Proof.ChainOrder
import ConformanceHarness.Proof.ClientClosing
import ConformanceHarness.Proof.ClientParts
import ConformanceHarness.Proof.Clock
import ConformanceHarness.Proof.ConnectionNames
import ConformanceHarness.Proof.Conversion
import ConformanceHarness.Proof.CursorCount
import ConformanceHarness.Proof.CursorSpec
import ConformanceHarness.Proof.Custody
import ConformanceHarness.Proof.Delivery
import ConformanceHarness.Proof.DialedAddresses
import ConformanceHarness.Proof.DomainSeparation
import ConformanceHarness.Proof.ExactConversion
import ConformanceHarness.Proof.Executions
import ConformanceHarness.Proof.FailedSteps
import ConformanceHarness.Proof.FetchAccounts
import ConformanceHarness.Proof.FetchExchanges
import ConformanceHarness.Proof.FetchedPoints
import ConformanceHarness.Proof.FixtureRoundTrip
import ConformanceHarness.Proof.FixtureServing
import ConformanceHarness.Proof.Forks
import ConformanceHarness.Proof.Forward
import ConformanceHarness.Proof.HeaderAnnotations
import ConformanceHarness.Proof.HeaderCbor
import ConformanceHarness.Proof.Headers
import ConformanceHarness.Proof.HexDecoders
import ConformanceHarness.Proof.HexPairs
import ConformanceHarness.Proof.HiddenEntries
import ConformanceHarness.Proof.KeptConnections
import ConformanceHarness.Proof.Ledger
import ConformanceHarness.Proof.LeftOpen
import ConformanceHarness.Proof.ModeSeparation
import ConformanceHarness.Proof.NotifySession
import ConformanceHarness.Proof.ParallelBranches
import ConformanceHarness.Proof.PeerIndependence
import ConformanceHarness.Proof.PeerReferences
import ConformanceHarness.Proof.PeerServing
import ConformanceHarness.Proof.PointLookup
import ConformanceHarness.Proof.PointText
import ConformanceHarness.Proof.Production
import ConformanceHarness.Proof.ReferenceGrammar
import ConformanceHarness.Proof.References
import ConformanceHarness.Proof.RepeatRuns
import ConformanceHarness.Proof.Repeatable
import ConformanceHarness.Proof.ResolvedScript
import ConformanceHarness.Proof.RuleSelection
import ConformanceHarness.Proof.SameReading
import ConformanceHarness.Proof.Schedule
import ConformanceHarness.Proof.ScheduleExact
import ConformanceHarness.Proof.Sequences
import ConformanceHarness.Proof.SessionClosing
import ConformanceHarness.Proof.SessionParts
import ConformanceHarness.Proof.SessionRules
import ConformanceHarness.Proof.SinglePass
import ConformanceHarness.Proof.SlotFilter
import ConformanceHarness.Proof.StepAssertions
import ConformanceHarness.Proof.StepCode
import ConformanceHarness.Proof.StepEffects
import ConformanceHarness.Proof.StepRuns
import ConformanceHarness.Proof.StepTree
import ConformanceHarness.Proof.StreamedRanges
import ConformanceHarness.Proof.Substitution
import ConformanceHarness.Proof.Summaries
import ConformanceHarness.Proof.TemplateGrammar
import ConformanceHarness.Proof.TextSplits
import ConformanceHarness.Proof.Timeline
import ConformanceHarness.Proof.TraceEffects
import ConformanceHarness.Proof.TraceFile
import ConformanceHarness.Proof.TraceOrder
import ConformanceHarness.Proof.Unhindered
import ConformanceHarness.Proof.WireAttribution
import ConformanceHarness.Proof.WireEvents
import ConformanceHarness.Proof.WirePoints
import ConformanceHarness.Runner.Capture
import ConformanceHarness.Runner.ChainTrace
import ConformanceHarness.Runner.Concurrent
import ConformanceHarness.Runner.ConcurrentCapture
import ConformanceHarness.Runner.Connections
import ConformanceHarness.Runner.FixtureFiles
import ConformanceHarness.Runner.FlatRun
import ConformanceHarness.Runner.Network
import ConformanceHarness.Runner.NetworkSteps
import ConformanceHarness.Runner.RunScenario
import ConformanceHarness.Runner.RunStep
import ConformanceHarness.Runner.Serve
import ConformanceHarness.Runner.SharedState
import ConformanceHarness.Runner.Simulation
import ConformanceHarness.Scenario.BlockFixture
import ConformanceHarness.Scenario.Fixture
import ConformanceHarness.Scenario.Json
import ConformanceHarness.Scenario.Offsets
import ConformanceHarness.Scenario.PeerState
import ConformanceHarness.Scenario.Point
import ConformanceHarness.Scenario.ProductionRule
import ConformanceHarness.Scenario.ResponseRules
import ConformanceHarness.Scenario.StepParams
import ConformanceHarness.Scenario.Validate
import ConformanceHarness.Scenario.Vars
import ConformanceHarness.Trace
import ConformanceHarness.Lib.Duplex
import ConformanceHarness.Lib.Quota
import ConformanceHarness.Proof.ChainSyncAccounts
import ConformanceHarness.Miniprotocols.ChainSyncLink
import ConformanceHarness.Proof.ChainSyncLinked
import ConformanceHarness.Proof.Rerecording
import ConformanceHarness.Miniprotocols.BlockFetchLink
import ConformanceHarness.Proof.BlockFetchParties
import ConformanceHarness.Proof.BlockFetchLinked
import ConformanceHarness.Proof.HeadersAndBodies
import ConformanceHarness.Lib.Dialogue
import ConformanceHarness.Miniprotocols.LeiosLink
import ConformanceHarness.Proof.NotifyParties
import ConformanceHarness.Proof.NotifyLinked
import ConformanceHarness.Proof.LeiosFetchParties
import ConformanceHarness.Proof.LeiosFetchLinked
import ConformanceHarness.Proof.FollowedPeer
import ConformanceHarness.Proof.PeerBodies
import ConformanceHarness.Proof.ClientTraces
import ConformanceHarness.Lib.Alarms
import ConformanceHarness.Proof.Verdicts
import ConformanceHarness.Proof.ParallelRuns
import ConformanceHarness.Proof.NothingSwallowed
import ConformanceHarness.Proof.Blame
import ConformanceHarness.Lib.Endings
import ConformanceHarness.Proof.Completion
