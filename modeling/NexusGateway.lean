import NexusGateway.Lib.CString
import NexusGateway.Lib.Lines
import NexusGateway.Lib.Incremental
import NexusGateway.Lib.Multimap
import NexusGateway.Lib.SmoothRoundRobin
import NexusGateway.Lib.TokenBucket
import NexusGateway.Lib.Slots
import NexusGateway.Lib.Descriptors
import NexusGateway.Lib.Runs
import NexusGateway.Lib.Pieces
import NexusGateway.HttpHeader
import NexusGateway.HttpParser
import NexusGateway.ParserChunks
import NexusGateway.HeaderTable
import NexusGateway.ParserFraming
import NexusGateway.HttpSerialize
import NexusGateway.Config
import NexusGateway.HttpRewrite
import NexusGateway.ParserFields
import NexusGateway.RewriteWire
import NexusGateway.ForwardedHeaders
import NexusGateway.ContentLength
import NexusGateway.RoundTrip
import NexusGateway.Admission
import NexusGateway.StaticFile
import NexusGateway.Upstream
import NexusGateway.Worker
import NexusGateway.ForwardedRequest
import NexusGateway.GatewayHeaders
import NexusGateway.WeightedPicks
import NexusGateway.RateWindows
import NexusGateway.WorkerEvents
import NexusGateway.ResponseRelay
import NexusGateway.RequestRelay
import NexusGateway.EventEffects
import NexusGateway.SplitRequest
import NexusGateway.ActiveCount
import NexusGateway.AcceptedOwners
import NexusGateway.PoolDescriptors
import NexusGateway.DescriptorOwnership
import NexusGateway.EventBatch
import NexusGateway.Master
import NexusGateway.WorkerStart
import NexusGateway.MasterEffects
import NexusGateway.Generations
import NexusGateway.QueuedConnections
import NexusGateway.DrainExit
import NexusGateway.ForkedConfig
import NexusGateway.ShadowVersions
import NexusGateway.FailedReload
import NexusGateway.RespawnScan
import NexusGateway.ReloadRequests
import NexusGateway.ConfigLines
import NexusGateway.Lib.Paths
import NexusGateway.NodeCounters
import NexusGateway.RateIsolation
import NexusGateway.RequestRouting
import NexusGateway.StaticRoot
import NexusGateway.RewrittenTable
import NexusGateway.Lib.Numerals
import NexusGateway.RequestIdText
import NexusGateway.ForwardedIds
import NexusGateway.RequestIds
import NexusGateway.RequestRun
import NexusGateway.Lib.Traces
import NexusGateway.Responses
import NexusGateway.AccessLog
import NexusGateway.Lib.Components
import NexusGateway.SlotReuse
import NexusGateway.UpstreamNodes
import NexusGateway.Lib.Streaks
import NexusGateway.HealthChecks
import NexusGateway.EpollTable
import NexusGateway.ParserLoop
import NexusGateway.Lib.Prints
import NexusGateway.SerializePrints
import NexusGateway.SerializedConfig
import NexusGateway.CustomHeaders
import NexusGateway.FixedArrays
import NexusGateway.Lib.Turns
import NexusGateway.ChangingNodes
import NexusGateway.EventInterest
import NexusGateway.WorkerPlaces
import NexusGateway.MasterPasses
import NexusGateway.RequestGrammar
import NexusGateway.Lib.History
import NexusGateway.TrafficOrigin
import NexusGateway.BlacklistedClients
import NexusGateway.Draining
import NexusGateway.Lib.Phases
import NexusGateway.DrainRecords
import NexusGateway.RateLimitedClients
import NexusGateway.UpstreamConnections
import NexusGateway.ConfigFile
import NexusGateway.GatewayChain
import NexusGateway.Conversations
import NexusGateway.PublishedConfigs
import NexusGateway.StaticResponses
import NexusGateway.Lib.Parts
import NexusGateway.Gateway
import NexusGateway.LogReading
import NexusGateway.GracefulExit
