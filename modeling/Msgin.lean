import Msgin.TransitionRuns
import Msgin.Interaction
import Msgin.Errors
import Msgin.Message
import Msgin.ConsumerCalls
import Msgin.Settlement
import Msgin.SettlementEffects
import Msgin.DispatchEffects
import Msgin.SettlementLaw
import Msgin.SettlementPanics
import Msgin.Producers
import Msgin.PollEffects
import Msgin.PollAccounting
import Msgin.PollBackoff
import Msgin.SettlementCalls
import Msgin.CreditLedger
import Msgin.ConsumerRun
import Msgin.CreditInvariant
import Msgin.CreditAccounting
import Msgin.GroupDialect
import Msgin.GroupFence
import Msgin.GroupLives
import Msgin.GroupRecovery
import Msgin.MemberCap
import Msgin.CommittedMembers
import Msgin.SqlGroupStore
import Msgin.GroupClaimFailure
import Msgin.MemberIds
import Msgin.GroupTwins
import Msgin.TwinAnswers
import Msgin.TwinAdd
import Msgin.TwinStores
import Msgin.LeaseDialect
import Msgin.LeaseHistory
import Msgin.LeaseInvariant
import Msgin.LeaseFence
import Msgin.LeaseSafety
import Msgin.LockDialect
import Msgin.LockQueue
import Msgin.NackDelay
import Msgin.AttemptTracker
import Msgin.BrokerAttempts
import Msgin.ProcessEffects
import Msgin.SqlSource
import Msgin.SqlAttempts
import Msgin.BoundedChannel
import Msgin.Rendezvous
import Msgin.RendezvousStages
import Msgin.RendezvousSteps
import Msgin.Exchange
import Msgin.ExchangePhases
import Msgin.ExchangeSteps
import Msgin.ExchangeReceivers
import Msgin.ExchangeDelivery
import Msgin.GroupStoreInvariant
import Msgin.Aggregator
import Msgin.AggregatorProtocol
import Msgin.GroupStoreClaims
import Msgin.AggregatorInvariant
import Msgin.AggregatorSettlement
import Msgin.DecimalSuffix
import Msgin.Splitter
import Msgin.AggregatorDefaults
import Msgin.RoundTripJob
import Msgin.RoundTripClaim
import Msgin.RoundTripBatch
import Msgin.RoundTripSteps
import Msgin.RoundTrip
import Msgin.NestedSplit
import Msgin.PushHand
import Msgin.PushSettlement
import Msgin.Unwinding
import Msgin.FaultIsolation
import Msgin.AggregatorLeaks
import Msgin.SseFrame
import Msgin.SseHub
import Msgin.SseHubInvariant
import Msgin.SseDelivery
import Msgin.SseLines
import Msgin.SseCalls
import Msgin.SseClient
import Msgin.SsePacing
import Msgin.SsePosition
import Msgin.SseCut
import Msgin.SseReading
import Msgin.SseRoundTrip
import Msgin.SseSkipping
import Msgin.EventStream
import Msgin.SseConformance
import Msgin.SseSession
import Msgin.SseStart
import Msgin.SseResume
import Msgin.ElectorExclusion
import Msgin.FleetFires
import Msgin.BreakerProbes
import Msgin.ProducerCalls
import Msgin.PollPacing
import Msgin.ProducerRetry
import Msgin.RetryOutcome
import Msgin.OverCap
import Msgin.DrainLoop
import Msgin.DrainGroup
import Msgin.DrainTermination
import Msgin.InPlaceFilter
import Msgin.QueueStore
import Msgin.QueueClaims
import Msgin.QueueInvariant
import Msgin.QueueLaw
import Msgin.IngressPark
import Msgin.IngressGovernance
import Msgin.IngressWake
import Msgin.IngestStops
import Msgin.CronRetry
import Msgin.GroupStoreRuns
import Msgin.GroupStoreShape
import Msgin.GroupStoreConservation
import Msgin.GroupStoreFence
import Msgin.TopicRegistry
import Msgin.TopicSteps
import Msgin.TopicInvariant
import Msgin.TopicRuns
import Msgin.TopicLaw
import Msgin.LockerDialect
import Msgin.LockerFleet
import Msgin.LockerFires
import Msgin.CronStream
import Msgin.SkipPhases
import Msgin.StreamFires
import Msgin.AttemptHistory
import Msgin.AttemptLaw
import Msgin.Predicates
import Msgin.PredicateTrees
import Msgin.SseMachine
import Msgin.SseMachineCalls
import Msgin.SseBounds
import Msgin.ByteReaders
import Msgin.HttpCodec
import Msgin.ReservedHeaders
import Msgin.HttpInbound
import Msgin.HttpExchange
import Msgin.InboundResponse
import Msgin.TransactionalRows
import Msgin.InboxDeduper
import Msgin.InboxLaw
import Msgin.ExactlyOnce
import Msgin.LockSafety
