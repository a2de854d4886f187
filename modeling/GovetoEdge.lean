import GovetoEdge.AccessBatches
import GovetoEdge.AccessPipeline
import GovetoEdge.AgentTaskSafety
import GovetoEdge.AlertDeliveries
import GovetoEdge.ApiKeys
import GovetoEdge.CacheBodies
import GovetoEdge.CacheDirectives
import GovetoEdge.CacheFlights
import GovetoEdge.CaptureAccounting
import GovetoEdge.CidrConditions
import GovetoEdge.ConfigDelivery
import GovetoEdge.ConfigSealLaws
import GovetoEdge.CredentialProtocol
import GovetoEdge.DnsJobs
import GovetoEdge.DnsSnapshots
import GovetoEdge.EncodeCommit
import GovetoEdge.Fallible
import GovetoEdge.LogDeliverySafety
import GovetoEdge.LogpushRefresh
import GovetoEdge.ObjectSafety
import GovetoEdge.OriginMetrics
import GovetoEdge.OutboundPolicy
import GovetoEdge.Preconditions
import GovetoEdge.PurgeMatching
import GovetoEdge.RateBackend
import GovetoEdge.RateCounters
import GovetoEdge.RetryAfter
import GovetoEdge.ServedEntries
import GovetoEdge.StreamedBodies
import GovetoEdge.TaskPayloads
import GovetoEdge.VariantElection
import GovetoEdge.WafDslSafety
import GovetoEdge.WriteQueueProgress
import GovetoEdge.CounterAccounting
import GovetoEdge.JobQueueSafety
import GovetoEdge.Publisher
import GovetoEdge.PublisherLeases
import GovetoEdge.PublisherOrder
