import Arks.Programs
import Arks.Sessions
import Arks.Frames
import Arks.QuotaSync
import Arks.Streaming
import Arks.Replicas
import Arks.QuotaRuns
import Arks.Admission
import Arks.RateSessions
import Arks.RateRuns
import Arks.QuotaBounds
import Arks.Endpoints
import Arks.Applications
import Arks.Discovery
import Arks.EndpointEvents
import Arks.RouteIsolation
import Arks.RouteServices
import Arks.AbsentQos
import Arks.FixedWindows
import Arks.Noninterference
import Arks.Coherence
import Arks.Retries
import Arks.DownloadPods
import Arks.ReplicaCounts
import Arks.Orphans
import Arks.Storage
import Arks.Loading
import Arks.Prechecks
import Arks.OrphanRoutes
import Arks.ChildNames
import Arks.Selectors
import Arks.Leftovers
import Arks.RequestCounts
import Arks.ResponseCharges
import Arks.UsageReads
import Arks.TokenOrder
import Arks.RouteBounds
import Arks.ServingRoutes
import Arks.Expiries
import Arks.NilFields
import Arks.DefaultFlags
import Arks.Boundaries
import Arks.Versions
import Arks.Lifecycles
import Arks.Replies
import Arks.Records
import Arks.Downloads
import Arks.Permissions
import Arks.Namespaces
import Arks.Listing
import Arks.Deletions
