import Poplar.EventCtl.Armed
import Poplar.EventCtl.Expiry
import Poplar.EventCtl.Registration
import Poplar.Domain.RoundTrip
import Poplar.Domain.Owners
import Poplar.Domain.Bounds
import Poplar.Domain.CacheSync
import Poplar.Domain.Eviction
import Poplar.Http.Targets
import Poplar.Proxy.Pairing
import Poplar.Proxy.Relay
import Poplar.Proxy.Cached
import Poplar.Proxy.Outgoing
import Poplar.Proxy.Attended
import Poplar.Proxy.Teardown
import Poplar.Proxy.Validity
import Poplar.Proxy.HostAnswers
import Poplar.Proxy.Sought
import Poplar.Proxy.Routing
import Poplar.EventCtl.Refused
import Poplar.EventCtl.Copy
import Poplar.EventCtl.Lookup
import Poplar.EventCtl.Delays
import Poplar.Domain.NameFields
import Poplar.Http.StartLine
import Poplar.Http.Ports
import Poplar.Apps.FifoRuns
import Poplar.Apps.StreamBounds
import Poplar.Apps.StreamValues
import Poplar.Apps.StreamCopies
import Poplar.HttpCache.Stored
import Poplar.Proxy.Aftermath
import Poplar.HttpCache.Writes
import Poplar.Common.Sequences
import Poplar.Proxy.Lookups
import Poplar.Proxy.Resources
import Poplar.HttpCache.Runs
import Poplar.EventCtl.Destroy
import Poplar.EventCtl.Service
import Poplar.Proxy.Memory
import Poplar.Proxy.Tunnels
import Poplar.Proxy.Origins
import Poplar.Proxy.Mirror
