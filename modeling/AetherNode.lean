import AetherNode.Lib.Run
import AetherNode.Lib.Table
import AetherNode.Lib.Base64
import AetherNode.Lib.Json
import AetherNode.Datetime
import AetherNode.Fromisoformat
import AetherNode.Protocol
import AetherNode.Validate
import AetherNode.Store
import AetherNode.Relay
import AetherNode.Finality
import AetherNode.Ownership
import AetherNode.Handlers
import AetherNode.PendingDeletes
import AetherNode.Replay
import AetherNode.Gossip
import AetherNode.Mesh
import AetherNode.AntiEntropy
import AetherNode.Lib.Pem
import AetherNode.Trust
import AetherNode.Lib.Url
import AetherNode.Transport
import AetherNode.Lib.Marks
import AetherNode.Spelling
import AetherNode.Expiry
import AetherNode.Lib.Bucket
import AetherNode.Lib.OrderedDict
import AetherNode.RateLimit
import AetherNode.Eviction
import AetherNode.Lib.Binary64
import AetherNode.Rounded
import AetherNode.RefusedCalls
import AetherNode.Quota
import AetherNode.Isolation
import AetherNode.Deletable
import AetherNode.Inbox
import AetherNode.Lib.Cursor
import AetherNode.CatchUp
import AetherNode.Convergence
import AetherNode.Oracle
import AetherNode.Skew
import AetherNode.Rejection
import AetherNode.Pipeline
import AetherNode.Adoption
import AetherNode.Lib.PyInt
import AetherNode.Requests
import AetherNode.Lib.JsonText
import AetherNode.Lib.Reencode
import AetherNode.Forward
import AetherNode.Malformed
import AetherNode.Reaping
import AetherNode.Lib.Resume
import AetherNode.Throttle
import AetherNode.Lib.Utf8
import AetherNode.Timestamps
import AetherNode.Lib.BigEndian
import AetherNode.Padding
import AetherNode.Lib.Recency
import AetherNode.Pool
import AetherNode.Peers
import AetherNode.RelayUrl
import AetherNode.WorstCase
import AetherNode.Lib.JsonScan
import AetherNode.Lib.JsonGrammar
import AetherNode.Server
import AetherNode.Lib.Reread
import AetherNode.Hops
import AetherNode.Served
import AetherNode.Node
import AetherNode.Answers
import AetherNode.Routes
import AetherNode.Client
import AetherNode.Delivery
import AetherNode.Authentic
import AetherNode.Lib.Semaphore
import AetherNode.Startup
import AetherNode.Listener
import AetherNode.Erasure
import AetherNode.Spread
