import Sandcat.Startup
import Sandcat.Offsets
import Sandcat.Notices
import Sandcat.MemberCache
import Sandcat.TwoBoxes
import Sandcat.Acknowledge
import Sandcat.Retrieval
import Sandcat.Updates
import Sandcat.Redelivery
import Sandcat.Lookup
import Sandcat.Removal
import Sandcat.Connections
import Sandcat.Delivery
import Sandcat.Pushing
import Sandcat.Ownership
import Sandcat.History
import Sandcat.Attribution
import Sandcat.Authenticity
import Sandcat.MigratedView
import Sandcat.Ranks
import Sandcat.Refusal
import Sandcat.Dismissal
import Sandcat.FriendSync
import Sandcat.FriendAgreement
import Sandcat.Polls
import Sandcat.PollRaces
import Sandcat.SavedMsg
import Sandcat.Blocks
import Sandcat.Passwords
import Sandcat.LoadStream
import Sandcat.CleanerLock
import Sandcat.Expiry
import Sandcat.Untracking
import Sandcat.RateLimiter
import Sandcat.RpcErrors
import Sandcat.Discovery
import Sandcat.Authorization
import Sandcat.Capacity
import Sandcat.FriendTraces
import Sandcat.Batches
import Sandcat.LoadBalancer
import Sandcat.Indexing
import Sandcat.Partitions
import Sandcat.ShardNumbers
import Sandcat.SeqGetters
import Sandcat.Muting
import Sandcat.PushRaces
import Sandcat.Heartbeat
import Sandcat.Mailbox
import Sandcat.ManagerLoop
import Sandcat.Arrival
import Sandcat.Sessions
import Sandcat.Streams
import Sandcat.GroupBoard
import Sandcat.LivePushes
import Sandcat.LiveArrival
