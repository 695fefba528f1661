import Seisin.Lib.Transition
import Seisin.Lib.Serial
import Seisin.Lib.Simulation
import Seisin.Lib.Service
import Seisin.Lib.Returns
import Seisin.Lib.Dispatch
import Seisin.Lib.WoundWait
import Seisin.Lib.WoundWait.Lifecycle
import Seisin.Lib.WoundWait.Exclusion
import Seisin.Lib.WoundWait.Progress
import Seisin.Lib.Bytes
import Seisin.Lib.Cursor
import Seisin.Lib.Paging
import Seisin.Lib.Records
import Seisin.Lib.Gapless
import Seisin.Lib.SortedList
import Seisin.Lib.Separated
import Seisin.Lib.LinkedList
import Seisin.Lib.Timeline
import Seisin.Lib.Chronicle
import Seisin.Lib.Joined
import Seisin.Core
import Seisin.Ring
import Seisin.Ring.Placement
import Seisin.Ring.Rebuilding
import Seisin.Ring.JumpBack
import Seisin.Ops
import Seisin.Collation
import Seisin.Collation.Discipline
import Seisin.Worker
import Seisin.Worker.Moves
import Seisin.Worker.Discard
import Seisin.Worker.Accounts
import Seisin.Worker.Stored
import Seisin.Worker.Verdicts
import Seisin.Worker.Isolation
import Seisin.Worker.Copies
import Seisin.Types.Field
import Seisin.Types.Schema
import Seisin.Types.Codec
import Seisin.Types.Indexes
import Seisin.Types.DerivedIds
import Seisin.Types.TypedContext
import Seisin.Types.Transaction
import Seisin.Node
import Seisin.Node.Routing
import Seisin.Node.Refinement
import Seisin.Node.Exclusion
import Seisin.Node.Coherence
import Seisin.Node.Serializability
import Seisin.Node.Unordered
import Seisin.Node.Joint
import Seisin.Node.Transparency
import Seisin.Node.Distributed
import Seisin.Node.Settlement
import Seisin.Node.Progress
import Seisin.Node.Atomicity
import Seisin.Node.Existence
import Seisin.Node.Destination
import Seisin.Node.Gate
import Seisin.Node.Tier
import Seisin.Node.Ledger
import Seisin.Node.Barrier
import Seisin.Storage.BTree.Pages
import Seisin.Storage.BTree.PageCodec
import Seisin.Storage.BTree.Shape
import Seisin.Storage.BTree.Insertion
import Seisin.Storage.BTree.Simulation
import Seisin.Storage.BTree.Removal
import Seisin.Storage.BTree.Rebuild
import Seisin.Storage.BTree.Representation
import Seisin.Storage.BTree.Refinement
import Seisin.Storage.BTree.Ranks
import Seisin.Storage.BTree.Scans
import Seisin.Storage.BTree.Bulk
import Seisin.Storage.BTree.Parameters
import Seisin.Types.Residents
import Seisin.Types.Leaderboard
import Seisin.Types.Standings
import Seisin.Types.SecondaryKeys
import Seisin.Types.Revalidation
import Seisin.Types.BestFirst
import Seisin.Lib.Upkeep
import Seisin.Types.Interpretation
import Seisin.Types.Settlement
import Seisin.Types.Listings
import Seisin.Types.Maintenance
import Seisin.Types.Outcomes
import Seisin.Types.Exactness
import Seisin.Types.Submissions
import Seisin.Types.Interruptions
import Seisin.Types.Temporal
import Seisin.Types.Histories
import Seisin.Types.Assignments
import Seisin.Types.RankKeys
import Seisin.Storage.Delta
import Seisin.Storage.DatumLog
import Seisin.Storage.Recovery
import Seisin.Storage.Server
import Seisin.Storage.LogRefinement
import Seisin.Storage.Patches
import Seisin.Storage.Leftovers
import Seisin.Storage.RemoteStore
import Seisin.Storage.Cluster
import Seisin.Storage.Reached
import Seisin.Storage.Agreement
import Seisin.Storage.Readmission
import Seisin.Storage.Replicas
import Seisin.Storage.Retries
import Seisin.Storage.Installation
import Seisin.Storage.Halting
import Seisin.Protocol.Fields
import Seisin.Protocol.Operations
import Seisin.Protocol.Request
import Seisin.Protocol.Response
import Seisin.Protocol.StoreWire
import Seisin.Protocol.Canonical
import Seisin.Protocol.Framing
import Seisin.PeerLink
import Seisin.PeerLink.Placement
import Seisin.PeerLink.Resolution
import Seisin.Gossip
import Seisin.Gossip.Membership
import Seisin.Gossip.Loop
import Seisin.Gossip.Sequencing
import Seisin.Gossip.Agreement
import Seisin.Gossip.Departures
import Seisin.Gossip.Detection
import Seisin.Gossip.Monitoring
import Seisin.Gossip.Application
import Seisin.Gossip.Precedence
import Seisin.Gossip.Identity
import Seisin.Gossip.Wire
import Seisin.Migrate.Plan
import Seisin.Migrate.Listing
import Seisin.Migrate.Sources
import Seisin.Migrate.Transfer
import Seisin.Migrate.Driver
import Seisin.Migrate.Completeness
import Seisin.Migrate.Collections
import Seisin.Migrate.Creation
import Seisin.Migrate.Live
import Seisin.Migrate.Serving
import Seisin.Migrate.Tracking
import Seisin.Migrate.Lossless
import Seisin.Migrate.DirtyTail
import Seisin.Migrate.Rerun
import Seisin.Migrate.Identity
import Seisin.Lib.Forwarding
import Seisin.Node.Frontend
import Seisin.Types.Queries
import Seisin.Client
import Seisin.Client.Reads
