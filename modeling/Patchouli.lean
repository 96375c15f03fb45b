import Patchouli.Lib.Json
import Patchouli.Lib.Pointer
import Patchouli.Lib.Double
import Patchouli.Lib.JsonText
import Patchouli.Lib.Fallible
import Patchouli.Lib.Table
import Patchouli.Lib.Closure
import Patchouli.Lib.ThreeWay
import Patchouli.Lib.OrderedWaits
import Patchouli.Lib.Paging
import Patchouli.Lib.Window
import Patchouli.Model
import Patchouli.Provider
import Patchouli.Backend.Crdt
import Patchouli.Backend.Conflict
import Patchouli.Backend.Config
import Patchouli.Backend.Merge
import Patchouli.Backend.Unordered
import Patchouli.Backend.Candidate
import Patchouli.Backend.Query
import Patchouli.Backend.Instruction
import Patchouli.Backend.Fingerprint
import Patchouli.Backend.Provenance
import Patchouli.Backend.Genuine
import Patchouli.Backend.Publication
import Patchouli.Backend.Engine
import Patchouli.Sqlite.Db
import Patchouli.Sqlite.Read
import Patchouli.Sqlite.Frontiers
import Patchouli.Sqlite.WorkUnit
import Patchouli.Sqlite.CrdtStore
import Patchouli.Sqlite.Commit
import Patchouli.Sqlite.Retrieve
import Patchouli.Sqlite.Comparison
import Patchouli.Sqlite.Effect
import Patchouli.Sqlite.Invariant
import Patchouli.Sqlite.Runs
import Patchouli.Sqlite.Calls
import Patchouli.Sqlite.Publish
import Patchouli.Sqlite.Atomic
import Patchouli.Sqlite.Operation
import Patchouli.Sqlite.Identities
import Patchouli.Sqlite.Documents
import Patchouli.Sqlite.Alike
import Patchouli.Sqlite.Sweeps
import Patchouli.Sqlite.Lazy
import Patchouli.Sqlite.Signals
import Patchouli.Backend.Remote
import Patchouli.Sqlite.Log
import Patchouli.Sqlite.Served
import Patchouli.Sqlite.Overlay
import Patchouli.Sqlite.Matches
import Patchouli.Sqlite.TextSearch
import Patchouli.Sqlite.Paging
import Patchouli.Sqlite.Record
import Patchouli.Sqlite.Closing
import Patchouli.Sqlite.Batch
import Patchouli.Sqlite.Conflicted
import Patchouli.Sqlite.Sessions
import Patchouli.Sqlite.UnitHeads
import Patchouli.Sqlite.Undisturbed
import Patchouli.Sqlite.Origins
import Patchouli.Sqlite.Visible
import Patchouli.Sqlite.Landed
import Patchouli.Backend.Guarantees
import Patchouli.Backend.Branches
import Patchouli.Backend.Fallback
import Patchouli.World
import Patchouli.World.Effects
import Patchouli.World.Moves
import Patchouli.World.Origins
import Patchouli.World.Visible
import Patchouli.World.Stored
import Patchouli.World.Schema
import Patchouli.World.Acknowledged
import Patchouli.World.OwnVersions
import Patchouli.World.Failed
import Patchouli.World.Atomic
import Patchouli.World.Store
import Patchouli.World.Views
import Patchouli.World.Paging
import Patchouli.World.Cursors
import Patchouli.World.Informed
import Patchouli.World.ChangeLog
import Patchouli.Backend.ChangeStream
import Patchouli.World.Following
import Patchouli.World.Sessions
import Patchouli.World.Retries
import Patchouli.World.Conflicted
import Patchouli.World.Branches
import Patchouli.World.Resolving
import Patchouli.World.Remote
import Patchouli.Memory.Subscription
import Patchouli.Memory.Pipeline
import Patchouli.Memory.AtLeastOnce
import Patchouli.Backend.Hydration
import Patchouli.Backend.Locks
import Patchouli.Backend.Startup
import Patchouli.World.Read
import Patchouli.Artifact.Store
import Patchouli.Artifact.Download
import Patchouli.Artifact.Failures
import Patchouli.Server.Frames
import Patchouli.World.Lazy
import Patchouli.Backend.Policies
import Patchouli.Backend.Capabilities
import Patchouli.Backend.Controller
import Patchouli.Backend.ControlKeys
import Patchouli.Backend.Admission
import Patchouli.Backend.Router
import Patchouli.World.Routed
import Patchouli.Lib.Lines
import Patchouli.Server.Rpc
import Patchouli.Server.Client
import Patchouli.Server.Connection
import Patchouli.Server.Session
import Patchouli.Server.Settled
import Patchouli.Server.Registered
import Patchouli.Sqlite.Lifecycle
import Patchouli.World.Restarts
import Patchouli.World.Takeovers
import Patchouli.Lib.Chains
