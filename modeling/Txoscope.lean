import Txoscope.Lib.Dict
import Txoscope.Lib.Greedy
import Txoscope.Lib.Cover
import Txoscope.Lib.Pointwise
import Txoscope.Lib.Program
import Txoscope.Lib.Histories
import Txoscope.Lib.Overlap
import Txoscope.Lib.Faults
import Txoscope.Lib.Text
import Txoscope.Lib.Table
import Txoscope.Lib.Transaction
import Txoscope.Core.Basic
import Txoscope.Core.Utxo
import Txoscope.Core.Operation
import Txoscope.Core.SelectionSpec
import Txoscope.Core.StateStore
import Txoscope.Core.Reconciliation
import Txoscope.Core.Ledger
import Txoscope.Core.Moves
import Txoscope.Memory.Store
import Txoscope.Memory.Refinement
import Txoscope.Core.Ownership
import Txoscope.Core.Selector
import Txoscope.Core.Orchestrator
import Txoscope.Core.Lifecycle
import Txoscope.Core.Calls
import Txoscope.Core.UtxoStatus
import Txoscope.Memory.Runs
import Txoscope.Memory.Safety
import Txoscope.Memory.Enforcement
import Txoscope.Memory.Leaving
import Txoscope.Memory.Commit
import Txoscope.Memory.Recovery
import Txoscope.Memory.Rejecting
import Txoscope.Memory.Proposals
import Txoscope.Memory.Orderly
import Txoscope.Memory.Usable
import Txoscope.Memory.Sending
import Txoscope.Core.AssetSelection
import Txoscope.Core.AssetPolicy
import Txoscope.Service.Facade
import Txoscope.Service.Runs
import Txoscope.Service.Reserving
import Txoscope.Service.Expiry
import Txoscope.Service.Leases
import Txoscope.Service.Cleanup
import Txoscope.Service.Assets
import Txoscope.Service.Choosing
import Txoscope.Service.Repeating
import Txoscope.Service.Failing
import Txoscope.Service.FirstAvailable
import Txoscope.Service.Restoring
import Txoscope.Service.Corruption
import Txoscope.Core.Planning
import Txoscope.Core.Delayed
import Txoscope.Core.Contradictions
import Txoscope.Memory.Reconciling
import Txoscope.Service.Overlap
import Txoscope.Service.Mixing
import Txoscope.Service.Preparing
import Txoscope.Service.Serialising
import Txoscope.Memory.Faults
import Txoscope.Core.Consistency
import Txoscope.Core.Restoring
import Txoscope.Core.Holding
import Txoscope.Sim.Invariants
import Txoscope.Sqlite.Codec
import Txoscope.Sqlite.Rows
import Txoscope.Sqlite.Database
import Txoscope.Sqlite.Store
import Txoscope.Sqlite.Connections
import Txoscope.Sqlite.Intents
import Txoscope.Sqlite.Ticks
import Txoscope.Sqlite.Accounts
import Txoscope.Sqlite.Representation
import Txoscope.Sqlite.Refinement
import Txoscope.Core.Topology
import Txoscope.Service.Topology
import Txoscope.Sqlite.Backends
import Txoscope.Lib.Contracts
import Txoscope.Core.Discipline
import Txoscope.Service.Discipline
import Txoscope.Core.Racing
import Txoscope.Core.Exclusive
import Txoscope.Memory.Exclusive
import Txoscope.Sqlite.Moves
import Txoscope.Sqlite.Sharing
import Txoscope.Sqlite.Exclusive
import Txoscope.Core.Undoing
import Txoscope.Sqlite.Observing
import Txoscope.Lib.Relational
import Txoscope.Sqlite.Schema
import Txoscope.Sqlite.Growing
import Txoscope.Sqlite.Opening
import Txoscope.Sqlite.Files
import Txoscope.Lib.Simulation
import Txoscope.Sqlite.Simulation
import Txoscope.Sqlite.Writes
import Txoscope.Sqlite.Upgrades
