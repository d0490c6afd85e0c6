import FileDepot.Address
import FileDepot.Buckets
import FileDepot.Bytes
import FileDepot.Call
import FileDepot.Cells
import FileDepot.Chain
import FileDepot.CommandLine
import FileDepot.Config.Basic
import FileDepot.Config.Decode
import FileDepot.Config.Load
import FileDepot.Decimal.Binary64
import FileDepot.Decimal.Shortest
import FileDepot.Disconnect
import FileDepot.File
import FileDepot.Folder
import FileDepot.Frame
import FileDepot.Hash.Sha256
import FileDepot.Hash.Xxh3
import FileDepot.Main
import FileDepot.Placement
import FileDepot.Policy
import FileDepot.Proofs.Buckets.Spread
import FileDepot.Proofs.Chain.Order
import FileDepot.Proofs.Chain.Slab
import FileDepot.Proofs.Config.Bounds
import FileDepot.Proofs.Config.Running
import FileDepot.Proofs.Frame.Chunks
import FileDepot.Proofs.Frame.Growth
import FileDepot.Proofs.Frame.Parse
import FileDepot.Proofs.Frame.Sink
import FileDepot.Proofs.Placement.Evenness
import FileDepot.Proofs.Policy.Choice
import FileDepot.Proofs.Server.Containment
import FileDepot.Proofs.Server.Holds
import FileDepot.Proofs.Server.InOrder
import FileDepot.Proofs.Server.Interleaving
import FileDepot.Proofs.Server.Ledger
import FileDepot.Proofs.Server.Posting
import FileDepot.Proofs.Server.Reception
import FileDepot.Proofs.Server.Release
import FileDepot.Proofs.Server.Replay
import FileDepot.Proofs.Server.Replying
import FileDepot.Proofs.Server.Rounds
import FileDepot.Proofs.Server.Serving
import FileDepot.Proofs.Server.Stopping
import FileDepot.Proofs.Store.Apart
import FileDepot.Proofs.Store.Budget
import FileDepot.Proofs.Store.Conservation
import FileDepot.Proofs.Store.Counters
import FileDepot.Proofs.Store.Effect
import FileDepot.Proofs.Store.Ending
import FileDepot.Proofs.Store.Eviction
import FileDepot.Proofs.Store.Exclusion
import FileDepot.Proofs.Store.Flat
import FileDepot.Proofs.Store.Layout
import FileDepot.Proofs.Store.Limits
import FileDepot.Proofs.Store.Locks
import FileDepot.Proofs.Store.Minimality
import FileDepot.Proofs.Store.Refinement
import FileDepot.Proofs.Store.Refusal
import FileDepot.Proofs.Store.Releasing
import FileDepot.Proofs.Store.Run
import FileDepot.Proofs.Store.Tracking
import FileDepot.Proofs.Store.Victims
import FileDepot.Proofs.Store.Visit
import FileDepot.Proofs.Store.Walk
import FileDepot.Proofs.Toml.Integers
import FileDepot.Proofs.Wire.Acceptance
import FileDepot.Proofs.Wire.Conversation
import FileDepot.Proofs.Wire.Delivery
import FileDepot.Proofs.Wire.Grammar
import FileDepot.Proofs.Wire.Requests
import FileDepot.Proofs.Wire.Responses
import FileDepot.Request
import FileDepot.Response
import FileDepot.Server.Basic
import FileDepot.Server.Clients
import FileDepot.Server.Duplex
import FileDepot.Server.Receiving
import FileDepot.Server.Working
import FileDepot.Store.Basic
import FileDepot.Store.Cursor
import FileDepot.Store.Operation
import FileDepot.Store.Summary
import FileDepot.Text.Quoted
import FileDepot.Text.Unseen
import FileDepot.Toml.Document
import FileDepot.Toml.Quoted
import FileDepot.Toml.Scalar
import FileDepot.Toml.Value
import FileDepot.Wire
