import Flowgraph.Decl.Basic
import Flowgraph.Decl.Check
import Flowgraph.Decl.Compile
import Flowgraph.Decl.Error
import Flowgraph.Decl.Form
import Flowgraph.Decl.Place
import Flowgraph.Decl.Read
import Flowgraph.Decl.Scan
import Flowgraph.Decl.Token
import Flowgraph.Engine.Advance
import Flowgraph.Engine.Basic
import Flowgraph.Engine.Conditions
import Flowgraph.Engine.Config
import Flowgraph.Engine.Error
import Flowgraph.Engine.Gates
import Flowgraph.Engine.Invoker
import Flowgraph.Engine.Lease
import Flowgraph.Engine.Run
import Flowgraph.Engine.Select
import Flowgraph.Engine.Settings
import Flowgraph.Engine.Store
import Flowgraph.Graph.Basic
import Flowgraph.Graph.Build
import Flowgraph.Graph.Draft
import Flowgraph.Graph.Error
import Flowgraph.Graph.Failure
import Flowgraph.Graph.Form
import Flowgraph.Graph.Reach
import Flowgraph.Graph.Workflow
import Flowgraph.Guard.Error
import Flowgraph.Guard.Evaluate
import Flowgraph.Guard.Operand
import Flowgraph.Guard.Quotes
import Flowgraph.Ids
import Flowgraph.Instance.Basic
import Flowgraph.Instance.Form
import Flowgraph.Json.Basic
import Flowgraph.Json.Number
import Flowgraph.Json.Reader
import Flowgraph.Json.Record
import Flowgraph.Json.Writer
import Flowgraph.Keyed
import Flowgraph.Moment
import Flowgraph.Number.Binary64
import Flowgraph.Number.Counter
import Flowgraph.Number.Decimal
import Flowgraph.Number.Range
import Flowgraph.Number.Shortest
import Flowgraph.Proofs.Decl.Agreement
import Flowgraph.Proofs.Decl.Clauses
import Flowgraph.Proofs.Decl.Drafting
import Flowgraph.Proofs.Decl.GivenIds
import Flowgraph.Proofs.Decl.Grammar
import Flowgraph.Proofs.Decl.Phrases
import Flowgraph.Proofs.Decl.Pieces
import Flowgraph.Proofs.Decl.Recovery
import Flowgraph.Proofs.Decl.Rendering
import Flowgraph.Proofs.Decl.Sentences
import Flowgraph.Proofs.Decl.Words
import Flowgraph.Proofs.Engine.Beside
import Flowgraph.Proofs.Engine.Calls
import Flowgraph.Proofs.Engine.Commit
import Flowgraph.Proofs.Engine.Leases
import Flowgraph.Proofs.Engine.Selection
import Flowgraph.Proofs.Engine.WriteBack
import Flowgraph.Proofs.Engine.Writes
import Flowgraph.Proofs.Flow.Acyclic
import Flowgraph.Proofs.Flow.Called
import Flowgraph.Proofs.Flow.Confined
import Flowgraph.Proofs.Flow.Counts
import Flowgraph.Proofs.Flow.EntryActions
import Flowgraph.Proofs.Flow.FiringOrder
import Flowgraph.Proofs.Flow.Joins
import Flowgraph.Proofs.Flow.Kept
import Flowgraph.Proofs.Flow.Orderly
import Flowgraph.Proofs.Flow.SplitRule
import Flowgraph.Proofs.Flow.Splits
import Flowgraph.Proofs.Flow.Termination
import Flowgraph.Proofs.Graph.Canonical
import Flowgraph.Proofs.Graph.Drafts
import Flowgraph.Proofs.Graph.Ends
import Flowgraph.Proofs.Graph.Growth
import Flowgraph.Proofs.Graph.Searches
import Flowgraph.Proofs.Guard.Decomposition
import Flowgraph.Proofs.Guard.Equality
import Flowgraph.Proofs.Guard.Meaning
import Flowgraph.Proofs.Guard.Offsets
import Flowgraph.Proofs.Guard.Operands
import Flowgraph.Proofs.Guard.Outside
import Flowgraph.Proofs.Guard.Resolution
import Flowgraph.Proofs.Guard.Terms
import Flowgraph.Proofs.Instance.Changes
import Flowgraph.Proofs.Instance.Rollback
import Flowgraph.Proofs.Instance.Shape
import Flowgraph.Proofs.Json.Instances
import Flowgraph.Proofs.Json.Merging
import Flowgraph.Proofs.Json.Records
import Flowgraph.Proofs.Json.Workflows
import Flowgraph.Proofs.Lifecycle.Dealings
import Flowgraph.Proofs.Lifecycle.Endings
import Flowgraph.Proofs.Lifecycle.Invariant
import Flowgraph.Proofs.Lifecycle.Ledger
import Flowgraph.Proofs.Limits.Alike
import Flowgraph.Proofs.Limits.Cuts
import Flowgraph.Proofs.Limits.Rest
import Flowgraph.Proofs.Listing
import Flowgraph.Proofs.Moments
import Flowgraph.Proofs.Ranks
import Flowgraph.Proofs.Run.Atomicity
import Flowgraph.Proofs.Run.Beside
import Flowgraph.Proofs.Run.Conduct
import Flowgraph.Proofs.Run.Context
import Flowgraph.Proofs.Run.Effects
import Flowgraph.Proofs.Run.Evolution
import Flowgraph.Proofs.Run.Log
import Flowgraph.Proofs.Run.Passes
import Flowgraph.Proofs.Run.Ready
import Flowgraph.Proofs.Run.Reports
import Flowgraph.Proofs.Run.Untold
import Flowgraph.Proofs.System.Basic
import Flowgraph.Proofs.System.Changes
import Flowgraph.Proofs.System.Current
import Flowgraph.Proofs.System.Histories
import Flowgraph.Proofs.System.Leasing
import Flowgraph.Proofs.System.Serial
import Flowgraph.Proofs.System.Slots
import Flowgraph.Proofs.System.Stages
import Flowgraph.Proofs.System.Turns
import Flowgraph.Proofs.System.Versions
import Flowgraph.Proofs.Text.Slices
import Flowgraph.Proofs.Text.Trim
import Flowgraph.Repeat
import Flowgraph.Text.Blank
import Flowgraph.Text.Quoted
import Flowgraph.Text.Unmarked
import Flowgraph.Toml.Basic
import Flowgraph.Toml.Reader
import Flowgraph.Toml.Scalar
