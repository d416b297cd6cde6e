import MixedModules.Chronicle
import MixedModules.Coercion
import MixedModules.Configuration
import MixedModules.Engine
import MixedModules.Evaluation.Imports
import MixedModules.Evaluation.Instantiation
import MixedModules.Evaluation.Traversal
import MixedModules.Execution.Calls
import MixedModules.Execution.Program
import MixedModules.Expression.Basic
import MixedModules.Expression.Meaning
import MixedModules.Expression.Transcript
import MixedModules.Fault
import MixedModules.Graph.Basic
import MixedModules.Graph.BinaryCycle
import MixedModules.Graph.Components
import MixedModules.Graph.Construction
import MixedModules.Link.Basic
import MixedModules.Link.Exports
import MixedModules.Link.Slots
import MixedModules.Number.Decimal
import MixedModules.Number.Double
import MixedModules.Number.Format
import MixedModules.Number.Layout
import MixedModules.Number.Shortest
import MixedModules.Proofs.Link.ExportReachability
import MixedModules.Proofs.Record.WellFormed
import MixedModules.Record.Basic
import MixedModules.Record.Validation
import MixedModules.Registry.Basic
import MixedModules.Registry.Loading
import MixedModules.Registry.Shelf
import MixedModules.Resource.Global
import MixedModules.Resource.Memory
import MixedModules.Resource.Table
import MixedModules.Scope
import MixedModules.Session.Basic
import MixedModules.Session.Step
import MixedModules.Signature
import MixedModules.Specifier.Directory
import MixedModules.Specifier.Lexical
import MixedModules.Specifier.Path
import MixedModules.Specifier.Resolver
import MixedModules.Store.Basic
import MixedModules.Store.Conformance
import MixedModules.Store.Operation
import MixedModules.Store.Slot
import MixedModules.Text.Blank
import MixedModules.Text.Hidden
import MixedModules.Text.Quoted
import MixedModules.Toml.Document
import MixedModules.Toml.Node
import MixedModules.Toml.Numeral
import MixedModules.Toml.Reader
import MixedModules.Toml.Text
import MixedModules.Value
import MixedModules.Proofs.Graph.Components
import MixedModules.Proofs.Graph.BinaryCycle
import MixedModules.Proofs.Registry.Growth
import MixedModules.Proofs.Graph.Building
import MixedModules.Proofs.Registry.Supply
import MixedModules.Proofs.Graph.Breadth
import MixedModules.Proofs.Graph.Rounds
import MixedModules.Proofs.Graph.Settling
import MixedModules.Proofs.Registry.Linkage
import MixedModules.Proofs.Link.Linking
import MixedModules.Proofs.Evaluation.PostOrder
import MixedModules.Proofs.Evaluation.Simulation
import MixedModules.Proofs.Store.Conformance
import MixedModules.Proofs.Store.Agreement
import MixedModules.Proofs.Execution.Ending
import MixedModules.Proofs.Execution.Passage
import MixedModules.Proofs.Store.Soundness
import MixedModules.Proofs.Evaluation.Body
import MixedModules.Proofs.Evaluation.Segments
import MixedModules.Proofs.Evaluation.Instantiation
import MixedModules.Proofs.Link.Allocation
import MixedModules.Proofs.Link.Housing
import MixedModules.Proofs.Link.Resolvability
import MixedModules.Proofs.Link.Deciding
import MixedModules.Proofs.Evaluation.Outcome
import MixedModules.History
import MixedModules.Proofs.History.Orderly
import MixedModules.Proofs.History.Progress
import MixedModules.Proofs.History.Building
import MixedModules.Proofs.Evaluation.Descent
import MixedModules.Proofs.History.Reach
import MixedModules.Proofs.Evaluation.Failure
import MixedModules.Proofs.History.Order
import MixedModules.Proofs.History.Linking
import MixedModules.Proofs.History.Typing
import MixedModules.Proofs.Link.Sharing
import MixedModules.Proofs.Link.Judging
import MixedModules.Proofs.Graph.Renaming
import MixedModules.Proofs.History.Incremental
import MixedModules.Proofs.History.Success
import MixedModules.Proofs.Graph.Outline
import MixedModules.Proofs.History.Rebuilding
import MixedModules.Proofs.Evaluation.Permanence
import MixedModules.Proofs.Evaluation.Filling
import MixedModules.Proofs.Evaluation.Finishing
import MixedModules.Proofs.Link.Reserving
import MixedModules.Proofs.History.Durable
import MixedModules.Proofs.History.Equipping
import MixedModules.Proofs.History.Snapshot
import MixedModules.Proofs.Link.Wiring
import MixedModules.Proofs.History.Identity
import MixedModules.Proofs.Link.Beginning
import MixedModules.Proofs.Link.Namespaces
import MixedModules.Proofs.Evaluation.Moves
import MixedModules.Proofs.Evaluation.Writing
import MixedModules.Proofs.Evaluation.Entering
import MixedModules.Proofs.Evaluation.Keeping
import MixedModules.Proofs.Evaluation.Publishing
import MixedModules.Proofs.History.Steps
import MixedModules.Proofs.History.Lifecycle
import MixedModules.Proofs.History.Coherence
import MixedModules.Proofs.History.Publication
import MixedModules.Proofs.History.Entanglement
import MixedModules.Proofs.History.Direct
import MixedModules.Proofs.Graph.Condensation
import MixedModules.Proofs.Registry.Lookup
import MixedModules.Proofs.History.Namespaces
import MixedModules.Proofs.History.Distinct
import MixedModules.Proofs.Concurrency.Traffic
import MixedModules.Proofs.Concurrency.Guards
import MixedModules.Proofs.Concurrency.Standing
import MixedModules.Proofs.Concurrency.Claims
import MixedModules.Proofs.Concurrency.Alone
import MixedModules.Proofs.Concurrency.Intake
import MixedModules.Proofs.Concurrency.Coalescing
import MixedModules.Proofs.History.Instantiation
import MixedModules.Proofs.Execution.Signatures
import MixedModules.Proofs.History.Calls
import MixedModules.Proofs.Link.Layout
import MixedModules.Proofs.History.Shadowing
import MixedModules.Proofs.History.Observing
import MixedModules.Proofs.Store.Sight
import MixedModules.Proofs.Store.Genuine
import MixedModules.Proofs.Execution.Honesty
import MixedModules.Proofs.Evaluation.Honesty
import MixedModules.Proofs.Evaluation.Observing
import MixedModules.Proofs.History.Honesty
import MixedModules.Proofs.Specifier.Segments
import MixedModules.Proofs.Specifier.Canonical
import MixedModules.Proofs.Resource.Memory
import MixedModules.Proofs.Store.Objects
import MixedModules.Proofs.Store.Bytes
import MixedModules.Proofs.Store.Lasting
import MixedModules.Proofs.Evaluation.Evolving
import MixedModules.Proofs.Link.Inertness
import MixedModules.Proofs.History.Handles
import MixedModules.Proofs.Number.Exactness
import MixedModules.Proofs.Number.Wrapping
import MixedModules.Proofs.Number.Numerals
import MixedModules.Proofs.Number.Texts
import MixedModules.Proofs.History.Numbers
