import EventFlow.Arena
import EventFlow.Build
import EventFlow.Catalog
import EventFlow.Compile
import EventFlow.CompileLog
import EventFlow.Config.Basic
import EventFlow.Config.Document
import EventFlow.Config.Format
import EventFlow.Config.Store
import EventFlow.Decimal.Shortest
import EventFlow.Decimal.Text
import EventFlow.DependencyTree
import EventFlow.Document.Json
import EventFlow.Document.Node
import EventFlow.Document.Toml.Number
import EventFlow.Document.Toml.Printer
import EventFlow.Document.Toml.Reader
import EventFlow.Document.Toml.Table
import EventFlow.Document.Toml.Text
import EventFlow.Engine
import EventFlow.Error
import EventFlow.Files
import EventFlow.Host
import EventFlow.Id
import EventFlow.Launcher
import EventFlow.Library
import EventFlow.Lifecycle
import EventFlow.Main
import EventFlow.Message
import EventFlow.Module.Behaviour
import EventFlow.Module.Info
import EventFlow.Module.StandIn
import EventFlow.Order
import EventFlow.Packet
import EventFlow.PacketIo
import EventFlow.Param
import EventFlow.Path
import EventFlow.Pipeline
import EventFlow.Plan
import EventFlow.Predicate
import EventFlow.Present
import EventFlow.Processor.Accumulator
import EventFlow.Processor.NoiseFilter
import EventFlow.Processor.ScriptFilter
import EventFlow.Proofs.Arena.Above
import EventFlow.Proofs.Arena.Adding
import EventFlow.Proofs.Arena.Basic
import EventFlow.Proofs.Arena.Forest
import EventFlow.Proofs.Arena.Lowering
import EventFlow.Proofs.Arena.Merging
import EventFlow.Proofs.Arena.Pushing
import EventFlow.Proofs.Arena.Rounds
import EventFlow.Proofs.Arena.Settled
import EventFlow.Proofs.Arena.Shows
import EventFlow.Proofs.Arena.Sinking
import EventFlow.Proofs.Arena.Subtree
import EventFlow.Proofs.Attempts
import EventFlow.Proofs.Building
import EventFlow.Proofs.Callbacks
import EventFlow.Proofs.Compile.Accounts
import EventFlow.Proofs.Compile.Agreement
import EventFlow.Proofs.Compile.Arranged
import EventFlow.Proofs.Compile.Cycles
import EventFlow.Proofs.Compile.Errors
import EventFlow.Proofs.Compile.Fillers
import EventFlow.Proofs.Compile.Paths
import EventFlow.Proofs.Compile.Permuted
import EventFlow.Proofs.Compile.Rewired
import EventFlow.Proofs.Compile.Routing
import EventFlow.Proofs.Compile.Schedule
import EventFlow.Proofs.Compile.Sharing
import EventFlow.Proofs.Compile.Wired
import EventFlow.Proofs.Counting
import EventFlow.Proofs.Dependence
import EventFlow.Proofs.Engine.Briefing
import EventFlow.Proofs.Engine.Containment
import EventFlow.Proofs.Engine.Handling
import EventFlow.Proofs.Engine.Isolation
import EventFlow.Proofs.Engine.Layout
import EventFlow.Proofs.Engine.Replies
import EventFlow.Proofs.Engine.Resets
import EventFlow.Proofs.Engine.Safety
import EventFlow.Proofs.Engine.Settling
import EventFlow.Proofs.Engine.Slots
import EventFlow.Proofs.Engine.Starting
import EventFlow.Proofs.Engine.Turn
import EventFlow.Proofs.Engine.Typestate
import EventFlow.Proofs.Engine.Versions
import EventFlow.Proofs.Grammar
import EventFlow.Proofs.Halting
import EventFlow.Proofs.Host
import EventFlow.Proofs.Lifecycle
import EventFlow.Proofs.Order
import EventFlow.Proofs.Outputs
import EventFlow.Proofs.Parameters
import EventFlow.Proofs.Processor.Buffers
import EventFlow.Proofs.Processor.Filtered
import EventFlow.Proofs.Processor.Flags
import EventFlow.Proofs.Processor.History
import EventFlow.Proofs.Processor.Neighbours
import EventFlow.Proofs.Processor.Windows
import EventFlow.Proofs.Registry.Halving
import EventFlow.Proofs.Registry.Map
import EventFlow.Proofs.Registry.Ranked
import EventFlow.Proofs.Repair
import EventFlow.Proofs.Saving
import EventFlow.Proofs.Sink.Snapshots
import EventFlow.Proofs.Source.Timeline
import EventFlow.Proofs.Specs
import EventFlow.Proofs.Streams
import EventFlow.Proofs.Table
import EventFlow.Proofs.Tree.Chains
import EventFlow.Proofs.Tree.Depths
import EventFlow.Proofs.Tree.Edges
import EventFlow.Proofs.Tree.Merge
import EventFlow.Proofs.Tree.Places
import EventFlow.Proofs.Tree.Placing
import EventFlow.Proofs.Tree.Stream
import EventFlow.Proofs.Tree.Working
import EventFlow.Proofs.Wiring
import EventFlow.Random
import EventFlow.Registry
import EventFlow.Script.Eval
import EventFlow.Script.Operators
import EventFlow.Script.Parser
import EventFlow.Script.Simplify
import EventFlow.Script.Syntax
import EventFlow.Script.Token
import EventFlow.Script.Value
import EventFlow.Sink.Forwarder
import EventFlow.Sink.Statistics
import EventFlow.Source.Generator
import EventFlow.Source.Recording
import EventFlow.Streams
import EventFlow.Table
import EventFlow.Text.Blank
import EventFlow.Text.Hex
import EventFlow.Text.Printable
import EventFlow.Text.Quoted
import EventFlow.Wiring
import EventFlow.Word
