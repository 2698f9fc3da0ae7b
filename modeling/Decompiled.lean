import Decompiled.Annotations
import Decompiled.Arena.Basic
import Decompiled.Arena.Edit
import Decompiled.Arena.Remove
import Decompiled.Arena.Walk
import Decompiled.Attempt
import Decompiled.Batch
import Decompiled.Decimal.Double
import Decompiled.Decimal.Shortest
import Decompiled.Identifier.Escape
import Decompiled.Json.Byte
import Decompiled.Json.Fault
import Decompiled.Json.Number
import Decompiled.Json.Skip
import Decompiled.Json.Text
import Decompiled.KnownNames
import Decompiled.Log.Event
import Decompiled.Log.Setup
import Decompiled.Node.Argument
import Decompiled.Node.Basic
import Decompiled.Node.Index
import Decompiled.Pass.AssemblyAttributes
import Decompiled.Pass.Basic
import Decompiled.Pass.EmbeddedTypes
import Decompiled.Pass.EscapeIdentifiers
import Decompiled.Pipeline
import Decompiled.Proofs.Arena.Builders
import Decompiled.Proofs.Arena.Capacity
import Decompiled.Proofs.Arena.Census
import Decompiled.Proofs.Arena.Confined
import Decompiled.Proofs.Arena.Cut
import Decompiled.Proofs.Arena.History
import Decompiled.Proofs.Arena.Links
import Decompiled.Proofs.Arena.Order
import Decompiled.Proofs.Arena.Planting
import Decompiled.Proofs.Arena.PreOrder
import Decompiled.Proofs.Arena.Pruning
import Decompiled.Proofs.Arena.Reachable
import Decompiled.Proofs.Arena.Refusals
import Decompiled.Proofs.Arena.Removal
import Decompiled.Proofs.Arena.Roots
import Decompiled.Proofs.Arena.Siblings
import Decompiled.Proofs.Arena.Slots
import Decompiled.Proofs.Arena.StaleAttributes
import Decompiled.Proofs.Arena.Thinning
import Decompiled.Proofs.Arena.Traversal
import Decompiled.Proofs.Arena.Views
import Decompiled.Proofs.Arena.Walk
import Decompiled.Proofs.Arena.Wordless
import Decompiled.Proofs.Batch.Independence
import Decompiled.Proofs.Batch.Schedule
import Decompiled.Proofs.Batch.Solo
import Decompiled.Proofs.Batch.Steps
import Decompiled.Proofs.Identifier.Escaped
import Decompiled.Proofs.Identifier.Spelling
import Decompiled.Proofs.Identifier.Unescape
import Decompiled.Proofs.Identifier.Units
import Decompiled.Proofs.Json.Grammar
import Decompiled.Proofs.Json.Numbers
import Decompiled.Proofs.Json.Passing
import Decompiled.Proofs.Json.Strings
import Decompiled.Proofs.Pass.AssemblyAttributes
import Decompiled.Proofs.Pass.Collapse
import Decompiled.Proofs.Pass.CompilerWritten
import Decompiled.Proofs.Pass.Consistency
import Decompiled.Proofs.Pass.EmbeddedRoot
import Decompiled.Proofs.Pass.EmbeddedTypes
import Decompiled.Proofs.Pass.EscapeIdentifiers
import Decompiled.Proofs.Pass.Idempotence
import Decompiled.Proofs.Pass.Markers
import Decompiled.Proofs.Pass.Order
import Decompiled.Proofs.Pass.Progress
import Decompiled.Proofs.Pass.RemovedRoot
import Decompiled.Proofs.Pass.Renaming
import Decompiled.Proofs.Pass.Resumption
import Decompiled.Proofs.Pass.Settled
import Decompiled.Proofs.Pass.Tour
import Decompiled.Proofs.Pass.Visit
import Decompiled.Proofs.Run.Annotations
import Decompiled.Proofs.Run.Course
import Decompiled.Proofs.Run.Edits
import Decompiled.Proofs.Run.Failure
import Decompiled.Proofs.Run.History
import Decompiled.Proofs.Run.Journal
import Decompiled.Proofs.Run.Sequences
import Decompiled.Proofs.Run.Slots
import Decompiled.Proofs.Run.Tail
import Decompiled.Proofs.Run.Tally
import Decompiled.Proofs.Run.Textless
import Decompiled.Proofs.Run.Thinning
import Decompiled.Proofs.Run.Truncation
import Decompiled.Proofs.Run.Undisturbed
import Decompiled.Proofs.Run.Untimed
import Decompiled.Proofs.Run.Wordless
import Decompiled.Proofs.Run.Yields
import Decompiled.Proofs.Settings.Members
import Decompiled.Proofs.Settings.Values
import Decompiled.Proofs.Steps
import Decompiled.Run.Basic
import Decompiled.Run.Token
import Decompiled.Settings.Basic
import Decompiled.Settings.Reader
import Decompiled.SyntaxTree
import Decompiled.Text.Blank
import Decompiled.Text.Invisible
import Decompiled.Text.Quoted
import Decompiled.TreeError
