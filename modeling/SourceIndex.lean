import SourceIndex.Bytes
import SourceIndex.Command.Basic
import SourceIndex.Command.Index
import SourceIndex.Command.Line
import SourceIndex.Command.Show
import SourceIndex.Command.Stats
import SourceIndex.Compile.Command
import SourceIndex.Compile.Database
import SourceIndex.Cursor.File
import SourceIndex.Cursor.Kind
import SourceIndex.Cursor.Links
import SourceIndex.Cursor.Saved
import SourceIndex.Cursor.Tree
import SourceIndex.Cursor.Walk
import SourceIndex.Digest.Blake3
import SourceIndex.FileTree
import SourceIndex.Flag
import SourceIndex.Location
import SourceIndex.Lowering.Basic
import SourceIndex.Lowering.Names
import SourceIndex.Lowering.Rules
import SourceIndex.Lowering.State
import SourceIndex.Main
import SourceIndex.Outcome
import SourceIndex.Parse.Fault
import SourceIndex.Parse.File
import SourceIndex.Parse.Include
import SourceIndex.Parse.Options
import SourceIndex.Parse.Tree
import SourceIndex.Path
import SourceIndex.Pipeline.Cache
import SourceIndex.Pipeline.Index
import SourceIndex.Pipeline.Queue
import SourceIndex.Pipeline.Unit
import SourceIndex.Proofs.Cursor.Links
import SourceIndex.Proofs.Cursor.Preorder
import SourceIndex.Proofs.Cursor.Saved
import SourceIndex.Proofs.Cursor.Tree
import SourceIndex.Proofs.FileTree
import SourceIndex.Proofs.Lowering.Derivation
import SourceIndex.Proofs.Lowering.Preorder
import SourceIndex.Proofs.Lowering.Rules
import SourceIndex.Proofs.Parse.Preorder
import SourceIndex.Proofs.Pipeline.Coherence
import SourceIndex.Proofs.Pipeline.Unit
import SourceIndex.Proofs.Record.Extract
import SourceIndex.Proofs.Record.Stored
import SourceIndex.Proofs.Wire.RoundTrip
import SourceIndex.Proofs.Wire.Shape
import SourceIndex.Record.Basic
import SourceIndex.Record.Extract
import SourceIndex.Record.Stored
import SourceIndex.Settings.Basic
import SourceIndex.Settings.File
import SourceIndex.Store.Basic
import SourceIndex.Store.Derive
import SourceIndex.Store.File
import SourceIndex.Store.Key
import SourceIndex.Store.Saved
import SourceIndex.Text.Decimal
import SourceIndex.Text.Json
import SourceIndex.Text.Moment
import SourceIndex.Text.Pretty
import SourceIndex.Text.ShellWords
import SourceIndex.Text.Toml.Document
import SourceIndex.Text.Toml.Scalar
import SourceIndex.Text.Toml.Value
import SourceIndex.Wire.Envelope
import SourceIndex.Wire.Shape
import SourceIndex.Wire.Value
import SourceIndex.Proofs.Record.Truncation
import SourceIndex.Proofs.Cursor.Walk
import SourceIndex.Proofs.Record.Size
import SourceIndex.Proofs.Pipeline.Steps
import SourceIndex.Proofs.Pipeline.Reindex
import SourceIndex.Pipeline.Run
import SourceIndex.Proofs.Pipeline.Queue
import SourceIndex.Proofs.Pipeline.Run
import SourceIndex.Proofs.Pipeline.Isolation
import SourceIndex.Proofs.Pipeline.Trace
import SourceIndex.Proofs.Pipeline.Conservation
import SourceIndex.Proofs.Pipeline.Endings
import SourceIndex.Proofs.Lowering.Origin
import SourceIndex.Proofs.Lowering.Linking
import SourceIndex.Proofs.Lowering.Definitions
import SourceIndex.Proofs.Pipeline.Latest
import SourceIndex.Proofs.Lowering.History
import SourceIndex.Proofs.Lowering.Macros
import SourceIndex.Proofs.Lowering.References
import SourceIndex.Proofs.Lowering.Scopes
import SourceIndex.Proofs.Path
import SourceIndex.Proofs.Parse.Include
import SourceIndex.Proofs.Compile.Arguments
import SourceIndex.Proofs.Compile.Database
import SourceIndex.Proofs.Command.Show
import SourceIndex.Proofs.Compile.Range
import SourceIndex.Proofs.Store.Key
import SourceIndex.Proofs.Store.File
import SourceIndex.Proofs.Pipeline.InOrder
import SourceIndex.Proofs.Pipeline.Session
import SourceIndex.Proofs.Pipeline.Entries
import SourceIndex.Proofs.Command.Index
import SourceIndex.Proofs.Cursor.Reachable
import SourceIndex.Proofs.Cursor.Recursion
import SourceIndex.Proofs.Record.Contents
import SourceIndex.Proofs.Store.Reopen
import SourceIndex.Proofs.Store.History
import SourceIndex.Proofs.Lowering.Parametric
import SourceIndex.Proofs.Lowering.Nesting
import SourceIndex.Proofs.Parse.Nesting
import SourceIndex.Proofs.Path.Joined
import SourceIndex.Proofs.Compile.NormalForm
import SourceIndex.Proofs.Lowering.Calls
import SourceIndex.Proofs.Store.Recent
import SourceIndex.Proofs.Lowering.Frame
import SourceIndex.Proofs.Record.Schedule
import SourceIndex.Proofs.Pipeline.Codec
import SourceIndex.Proofs.Pipeline.Serving
