import ByteTape.Artifact
import ByteTape.Build
import ByteTape.Bytes
import ByteTape.Command.Options
import ByteTape.Command.Run
import ByteTape.Count
import ByteTape.Digest
import ByteTape.Disk
import ByteTape.Expansion
import ByteTape.Item
import ByteTape.Item.Read
import ByteTape.Json.Read
import ByteTape.Json.Value
import ByteTape.Json.Write
import ByteTape.Logbook
import ByteTape.Machine.Basic
import ByteTape.Machine.Run
import ByteTape.Machine.Tape
import ByteTape.Main
import ByteTape.Moment
import ByteTape.Op
import ByteTape.Patch.Hunk
import ByteTape.Patch.Segment
import ByteTape.Path
import ByteTape.Place
import ByteTape.Program
import ByteTape.Proofs.Artifact
import ByteTape.Proofs.Balance
import ByteTape.Proofs.Block
import ByteTape.Proofs.Expansion.Cache
import ByteTape.Proofs.Expansion.Cycles
import ByteTape.Proofs.Expansion.Inclusion
import ByteTape.Proofs.Item.Shape
import ByteTape.Proofs.Scope.Bodies
import ByteTape.Proofs.Scope.Growth
import ByteTape.Proofs.Scope.Walks
import ByteTape.Proofs.Steps
import ByteTape.Proofs.Structured
import ByteTape.Proofs.Text.Numeral
import ByteTape.Report
import ByteTape.Scope.Basic
import ByteTape.Scope.Build
import ByteTape.Scope.Graph
import ByteTape.Scope.Outline
import ByteTape.Scope.Walk
import ByteTape.Session
import ByteTape.Session.History
import ByteTape.Signature
import ByteTape.Signature.Armor
import ByteTape.Signature.Element
import ByteTape.Signature.Key
import ByteTape.Signature.Padding
import ByteTape.Store
import ByteTape.Text.Blank
import ByteTape.Text.Digit
import ByteTape.Text.Hex
import ByteTape.Text.Letter
import ByteTape.Text.Numeral
import ByteTape.Text.Printable
import ByteTape.Text.Quoted
import ByteTape.Text.Range
import ByteTape.Text.Utf8
import ByteTape.Token
import ByteTape.Token.Scan
import ByteTape.Proofs.Scope.Arena
import ByteTape.Proofs.Text.Position
import ByteTape.Proofs.Token.Places
import ByteTape.Proofs.Expansion.Origins
import ByteTape.Proofs.Build.SourceMap
import ByteTape.Proofs.Scope.Failures
import ByteTape.Proofs.Build.Failures
import ByteTape.Proofs.Token.Spelling
import ByteTape.Proofs.Item.Printing
import ByteTape.Proofs.Machine.Turns
import ByteTape.Proofs.Machine.Invariant
import ByteTape.Proofs.Item.Declarations
import ByteTape.Proofs.Scope.Address
import ByteTape.Proofs.Scope.Collects
import ByteTape.Proofs.Build.Copies
import ByteTape.Proofs.Build.Order
import ByteTape.Proofs.Build.Library
import ByteTape.Proofs.Build.Insertion
import ByteTape.Proofs.Build.Imports
import ByteTape.Proofs.Machine.Markers
import ByteTape.Proofs.Build.Rendering
import ByteTape.Proofs.Token.Layout
import ByteTape.Proofs.Machine.Budgets
import ByteTape.Proofs.Machine.Feeding
import ByteTape.Proofs.Disk
import ByteTape.Proofs.Machine.Places
import ByteTape.Proofs.Command.Export
import ByteTape.Proofs.Patch.Segments
import ByteTape.Proofs.Patch.Hunks
import ByteTape.Proofs.Patch.Reading
import ByteTape.Proofs.Bracket.Matching
import ByteTape.Proofs.Bracket.Blame
import ByteTape.Proofs.Text.Decimal
import ByteTape.Proofs.Session.History
import ByteTape.Proofs.Session.Turns
import ByteTape.Proofs.Session.Kept
import ByteTape.Proofs.Scope.Listing
import ByteTape.Proofs.Session.Survival
import ByteTape.Proofs.Artifact.Damage
import ByteTape.Proofs.Scope.Frame
import ByteTape.Proofs.Path
import ByteTape.Proofs.Scope.Naming
import ByteTape.Proofs.Machine.Passage
import ByteTape.Proofs.Machine.Texts
import ByteTape.Proofs.Machine.Tracing
import ByteTape.Proofs.Machine.Displacement
import ByteTape.Proofs.Build.Plain
import ByteTape.Proofs.Item.Flattening
import ByteTape.Proofs.Token.Ending
import ByteTape.Proofs.Token.Spacing
import ByteTape.Proofs.Token.Paths
import ByteTape.Proofs.Item.Relocation
import ByteTape.Proofs.Item.Joining
import ByteTape.Proofs.Token.Runs
import ByteTape.Proofs.Item.Grammar
import ByteTape.Proofs.Scope.Trail
import ByteTape.Proofs.Scope.Traversal
import ByteTape.Proofs.Scope.Definitions
import ByteTape.Proofs.Scope.Sequence
import ByteTape.Proofs.Scope.Graph
import ByteTape.Proofs.Text.Utf8
import ByteTape.Proofs.Store
import ByteTape.Proofs.Store.Kinds
import ByteTape.Proofs.Machine.Zeros
import ByteTape.Proofs.Text.Hex
import ByteTape.Proofs.Text.Lines
import ByteTape.Proofs.Machine.Dumps
import ByteTape.Proofs.Text.Decoding
import ByteTape.Proofs.Store.Undecodable
import ByteTape.Proofs.Json.RoundTrip
import ByteTape.Proofs.Logbook
