import PascalTree.Arena
import PascalTree.Binary64
import PascalTree.Binary64.Literal
import PascalTree.Binary64.Shortest
import PascalTree.Diagram
import PascalTree.Doc.Basic
import PascalTree.Doc.Layout
import PascalTree.Event
import PascalTree.Fault
import PascalTree.Kind
import PascalTree.Node.Basic
import PascalTree.Node.Build
import PascalTree.Node.Diagram
import PascalTree.Node.Edit
import PascalTree.Node.Fold
import PascalTree.Node.Path
import PascalTree.Proofs.Diagram.Guides
import PascalTree.Proofs.Diagram.Outline
import PascalTree.Proofs.Layout.Alike
import PascalTree.Proofs.Layout.Arrangement
import PascalTree.Proofs.Layout.Basic
import PascalTree.Proofs.Layout.Cuts
import PascalTree.Proofs.Layout.Depth
import PascalTree.Proofs.Layout.Grouping
import PascalTree.Proofs.Layout.Lines
import PascalTree.Proofs.Layout.Nesting
import PascalTree.Proofs.Layout.PageColumns
import PascalTree.Proofs.Layout.Runs
import PascalTree.Proofs.Layout.Saturation
import PascalTree.Proofs.Layout.Whitespace
import PascalTree.Proofs.Layout.Widening
import PascalTree.Proofs.Node.Frame
import PascalTree.Proofs.Node.Height
import PascalTree.Proofs.Node.Labels
import PascalTree.Proofs.Node.Rewrite
import PascalTree.Proofs.Node.Shape
import PascalTree.Proofs.Node.Teardown
import PascalTree.Proofs.Node.View
import PascalTree.Proofs.Node.Walk
import PascalTree.Proofs.Reading.Boundary
import PascalTree.Proofs.Reading.Branches
import PascalTree.Proofs.Reading.Cues
import PascalTree.Proofs.Reading.Explicit
import PascalTree.Proofs.Reading.Fragment
import PascalTree.Proofs.Reading.Nearest
import PascalTree.Proofs.Reading.Number
import PascalTree.Proofs.Reading.Pairing
import PascalTree.Proofs.Reading.Productions
import PascalTree.Proofs.Reading.Reader
import PascalTree.Proofs.Reading.RoundTrip
import PascalTree.Proofs.Reading.Rules
import PascalTree.Proofs.Reading.Spells
import PascalTree.Proofs.Reading.Token
import PascalTree.Proofs.Session.Conservation
import PascalTree.Proofs.Session.Outcome
import PascalTree.Proofs.Sink.Delivery
import PascalTree.Proofs.Source.CallBreaks
import PascalTree.Proofs.Source.CallLine
import PascalTree.Proofs.Source.CleanLine
import PascalTree.Proofs.Source.Complete
import PascalTree.Proofs.Source.Composed
import PascalTree.Proofs.Source.Ending
import PascalTree.Proofs.Source.FirstWord
import PascalTree.Proofs.Source.Inline
import PascalTree.Proofs.Source.Interchange
import PascalTree.Proofs.Source.Levels
import PascalTree.Proofs.Source.LineState
import PascalTree.Proofs.Source.ListAppend
import PascalTree.Proofs.Source.NormalForm
import PascalTree.Proofs.Source.Payloads
import PascalTree.Proofs.Source.Plain
import PascalTree.Proofs.Source.Spelling
import PascalTree.Proofs.Source.Statement
import PascalTree.Proofs.Source.Woven
import PascalTree.Released
import PascalTree.Render
import PascalTree.Session
import PascalTree.Sink
import PascalTree.Source
import PascalTree.Style
import PascalTree.Symbol
