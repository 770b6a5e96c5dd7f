import Juxta.Main
import Juxta.Command.Launch
import Juxta.Editor.Session
import Juxta.Folder.Program
import Juxta.Stream
import Juxta.Token.Lexer
import Juxta.Proofs.Token.Lexeme
import Juxta.Proofs.Token.Sequence
import Juxta.Proofs.Token.Position
import Juxta.Proofs.Token.Factorisation
import Juxta.Proofs.Token.Tiling
import Juxta.Proofs.Stream.Refinement
import Juxta.Proofs.Diff.Script
import Juxta.Diff.Patch
import Juxta.Proofs.Diff.Hunks
import Juxta.Proofs.Diff.Reading
import Juxta.Proofs.Diff.Usable
import Juxta.Proofs.Expr.Nodes
import Juxta.Proofs.Expr.Same
import Juxta.Proofs.Expr.Signs
import Juxta.Proofs.Grammar.Derivation
import Juxta.Proofs.Grammar.Supply
import Juxta.Proofs.Grammar.Excerpt
import Juxta.Proofs.Grammar.NormalForm
import Juxta.Proofs.Grammar.Account
import Juxta.Proofs.Grammar.Completion
import Juxta.Proofs.Grammar.Completeness
import Juxta.Proofs.Decimal.ReadBack
import Juxta.Proofs.Decimal.Range
import Juxta.Proofs.Decimal.Positional
import Juxta.Proofs.Layout.Writing
import Juxta.Proofs.Layout.Shapes
import Juxta.Proofs.Layout.Nesting
import Juxta.Proofs.Layout.Reading
import Juxta.Proofs.Layout.Blame
import Juxta.Proofs.Layout.RoundTrip
import Juxta.Proofs.Layout.Formatting
import Juxta.Proofs.Layout.Canonical
import Juxta.Proofs.Grammar.Refusal
import Juxta.Proofs.Expr.Outline
import Juxta.Proofs.Grammar.Outline
import Juxta.Proofs.Grammar.Fault
import Juxta.Proofs.Grammar.Demand
import Juxta.Proofs.Grammar.Brackets
import Juxta.Proofs.Grammar.Unclosed
import Juxta.Proofs.Grammar.Context
import Juxta.Proofs.Grammar.Fragment
import Juxta.Proofs.Grammar.Juxtaposition
import Juxta.Proofs.Grammar.Enclosure
import Juxta.Proofs.Editor.Replacement
import Juxta.Proofs.Editor.Answers
import Juxta.Proofs.Editor.Publication
import Juxta.Proofs.Text.Units
import Juxta.Proofs.Grammar.Offence
import Juxta.Proofs.Editor.Marking
import Juxta.Proofs.Editor.LineEnds
import Juxta.Proofs.Editor.Outline
import Juxta.Proofs.Layout.Pieces
import Juxta.Proofs.Layout.Assembly
import Juxta.Proofs.Layout.Returns
import Juxta.Proofs.Folder.Writing
import Juxta.Proofs.Command.Modes
import Juxta.Proofs.Command.WriteBack
import Juxta.Proofs.Command.Status
import Juxta.Proofs.Layout.Independence
import Juxta.Proofs.Layout.Lines
import Juxta.Proofs.Layout.Flat
import Juxta.Proofs.Listing.Written
import Juxta.Proofs.Listing.Injective
import Juxta.Proofs.Grammar.Meaning
import Juxta.Proofs.Stream.Lexer
import Juxta.Proofs.Token.Delivery
import Juxta.Grammar.Nesting
import Juxta.Proofs.Grammar.Nesting
import Juxta.Grammar.Frames
import Juxta.Proofs.Grammar.Frames
import Juxta.Proofs.Grammar.Guard
import Juxta.Proofs.Grammar.Overflow
import Juxta.Proofs.Layout.Depth
import Juxta.Proofs.Layout.Growth
