import Stencil.Argument
import Stencil.Command.Basic
import Stencil.Command.Run
import Stencil.Defect
import Stencil.Diagnostic
import Stencil.Environment.Basic
import Stencil.Environment.Manifest
import Stencil.Environment.Standard
import Stencil.Expansion.Context
import Stencil.Expansion.Fault
import Stencil.Expansion.Interpreter
import Stencil.Expansion.Library
import Stencil.Expansion.Machine
import Stencil.Expansion.Returns
import Stencil.Expansion.Scopes
import Stencil.Expansion.Value
import Stencil.Facts.Annotation
import Stencil.Facts.Basic
import Stencil.Facts.Resolution
import Stencil.Facts.Store
import Stencil.Json.Basic
import Stencil.Json.Reader
import Stencil.Json.Writer
import Stencil.Main
import Stencil.Number.Binary
import Stencil.Number.Read
import Stencil.Number.Shortest
import Stencil.Partition
import Stencil.Quotation.Frame
import Stencil.Quotation.Quoter
import Stencil.Quotation.WrappedCall
import Stencil.Registry
import Stencil.Reserved
import Stencil.Session
import Stencil.Source.Cursor
import Stencil.Source.Grammar
import Stencil.Source.Lexeme
import Stencil.Source.Parser
import Stencil.Source.Quoted
import Stencil.Source.Scanner
import Stencil.Span
import Stencil.Stage
import Stencil.Staging.Classifier
import Stencil.Staging.Context
import Stencil.Staging.Projection
import Stencil.Symbol
import Stencil.Table
import Stencil.Target
import Stencil.Text.Alphabetic
import Stencil.Text.Blank
import Stencil.Text.Escaped
import Stencil.Text.LetterCase
import Stencil.Text.Numeric
import Stencil.Text.Printable
import Stencil.Text.Ranges
import Stencil.Text.Slice
import Stencil.Tree.Ancestors
import Stencil.Tree.Basic
import Stencil.Tree.Build
import Stencil.Tree.Describe
import Stencil.Tree.Flatten
import Stencil.Tree.Kind
import Stencil.Tree.Layout
import Stencil.Tree.Render
import Stencil.TypeExpr
import Stencil.Proofs.Expansion.Residual
import Stencil.Proofs.Expansion.Frames
import Stencil.Proofs.Expansion.Following
import Stencil.Proofs.Quotation.Denotation
import Stencil.Proofs.Quotation.Simulation
import Stencil.Proofs.Quotation.Correctness
import Stencil.Proofs.Tree.Outline
import Stencil.Proofs.Source.Shape
import Stencil.Proofs.Source.Spelling
import Stencil.Proofs.Tree.Tidy
import Stencil.Proofs.Source.Printing
import Stencil.Proofs.Source.Reading
import Stencil.Proofs.Source.Lookahead
import Stencil.Proofs.Source.Alike
import Stencil.Proofs.Source.Parameters
import Stencil.Proofs.Source.Primaries
import Stencil.Proofs.Source.Expressions
import Stencil.Proofs.Source.Statements
import Stencil.Proofs.Source.RoundTrip
import Stencil.Proofs.Staging.Runs
import Stencil.Proofs.Staging.Coverage
import Stencil.Proofs.Session.Accepted
import Stencil.Proofs.Session.ControlFlow
import Stencil.Proofs.Facts.Annotated
import Stencil.Proofs.Tree.Shadowing
import Stencil.Proofs.Expansion.FreshNames
import Stencil.Proofs.Expansion.Computing
import Stencil.Proofs.Expansion.Loops
import Stencil.Proofs.Quotation.Names
import Stencil.Proofs.Quotation.Tame
import Stencil.Proofs.Quotation.Kept
import Stencil.Proofs.Quotation.Pieces
import Stencil.Proofs.Quotation.Naming
import Stencil.Proofs.Quotation.Building
import Stencil.Proofs.Quotation.Gathering
import Stencil.Proofs.Quotation.Hygiene
import Stencil.Proofs.Quotation.Unshadowed
import Stencil.Proofs.Quotation.Reification
import Stencil.Proofs.Session.Hygiene
import Stencil.Proofs.Staging.Marking
import Stencil.Proofs.Expansion.Settling
import Stencil.Proofs.Expansion.Straight
import Stencil.Proofs.Quotation.Program
import Stencil.Proofs.Quotation.Running
import Stencil.Proofs.Session.Termination
import Stencil.Proofs.Quotation.Spelled
import Stencil.Proofs.Session.Faithful
import Stencil.Proofs.Staging.Restamping
import Stencil.Proofs.Stopping
import Stencil.Proofs.Tree.Places
import Stencil.Proofs.Tree.Printable
import Stencil.Proofs.Facts.Resolving
import Stencil.Proofs.Tree.Suited
import Stencil.Proofs.Quotation.Sane
import Stencil.Proofs.Quotation.Suiting
import Stencil.Proofs.Quotation.Proceeding
import Stencil.Proofs.Quotation.Sound
import Stencil.Proofs.Session.Layout
import Stencil.Proofs.Source.Appending
import Stencil.Proofs.Source.Continuing
import Stencil.Proofs.Source.Extension
import Stencil.Proofs.Quotation.Misuse
import Stencil.Proofs.Quotation.Provided
import Stencil.Proofs.Session.WrappedCalls
import Stencil.Proofs.Staging.Jumps
import Stencil.Proofs.Session.Appended
import Stencil.Proofs.Staging.Queries
import Stencil.Proofs.Source.Tiling
import Stencil.Proofs.Session.Painted
import Stencil.Proofs.Expansion.NameHistory
import Stencil.Proofs.Tree.Flattening
import Stencil.Proofs.Expansion.Restoring
import Stencil.Proofs.Facts.LexicalNames
import Stencil.Proofs.Facts.Stamping
import Stencil.Proofs.Facts.TypeTexts
import Stencil.Proofs.Facts.Recorded
import Stencil.Proofs.Facts.Entities
import Stencil.Proofs.Source.Precedence
import Stencil.Proofs.Quotation.ReturnTypes
import Stencil.Proofs.Source.Fuel
import Stencil.Proofs.Source.Literals
import Stencil.Proofs.Quotation.Requests
import Stencil.Proofs.Quotation.Variables
import Stencil.Proofs.Expansion.Native
import Stencil.Proofs.Expansion.Guarded
import Stencil.Proofs.Quotation.Careful
import Stencil.Proofs.Quotation.Guarding
import Stencil.Proofs.Quotation.Outcomes
import Stencil.Proofs.Session.Enclosed
import Stencil.Proofs.Session.Safety
