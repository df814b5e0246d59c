import RadixScript.CommandLine.Arguments
import RadixScript.CommandLine.Command
import RadixScript.CommandLine.Path
import RadixScript.Compile
import RadixScript.Decimal.Binary64
import RadixScript.Decimal.Display
import RadixScript.Decimal.Integer
import RadixScript.Decimal.Layout
import RadixScript.Decimal.Shortest
import RadixScript.Diagnostic
import RadixScript.Fault
import RadixScript.Literal
import RadixScript.Main
import RadixScript.Numeral.Arithmetic
import RadixScript.Numeral.Basic
import RadixScript.Numeral.Reading
import RadixScript.Prompt
import RadixScript.Run.Eval
import RadixScript.Run.Input
import RadixScript.Run.Machine
import RadixScript.Run.Native
import RadixScript.Scopes
import RadixScript.Session
import RadixScript.Terminal
import RadixScript.Text.Blank
import RadixScript.Text.DecimalDigit
import RadixScript.Text.Lines
import RadixScript.Text.Printable
import RadixScript.Text.Quoted
import RadixScript.Text.UpperCase
import RadixScript.Token.Basic
import RadixScript.Token.Piece
import RadixScript.Token.Scan
import RadixScript.Tree.Attempt
import RadixScript.Tree.Basic
import RadixScript.Tree.ExprParser
import RadixScript.Tree.Resolve
import RadixScript.Tree.StmtParser
import RadixScript.Value.Basic
import RadixScript.Value.Equality
import RadixScript.Value.Operator
import RadixScript.Value.Radix
import RadixScript.Proofs.Decimals.Integers
import RadixScript.Proofs.Decimals.Ranks
import RadixScript.Proofs.Decimals.Grids
import RadixScript.Proofs.Decimals.Shortest
import RadixScript.Proofs.Decimals.Written
import RadixScript.Proofs.Decimals.Magnitude
import RadixScript.Proofs.Decimals.Reading
import RadixScript.Proofs.Decimals.Display
import RadixScript.Proofs.Grammar.Basic
import RadixScript.Proofs.Grammar.Soundness
import RadixScript.Proofs.Grammar.Completeness
import RadixScript.Proofs.Scoping.Growth
import RadixScript.Proofs.Scoping.Watch
import RadixScript.Proofs.Scoping.Mirror
import RadixScript.Proofs.Scoping.Sheltered
import RadixScript.Proofs.Scoping.Inert
import RadixScript.Proofs.Scoping.Frames
import RadixScript.Proofs.Scoping.Invariant
import RadixScript.Proofs.Scoping.Steps
import RadixScript.Proofs.Scoping.Preservation
import RadixScript.Proofs.Scoping.Sessions
import RadixScript.Proofs.Scoping.Addressing
import RadixScript.Proofs.Scoping.Nearest
import RadixScript.Proofs.Grammar.Resolved
import RadixScript.Proofs.Grammar.Tokens
import RadixScript.Proofs.Grammar.Neighbours
import RadixScript.Proofs.Scoping.Footprint
import RadixScript.Proofs.Outcome.Operation
import RadixScript.Proofs.Outcome.Origin
import RadixScript.Proofs.Outcome.Classification
import RadixScript.Proofs.Likeness.Trees
import RadixScript.Proofs.Likeness.Machines
import RadixScript.Proofs.Likeness.Results
import RadixScript.Proofs.Likeness.Runs
import RadixScript.Proofs.Likeness.Tokens
import RadixScript.Proofs.Likeness.Resolution
import RadixScript.Proofs.Likeness.Moves
import RadixScript.Proofs.Likeness.Sessions
import RadixScript.Proofs.Pieces.Separation
import RadixScript.Proofs.Pieces.Tokens
import RadixScript.Proofs.Concatenation.Texts
import RadixScript.Proofs.Concatenation.Runs
import RadixScript.Proofs.Renaming.Texts
import RadixScript.Proofs.Renaming.Scopes
import RadixScript.Proofs.Renaming.Runs
import RadixScript.Proofs.Recasting.Machines
import RadixScript.Proofs.Recasting.Runs
import RadixScript.Proofs.Erasure.Trees
import RadixScript.Proofs.Erasure.Runs
import RadixScript.Proofs.Registry.Walk
import RadixScript.Proofs.Registry.Lexical
import RadixScript.Proofs.Registry.Keys
import RadixScript.Proofs.Registry.Sessions
import RadixScript.Proofs.Layout.Parsing
import RadixScript.Proofs.Layout.Runs
import RadixScript.Proofs.Registry.Returns
import RadixScript.Proofs.Laws.Trees
import RadixScript.Proofs.Laws.Code
import RadixScript.Proofs.Laws.Frames
import RadixScript.Proofs.Outcome.Site
import RadixScript.Proofs.Prompt.Batch
import RadixScript.Proofs.Pieces.Lexemes
import RadixScript.Proofs.Pieces.Phrases
import RadixScript.Proofs.Pieces.Shapes
import RadixScript.Proofs.Pieces.Segments
import RadixScript.Proofs.Recovery.Declarations
import RadixScript.Proofs.Recovery.Positions
import RadixScript.Proofs.Recovery.Boundaries
import RadixScript.Proofs.Grammar.Prefixes
import RadixScript.Proofs.Numerals.Spelling
import RadixScript.Proofs.Numerals.Canonical
import RadixScript.Proofs.Numerals.Conversions
import RadixScript.Proofs.Numerals.Operands
import RadixScript.Proofs.Numerals.Sums
import RadixScript.Proofs.Numerals.Bitwise
import RadixScript.Proofs.Values.Equality
import RadixScript.Proofs.Forest.Chains
import RadixScript.Proofs.Forest.Updates
import RadixScript.Proofs.Forest.Reads
import RadixScript.Proofs.Forest.Writes
import RadixScript.Proofs.Pieces.Strict
import RadixScript.Proofs.Numerals.Recognition
