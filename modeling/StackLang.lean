import StackLang.Text.Blank
import StackLang.Text.Search
import StackLang.Integer
import StackLang.Numeral.Natural
import StackLang.Numeral.Integer
import StackLang.Numeral.Size
import StackLang.Numeral.Real
import StackLang.Numeral.Places
import StackLang.Real
import StackLang.Value.Render
import StackLang.Fault
import StackLang.Stack
import StackLang.Token
import StackLang.Instruction
import StackLang.Input
import StackLang.Operator.Binary
import StackLang.Operator.Unary
import StackLang.Machine.Run
import StackLang.Machine.Request
import StackLang.Main
import StackLang.Proofs.Nesting
import StackLang.Proofs.Requests
import StackLang.Proofs.Widening
import StackLang.Proofs.Frame
import StackLang.Proofs.Provenance
import StackLang.Proofs.Wrapping
import StackLang.Proofs.Reading
import StackLang.Proofs.Sequence
import StackLang.Proofs.Tokens.Trees
import StackLang.Proofs.Tokens.Literals
import StackLang.Proofs.ValueSource
import StackLang.Proofs.UnnamedVariable
import StackLang.Proofs.FirstLine
import StackLang.Proofs.Power
import StackLang.Proofs.Mapping
import StackLang.Proofs.Division
import StackLang.Proofs.Position
import StackLang.Proofs.Rows
import StackLang.Proofs.Locality
import StackLang.Proofs.PrintedText
import StackLang.Proofs.Spreading
import StackLang.Proofs.Shifting
import StackLang.Proofs.Lines
import StackLang.Proofs.Arguments
import StackLang.Proofs.Quotient
import StackLang.Proofs.Folding
import StackLang.Proofs.Repeating
import StackLang.Proofs.Rotating
import StackLang.Proofs.Converting
import StackLang.Proofs.Bitwise
import StackLang.Proofs.NestedBlocks
import StackLang.Proofs.Dispatching
import StackLang.Proofs.Batches
