import Wordcode.Literal.Print
import Wordcode.Literal.Registers
import Wordcode.Module.Builder
import Wordcode.Module.Listing
import Wordcode.Proofs.Appending
import Wordcode.Proofs.Builder.Verified
import Wordcode.Proofs.Container
import Wordcode.Proofs.CursorRuns
import Wordcode.Proofs.DeclaredLength
import Wordcode.Proofs.Growing
import Wordcode.Proofs.Halving
import Wordcode.Proofs.Instruction.Layout
import Wordcode.Proofs.Instruction.Machine
import Wordcode.Proofs.Instruction.SelfDelimiting
import Wordcode.Proofs.Joining
import Wordcode.Proofs.LineTable
import Wordcode.Proofs.ListingLines
import Wordcode.Proofs.Literal.AnyType
import Wordcode.Proofs.Literal.Depth
import Wordcode.Proofs.Literal.Enumerations
import Wordcode.Proofs.Literal.Equality
import Wordcode.Proofs.Literal.ErrorLines
import Wordcode.Proofs.Literal.Escapes
import Wordcode.Proofs.Literal.Gaps
import Wordcode.Proofs.Literal.KnownTypes
import Wordcode.Proofs.Literal.Numerals
import Wordcode.Proofs.Literal.Ownership
import Wordcode.Proofs.Literal.Progress
import Wordcode.Proofs.Literal.Refusals
import Wordcode.Proofs.Literal.Runs
import Wordcode.Proofs.Literal.Widening
import Wordcode.Proofs.NamedTypes
import Wordcode.Proofs.Natives
import Wordcode.Proofs.Rereading
import Wordcode.Proofs.Truncation
