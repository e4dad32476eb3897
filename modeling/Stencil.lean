import Stencil.CommandLine.Basic
import Stencil.Main
import Stencil.Proofs.Document.RoundTrip
import Stencil.Proofs.Run.Budget
import Stencil.Proofs.Segmentation
import Stencil.Session
import Stencil.Proofs.Document.Balance
import Stencil.Proofs.Run.Control
import Stencil.Proofs.Run.Sequence
import Stencil.Proofs.Run.Alike
import Stencil.Proofs.Run.Unroll
import Stencil.Proofs.Document.Append
import Stencil.Proofs.Run.Append
import Stencil.Proofs.Document.Online
import Stencil.Proofs.Run.Values
import Stencil.Proofs.Session
import Stencil.Proofs.Run.Counting
import Stencil.Proofs.Run.MimeType
import Stencil.Proofs.Number.Pattern
import Stencil.Proofs.Tag.Literal
import Stencil.Proofs.Value.Integers
import Stencil.Proofs.Run.Parameters
import Stencil.Proofs.Run.Depth
import Stencil.Proofs.Context.Write
import Stencil.Proofs.Stacks.Operation
import Stencil.Proofs.Run.Frame
import Stencil.Proofs.Run.Changes
import Stencil.Proofs.Context.Lines
import Stencil.Proofs.Value.Order
import Stencil.Proofs.Document.Runs
import Stencil.Proofs.Value.Literal
