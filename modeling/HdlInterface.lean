import HdlInterface.Main
import HdlInterface.Proofs.Json.Fields
import HdlInterface.Proofs.Json.Parts
import HdlInterface.Proofs.Json.Numeral
import HdlInterface.Proofs.Json.Quoted
import HdlInterface.Proofs.Json.ReadBack
import HdlInterface.Proofs.Json.Accepted
import HdlInterface.Proofs.Json.Equality
import HdlInterface.Proofs.Json.Equivalence
import HdlInterface.Proofs.Json.Repeated
import HdlInterface.Proofs.Json.Spaces
import HdlInterface.Proofs.Json.Layout
import HdlInterface.Proofs.Text.LowerCase
import HdlInterface.Proofs.Text.Ascii
import HdlInterface.Proofs.Document.Field
import HdlInterface.Proofs.Document.Rewriting
import HdlInterface.Proofs.Document.Alike
import HdlInterface.Proofs.Document.Failure
import HdlInterface.Proofs.Expr.Document
import HdlInterface.Proofs.Expr.Written
import HdlInterface.Proofs.Expr.Grammar
import HdlInterface.Proofs.Expr.Text
import HdlInterface.Proofs.Expr.Alike
import HdlInterface.Proofs.Expr.Display
import HdlInterface.Proofs.Interface.Document
import HdlInterface.Proofs.Interface.Rewriting
import HdlInterface.Proofs.Interface.Order
import HdlInterface.Proofs.Interface.Alike
import HdlInterface.Proofs.Unit.Document
import HdlInterface.Proofs.Unit.Equality
import HdlInterface.Proofs.Unit.Alike
import HdlInterface.Proofs.Design.Document
import HdlInterface.Proofs.Design.ReadBack
import HdlInterface.Proofs.Design.Text
import HdlInterface.Proofs.Design.Canonical
import HdlInterface.Proofs.Design.Arrange
import HdlInterface.Proofs.Design.Arrangement
import HdlInterface.Proofs.Design.Depth
import HdlInterface.Proofs.Design.Rewriting
import HdlInterface.Proofs.Design.Declarations
import HdlInterface.Proofs.Design.Collision
import HdlInterface.Proofs.Design.Lookup
import HdlInterface.Proofs.Design.Renaming
import HdlInterface.Proofs.Design.Reordering
import HdlInterface.Proofs.Design.Reachable
import HdlInterface.Proofs.Design.Languages
import HdlInterface.Proofs.Design.Equality
import HdlInterface.Proofs.Design.Alike
import HdlInterface.Proofs.Design.Incomplete
import HdlInterface.Proofs.Design.Refusal
import HdlInterface.Proofs.Design.Sections
import HdlInterface.Proofs.Design.Insertions
import HdlInterface.Proofs.Files.Tree
import HdlInterface.Proofs.Command.Normalize
import HdlInterface.Proofs.Command.Outcome
import HdlInterface.Proofs.Command.Logging
import HdlInterface.Proofs.Command.Check
import HdlInterface.Proofs.Command.Verbosity
import HdlInterface.Proofs.Command.Usage
import HdlInterface.Proofs.Command.Port
import HdlInterface.Proofs.Files.Path
import HdlInterface.Proofs.Language.FileName
import HdlInterface.Proofs.Toml.Tables
import HdlInterface.Proofs.Settings.Description
import HdlInterface.Proofs.Settings.Acceptance
