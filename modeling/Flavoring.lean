import Flavoring.CommandLine.Arguments
import Flavoring.CommandLine.Run
import Flavoring.Config.Basic
import Flavoring.Config.Decode
import Flavoring.Config.Discovery
import Flavoring.Config.Problem
import Flavoring.Config.Reader
import Flavoring.Expansion.Misuse
import Flavoring.Expansion.Options
import Flavoring.Expansion.Pass
import Flavoring.Expansion.References
import Flavoring.Expansion.Rule
import Flavoring.Expansion.Summary
import Flavoring.Files.Failure
import Flavoring.Files.FileSystem
import Flavoring.Files.Format
import Flavoring.Files.Path
import Flavoring.Files.Store
import Flavoring.Files.Transformer
import Flavoring.JavaScript.Character
import Flavoring.JavaScript.Concrete
import Flavoring.JavaScript.Cursor
import Flavoring.JavaScript.Module
import Flavoring.JavaScript.Parser.Basic
import Flavoring.JavaScript.Parser.Expression
import Flavoring.JavaScript.Parser.Function
import Flavoring.JavaScript.Parser.Goal
import Flavoring.JavaScript.Parser.Literal
import Flavoring.JavaScript.Parser.Markup
import Flavoring.JavaScript.Parser.Pattern
import Flavoring.JavaScript.Parser.Statement
import Flavoring.JavaScript.Semicolon
import Flavoring.JavaScript.Token
import Flavoring.Json.Basic
import Flavoring.Json.Printer
import Flavoring.Json.Reader
import Flavoring.Main
import Flavoring.Number.Binary
import Flavoring.Number.Decimal
import Flavoring.Text.Blank
import Flavoring.Text.Bytes
import Flavoring.Text.Deletion
import Flavoring.Text.Extent
import Flavoring.Text.Hex
import Flavoring.Text.Lowercase
import Flavoring.Text.Quoted
import Flavoring.Text.Splice
import Flavoring.Text.Visible
import Flavoring.Tree.Basic
import Flavoring.Tree.Decode
import Flavoring.Tree.Edit
import Flavoring.Tree.Encode
import Flavoring.Tree.Module
import Flavoring.Tree.Node
import Flavoring.Tree.Outline
import Flavoring.Proofs.Tree.Descent
import Flavoring.Proofs.Tree.Arena
import Flavoring.Proofs.Tree.Edits
import Flavoring.Proofs.Tree.Building
import Flavoring.Proofs.Tree.Runs
import Flavoring.Proofs.Tree.Revision
import Flavoring.Proofs.Expansion.Sites
import Flavoring.Proofs.Expansion.Markers
import Flavoring.Proofs.Expansion.Redirection
import Flavoring.Proofs.Expansion.Substitution
import Flavoring.Proofs.Expansion.Acceptance
import Flavoring.Proofs.Expansion.Result
import Flavoring.Proofs.Expansion.Removals
import Flavoring.Proofs.Tree.Replacements
import Flavoring.Proofs.Tree.Orders
import Flavoring.Proofs.Expansion.SiteOrder
import Flavoring.Proofs.Expansion.SecondPass
import Flavoring.Proofs.JavaScript.Agreement.Basic
import Flavoring.Proofs.JavaScript.Agreement.Functions
import Flavoring.Proofs.JavaScript.Agreement.Expressions
import Flavoring.Proofs.Expansion.ReadingBack
import Flavoring.Proofs.JavaScript.Agreement.Statements
import Flavoring.Proofs.JavaScript.Agreement.Modules
import Flavoring.Proofs.JavaScript.Endings
import Flavoring.Proofs.Tree.Readings
import Flavoring.Proofs.Expansion.Alterations
import Flavoring.Proofs.Expansion.Spelling
import Flavoring.Proofs.Expansion.Atomicity
import Flavoring.Proofs.Text.Exchanging
import Flavoring.Proofs.Expansion.Frame
import Flavoring.Proofs.Tree.Lowering
import Flavoring.Proofs.Text.Delimiting
import Flavoring.Proofs.Text.Selecting
import Flavoring.Proofs.JavaScript.Quoting
import Flavoring.Proofs.JavaScript.Unquoting
import Flavoring.Proofs.JavaScript.Slicing
import Flavoring.Proofs.Text.Scanning
import Flavoring.Proofs.Expansion.Search
import Flavoring.Proofs.Expansion.Collection
import Flavoring.Proofs.Expansion.Accounting
import Flavoring.Proofs.Config.Nearest
import Flavoring.Proofs.Files.OutputFolder
import Flavoring.Proofs.Files.Collisions
import Flavoring.Proofs.Files.Independence
import Flavoring.Proofs.Tree.Loops
import Flavoring.Proofs.Tree.Encoding
import Flavoring.Proofs.Config.Shapes
import Flavoring.Proofs.Expansion.Declarations
