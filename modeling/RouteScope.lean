import RouteScope.ClassGraph.Json
import RouteScope.Folder
import RouteScope.Main
import RouteScope.Proofs.Ancestry
import RouteScope.Proofs.ClassGraph.Derivation
import RouteScope.Proofs.ClassGraph.Growth
import RouteScope.Proofs.ClassGraph.RoundTrip
import RouteScope.Proofs.Command.Wrapping
import RouteScope.Proofs.Endpoint.Fewest
import RouteScope.Proofs.Endpoint.Filling
import RouteScope.Proofs.FileKind
import RouteScope.Proofs.Java.Argument
import RouteScope.Proofs.Java.Bean
import RouteScope.Proofs.Java.BeanReference
import RouteScope.Proofs.Java.CommentedCalls
import RouteScope.Proofs.Java.Comments
import RouteScope.Proofs.Java.Concatenation
import RouteScope.Proofs.Java.Description
import RouteScope.Proofs.Java.ExpressionClass
import RouteScope.Proofs.Java.FileGrammar
import RouteScope.Proofs.Java.FullPath
import RouteScope.Proofs.Java.HeldNames
import RouteScope.Proofs.Java.LanguageCall
import RouteScope.Proofs.Java.Literal
import RouteScope.Proofs.Java.Method
import RouteScope.Proofs.Java.NameGrammar
import RouteScope.Proofs.Java.NameOrigin
import RouteScope.Proofs.Java.Nesting
import RouteScope.Proofs.Java.Part
import RouteScope.Proofs.Java.Reference
import RouteScope.Proofs.Java.WellFormed
import RouteScope.Proofs.Json.Record
import RouteScope.Proofs.Json.Written
import RouteScope.Proofs.Language
import RouteScope.Proofs.Path
import RouteScope.Proofs.Recognition.Polling
import RouteScope.Proofs.Recognition.Registry
import RouteScope.Proofs.Recognition.RouteStart
import RouteScope.Proofs.Recognition.Session
import RouteScope.Proofs.Report.BeanOrder
import RouteScope.Proofs.Report.Beans
import RouteScope.Proofs.Report.Classes
import RouteScope.Proofs.Report.Comments
import RouteScope.Proofs.Report.Endpoints
import RouteScope.Proofs.Report.Entries
import RouteScope.Proofs.Report.Expressions
import RouteScope.Proofs.Report.Handlers
import RouteScope.Proofs.Report.Interference
import RouteScope.Proofs.Report.Literals
import RouteScope.Proofs.Settings.Defaults
import RouteScope.Proofs.Settings.Loading
import RouteScope.Proofs.Settings.RoundTrip
import RouteScope.Proofs.Text.Border
import RouteScope.Proofs.Text.Bytes
import RouteScope.Proofs.Text.Digits
import RouteScope.Proofs.Text.Identifier
import RouteScope.Proofs.Text.Pieces
import RouteScope.Proofs.Text.Split
import RouteScope.Proofs.Toml.Assembly
import RouteScope.Proofs.Toml.Distinct
import RouteScope.Proofs.Toml.Document
import RouteScope.Proofs.Toml.Quoting
import RouteScope.Proofs.Toml.Written
import RouteScope.Proofs.Tree.Comments
import RouteScope.Proofs.Tree.Flat
import RouteScope.Proofs.Tree.Order
import RouteScope.Proofs.Tree.Place
import RouteScope.Proofs.Tree.Preorder
import RouteScope.Proofs.Tree.Search
import RouteScope.Proofs.Tree.Traversal
import RouteScope.Row
