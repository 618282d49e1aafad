import HtmlLint.CommandLine
import HtmlLint.ContentModel
import HtmlLint.Decimal.Shortest
import HtmlLint.Document
import HtmlLint.Document.Construction
import HtmlLint.Document.Directive
import HtmlLint.Document.Event
import HtmlLint.Document.Parsing
import HtmlLint.Element.Decoding
import HtmlLint.Element.Definition
import HtmlLint.Element.Html
import HtmlLint.Element.Vocabulary
import HtmlLint.Json
import HtmlLint.Linter
import HtmlLint.Location
import HtmlLint.Main
import HtmlLint.Message
import HtmlLint.Proofs.Construction.Move
import HtmlLint.Proofs.Document.Nodes
import HtmlLint.NameMap
import HtmlLint.Report
import HtmlLint.Report.Selector
import HtmlLint.Rule
import HtmlLint.Rule.Standard
import HtmlLint.Session
import HtmlLint.Settings
import HtmlLint.Settings.File
import HtmlLint.Severity
import HtmlLint.Suppression
import HtmlLint.Text.Blank
import HtmlLint.Text.Case
import HtmlLint.Text.Letter
import HtmlLint.Text.Listing
import HtmlLint.Text.Printable
import HtmlLint.Text.Quoted
import HtmlLint.Text.Search
import HtmlLint.Token
import HtmlLint.Token.Scan
import HtmlLint.Token.Scanner
import HtmlLint.Token.Weight
import HtmlLint.Toml.Printer
import HtmlLint.Toml.Quoted
import HtmlLint.Toml.Reader
import HtmlLint.Toml.Scalar
import HtmlLint.Toml.Tree
import HtmlLint.Toml.Value
import HtmlLint.Trace
import HtmlLint.Proofs.List
import HtmlLint.Proofs.Text
import HtmlLint.Proofs.Token.Markup
import HtmlLint.Proofs.Construction.Run
import HtmlLint.Proofs.Construction.Nesting
import HtmlLint.Proofs.Construction.Tree
import HtmlLint.Proofs.Construction.Growth
import HtmlLint.Proofs.Construction.Clock
import HtmlLint.Proofs.Suppression.Coverage
import HtmlLint.Proofs.Suppression.Attribution
import HtmlLint.Proofs.Suppression.Unused
import HtmlLint.Proofs.Element.Customization
import HtmlLint.Proofs.Suppression.Overlap
import HtmlLint.Proofs.Token.Tiling
import HtmlLint.Proofs.Printing.Forest
import HtmlLint.Proofs.Printing.RoundTrip
import HtmlLint.Proofs.Suppression.Resolution
import HtmlLint.Proofs.Construction.Closing
import HtmlLint.Proofs.Construction.Course
import HtmlLint.Proofs.Construction.Ranges
import HtmlLint.Proofs.Construction.Shown
import HtmlLint.Proofs.Linter.Findings
import HtmlLint.Proofs.Linter.Placement
import HtmlLint.Proofs.Linter.Scope
import HtmlLint.Proofs.Linter.Independence
import HtmlLint.Proofs.Construction.Finality
import HtmlLint.Proofs.Construction.Foreign
import HtmlLint.Proofs.Construction.Spelling
import HtmlLint.Proofs.Construction.Ledger
import HtmlLint.Proofs.Construction.Errors
import HtmlLint.Proofs.Linter.Replay
import HtmlLint.Proofs.Token.Cut
import HtmlLint.Proofs.Token.Concatenation
import HtmlLint.Proofs.Token.Canonical
import HtmlLint.Proofs.Linter.Reporting
import HtmlLint.Proofs.Construction.Subtrees
import HtmlLint.Proofs.Construction.Tags
import HtmlLint.Proofs.Construction.EndTags
import HtmlLint.Proofs.Construction.Childless
import HtmlLint.Proofs.Element.Resolution
import HtmlLint.Proofs.Construction.Parents
import HtmlLint.Proofs.Construction.Attributes
import HtmlLint.Proofs.Linter.Attributes
import HtmlLint.Proofs.Construction.Directives
import HtmlLint.Proofs.Printing.Directive
import HtmlLint.Proofs.ContentModel.Order
import HtmlLint.Proofs.ContentModel.Unknown
import HtmlLint.Proofs.Report.Selector
import HtmlLint.Proofs.Token.Segmentation
import HtmlLint.Proofs.Token.Grammar
import HtmlLint.Proofs.Token.Progress
import HtmlLint.Proofs.Construction.Stack
