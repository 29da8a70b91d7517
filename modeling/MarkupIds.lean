import MarkupIds.Main
import MarkupIds.Proofs.Splice
import MarkupIds.Proofs.Ident.Ledger
import MarkupIds.Proofs.Html.Ledger
import MarkupIds.Proofs.Html.StartTag
import MarkupIds.Proofs.Text.Cut
import MarkupIds.Proofs.Xml.Token
import MarkupIds.Proofs.Xml.Ledger
import MarkupIds.Proofs.Xml.SecondRun
import MarkupIds.Proofs.Grammar.Extent
import MarkupIds.Proofs.Jsx.Extent
import MarkupIds.Proofs.Jsx.Ledger
import MarkupIds.Proofs.Document.Insertion
import MarkupIds.Proofs.Html.Reference
import MarkupIds.Proofs.Document.Uniqueness
import MarkupIds.Proofs.Html.Attributes
import MarkupIds.Proofs.Html.Reading
import MarkupIds.Proofs.Html.Pass
import MarkupIds.Proofs.Html.Tree
import MarkupIds.Proofs.Html.Written
import MarkupIds.Proofs.Html.Rewriting
import MarkupIds.Proofs.Html.Plain
import MarkupIds.Proofs.Html.Tagless
import MarkupIds.Proofs.Text.Position
import MarkupIds.Proofs.Html.Elements
import MarkupIds.Proofs.Html.Preservation
import MarkupIds.Proofs.Xml.Again
import MarkupIds.Proofs.Xml.Between
import MarkupIds.Proofs.Xml.Given
import MarkupIds.Proofs.Document.Position
import MarkupIds.Proofs.Jsx.Visited
import MarkupIds.Proofs.Xml.Agreement
import MarkupIds.Proofs.Common.Agreement
import MarkupIds.Proofs.Xml.Added
import MarkupIds.Proofs.Xml.TagSteps
import MarkupIds.Proofs.Xml.Increment
import MarkupIds.Proofs.Xml.Fit
import MarkupIds.Proofs.Document.Ending
import MarkupIds.Proofs.Files.Write
import MarkupIds.Proofs.Command.Effects
import MarkupIds.Proofs.Xml.Rewriting
import MarkupIds.Proofs.Text.Utf8
import MarkupIds.Proofs.Grammar.Leads
import MarkupIds.Proofs.Jsx.Gaps
import MarkupIds.Proofs.Encoded
import MarkupIds.Proofs.Jsx.Rewriting
import MarkupIds.Proofs.Ident.Slug
import MarkupIds.Proofs.Files.Way
import MarkupIds.Proofs.Files.Atomic
import MarkupIds.Proofs.Files.Below
import MarkupIds.Proofs.Files.Parts
import MarkupIds.Proofs.Files.Expand
import MarkupIds.Proofs.Ident.Normal
import MarkupIds.Proofs.Markup.ReadBack
import MarkupIds.Proofs.Options.Stable
import MarkupIds.Proofs.Xml.Tokenization
import MarkupIds.Proofs.Jsx.Stable
import MarkupIds.Proofs.Html.Located
