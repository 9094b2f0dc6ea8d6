import Canonmark.Convert
import Canonmark.Diagnostics
import Canonmark.Proofs.Outcome
import Canonmark.Proofs.Options
import Canonmark.Proofs.Text.Lines
import Canonmark.Proofs.Text.Hanging
import Canonmark.Proofs.Text.Numeral
import Canonmark.Proofs.Text.Reference
import Canonmark.Proofs.Json.Members
import Canonmark.Proofs.Json.Fold
import Canonmark.Proofs.Json.Text
import Canonmark.Proofs.Builder.Document
import Canonmark.Proofs.Builder.Session
import Canonmark.Proofs.Node.ClassTag
import Canonmark.Proofs.Node.Acceptance
import Canonmark.Proofs.Node.Span
import Canonmark.Proofs.Node.RoundTrip
import Canonmark.Proofs.Node.Text
import Canonmark.Proofs.Node.Grammar
import Canonmark.Proofs.Node.Canonical
import Canonmark.Proofs.Node.Refusals
import Canonmark.Proofs.Node.Walk
import Canonmark.Proofs.Builder.Sound
import Canonmark.Proofs.Markdown.TokenForm
import Canonmark.Proofs.Markdown.TokenEvents
import Canonmark.Proofs.Markdown.Merging
import Canonmark.Proofs.Markdown.Refusal
import Canonmark.Proofs.Markdown.Solid
import Canonmark.Proofs.Markdown.Content
import Canonmark.Proofs.Markdown.TokenTree
import Canonmark.Proofs.Markdown.Scan
import Canonmark.Proofs.Markdown.Words
import Canonmark.Proofs.Markdown.Plain
import Canonmark.Proofs.Markdown.Stack
import Canonmark.Proofs.Markdown.Written
import Canonmark.Proofs.Markdown.Growing
import Canonmark.Proofs.Markdown.PlainLines
import Canonmark.Proofs.Markdown.PlainRoundTrip
import Canonmark.Proofs.Markdown.CodeRoundTrip
import Canonmark.Proofs.Markdown.CodeSpan
import Canonmark.Proofs.Markdown.WrittenList
import Canonmark.Proofs.Markdown.ListLines
import Canonmark.Proofs.Markdown.ListRoundTrip
import Canonmark.Proofs.Markdown.Escaping
import Canonmark.Proofs.Markdown.Groups
import Canonmark.Proofs.Markdown.TextTokens
import Canonmark.Proofs.Markdown.MarkedText
import Canonmark.Proofs.Markdown.TextRoundTrip
import Canonmark.Proofs.Markdown.HeadingText
import Canonmark.Proofs.Markdown.Unescaping
import Canonmark.Proofs.Markdown.Targets
import Canonmark.Proofs.Markdown.LinkRoundTrip
import Canonmark.Proofs.Markdown.NormalForm
import Canonmark.Proofs.Markdown.DeepMerge
import Canonmark.Proofs.Markdown.Reshaping
import Canonmark.Proofs.Markdown.Levels
import Canonmark.Proofs.Markdown.Splitting
import Canonmark.Proofs.Markdown.Delimiters
import Canonmark.Proofs.Markdown.Brackets
import Canonmark.Proofs.Markdown.Unwrapping
import Canonmark.Proofs.Markdown.Visits
import Canonmark.Proofs.Markdown.Hanging
import Canonmark.Proofs.Markdown.FirstLine
import Canonmark.Proofs.Editor.Decoded
import Canonmark.Proofs.Editor.Conversion
import Canonmark.Proofs.Editor.Forgetting
import Canonmark.Proofs.Xml.Spelling
import Canonmark.Proofs.Xml.Markup
import Canonmark.Proofs.Xml.Content
import Canonmark.Proofs.Xml.Written
import Canonmark.Proofs.Xml.Opening
import Canonmark.Proofs.Xml.Events
import Canonmark.Proofs.Xml.Building
import Canonmark.Proofs.Xml.Printing
import Canonmark.Proofs.Xml.RoundTrip
import Canonmark.Proofs.Markdown.Ahead
import Canonmark.Proofs.Markdown.Breaking
import Canonmark.Proofs.Markdown.ItemText
import Canonmark.Proofs.Markdown.Phrases
import Canonmark.Proofs.Markdown.ReadTree
import Canonmark.Proofs.Markdown.Standing
import Canonmark.Proofs.Markdown.Endings
import Canonmark.Proofs.Markdown.Neighbours
import Canonmark.Proofs.Node.Culprit
import Canonmark.Proofs.Builder.Heap
import Canonmark.Proofs.Builder.InPlace
import Canonmark.Proofs.Builder.Coherence
import Canonmark.Proofs.Builder.Revision
import Canonmark.Proofs.Builder.Tagging
import Canonmark.Proofs.Markdown.TrimmedTokens
import Canonmark.Proofs.Editor.Leaves
import Canonmark.Proofs.Options.Overrides
import Canonmark.Proofs.Text.Encoding
import Canonmark.Proofs.Source
import Canonmark.Proofs.Markdown.Leveled
import Canonmark.Proofs.Markdown.Discipline
import Canonmark.Proofs.Builder.Closing
import Canonmark.Proofs.Markdown.Units
