import SvgKit.Cache.Basic
import SvgKit.Cache.Lru
import SvgKit.Cache.Sha256
import SvgKit.CommandLine.Arguments
import SvgKit.CommandLine.Command
import SvgKit.CommandLine.Directory
import SvgKit.CommandLine.Run
import SvgKit.Component.Context
import SvgKit.Component.Jsx
import SvgKit.Component.Name
import SvgKit.Component.Options
import SvgKit.Component.React
import SvgKit.Component.Registry
import SvgKit.Component.Svelte
import SvgKit.Component.Template
import SvgKit.Component.Vue
import SvgKit.Component.WebComponent
import SvgKit.Failure
import SvgKit.Json.Basic
import SvgKit.Lint.Basic
import SvgKit.Lint.Report
import SvgKit.Main
import SvgKit.Markup.Attribute
import SvgKit.Markup.CamelCase
import SvgKit.Markup.Rewrite
import SvgKit.Markup.Root
import SvgKit.Markup.Tag
import SvgKit.Minify.Attributes
import SvgKit.Minify.Basic
import SvgKit.Minify.EditorContent
import SvgKit.Minify.Groups
import SvgKit.Minify.Identifiers
import SvgKit.Minify.Path
import SvgKit.Minify.Source
import SvgKit.Minify.Style
import SvgKit.Number.Binary64
import SvgKit.Number.ByteCount
import SvgKit.Number.Numeral
import SvgKit.Optimize.Basic
import SvgKit.Optimize.Metrics
import SvgKit.Proofs.Cache.Key
import SvgKit.Proofs.Cache.Lru
import SvgKit.Proofs.Cache.Recency
import SvgKit.Proofs.Component.Brackets
import SvgKit.Proofs.Component.CharacterData
import SvgKit.Proofs.Component.Generation
import SvgKit.Proofs.Component.JsxMarkup
import SvgKit.Proofs.Component.Openings
import SvgKit.Proofs.Markup.Attribute
import SvgKit.Proofs.Markup.CamelCase
import SvgKit.Proofs.Markup.Capitals
import SvgKit.Proofs.Markup.Renaming
import SvgKit.Proofs.Markup.Root
import SvgKit.Proofs.Markup.StartTag
import SvgKit.Proofs.Markup.Stretches
import SvgKit.Proofs.Markup.Written
import SvgKit.Proofs.Minify.Agreement
import SvgKit.Proofs.Minify.Capitals
import SvgKit.Proofs.Minify.Congruence
import SvgKit.Proofs.Minify.Correspondence
import SvgKit.Proofs.Minify.FixedPoint
import SvgKit.Proofs.Minify.Groups
import SvgKit.Proofs.Minify.Heads
import SvgKit.Proofs.Minify.Identifiers
import SvgKit.Proofs.Minify.Labels
import SvgKit.Proofs.Minify.Marks
import SvgKit.Proofs.Minify.NormalForm
import SvgKit.Proofs.Minify.Pruning
import SvgKit.Proofs.Minify.Readable
import SvgKit.Proofs.Minify.References
import SvgKit.Proofs.Minify.Soundness
import SvgKit.Proofs.Minify.Stability
import SvgKit.Proofs.Minify.Totality
import SvgKit.Proofs.Minify.Values
import SvgKit.Proofs.Minify.VisibleText
import SvgKit.Proofs.Number.Range
import SvgKit.Proofs.Optimize.Failures
import SvgKit.Proofs.Optimize.Idempotence
import SvgKit.Proofs.Optimize.Run
import SvgKit.Proofs.Optimize.Safety
import SvgKit.Proofs.Sanitize.Harmless
import SvgKit.Proofs.Sanitize.Settled
import SvgKit.Proofs.Sanitize.Warnings
import SvgKit.Proofs.Service.Batch
import SvgKit.Proofs.Service.History
import SvgKit.Proofs.Service.Run
import SvgKit.Proofs.Service.Statistics
import SvgKit.Proofs.Service.Transparency
import SvgKit.Proofs.Text.Members
import SvgKit.Proofs.Text.Occurrences
import SvgKit.Proofs.Text.Replacement
import SvgKit.Proofs.Text.Scanning
import SvgKit.Proofs.Text.Searching
import SvgKit.Proofs.Text.Splitting
import SvgKit.Proofs.Xml.Absorption
import SvgKit.Proofs.Xml.Adaptation
import SvgKit.Proofs.Xml.Correspondence
import SvgKit.Proofs.Xml.Declaring
import SvgKit.Proofs.Xml.Doctype
import SvgKit.Proofs.Xml.Document
import SvgKit.Proofs.Xml.Footprint
import SvgKit.Proofs.Xml.Layout
import SvgKit.Proofs.Xml.Marks
import SvgKit.Proofs.Xml.Markup
import SvgKit.Proofs.Xml.Name
import SvgKit.Proofs.Xml.Occurrence
import SvgKit.Proofs.Xml.Reading
import SvgKit.Proofs.Xml.Resolution
import SvgKit.Proofs.Xml.RoundTrip
import SvgKit.Proofs.Xml.Sound
import SvgKit.Proofs.Xml.Tag
import SvgKit.Proofs.Xml.Tidy
import SvgKit.Proofs.Xml.Tokens
import SvgKit.Proofs.Xml.Tree
import SvgKit.Sanitize.Basic
import SvgKit.Sanitize.Rules
import SvgKit.Service.Basic
import SvgKit.Service.Description
import SvgKit.Service.Request
import SvgKit.Service.Route
import SvgKit.Text.Basic
import SvgKit.Text.Case
import SvgKit.Text.Digit
import SvgKit.Text.Printable
import SvgKit.Text.Quoted
import SvgKit.Text.Ranges
import SvgKit.Text.Scanner
import SvgKit.Text.Utf8
import SvgKit.Text.Word
import SvgKit.Validation
import SvgKit.Xml.Doctype
import SvgKit.Xml.Name
import SvgKit.Xml.Reader
import SvgKit.Xml.Reference
import SvgKit.Xml.Scope
import SvgKit.Xml.Token
import SvgKit.Xml.Tree
import SvgKit.Xml.Uri
import SvgKit.Xml.Writer
import SvgKit.Proofs.Xml.Deletion
import SvgKit.Proofs.CommandLine.Failures
import SvgKit.Proofs.Markup.Extraction
import SvgKit.Proofs.Minify.Source
import SvgKit.Proofs.Minify.Spacing
import SvgKit.Proofs.Number.Decimal
import SvgKit.Proofs.PathData.Arcs
import SvgKit.Proofs.PathData.Rounding
import SvgKit.Proofs.Sanitize.Wholeness
import SvgKit.Proofs.Cache.History
import SvgKit.Proofs.Sanitize.Report
import SvgKit.Proofs.Markup.Regular
import SvgKit.Proofs.Markup.Rewording
import SvgKit.Proofs.Markup.Composition
import SvgKit.Proofs.Sanitize.Seams
import SvgKit.Proofs.Json.StringLiteral
import SvgKit.Proofs.Json.Compact
import SvgKit.Proofs.Cache.KeyText
import SvgKit.Proofs.Minify.EffectiveValue
import SvgKit.Proofs.Minify.Collapse
import SvgKit.Proofs.Text.Pieces
import SvgKit.Proofs.Component.StyleKey
import SvgKit.Proofs.Component.StyleObject
import SvgKit.Proofs.Markup.RootTag
import SvgKit.Proofs.Component.RootAttributes
import SvgKit.Proofs.Component.TemplateLiteral
import SvgKit.Proofs.Component.ElementConstants
import SvgKit.Proofs.Component.SheetTags
import SvgKit.Proofs.Component.StyleSheets
import SvgKit.Proofs.Component.SheetPairing
import SvgKit.Proofs.Component.SheetConversion
import SvgKit.Proofs.Minify.StyleNesting
import SvgKit.Proofs.Minify.StyleCompaction
import SvgKit.Proofs.Text.Ascii
import SvgKit.Proofs.Markup.Partition
import SvgKit.Proofs.Component.Reindentation
import SvgKit.Proofs.Component.FileName
import SvgKit.Proofs.Component.ElementName
import SvgKit.Proofs.Component.DeclaredName
import SvgKit.Proofs.Lint.Appending
import SvgKit.Proofs.Number.Formatting
