import Manuscript.Command.Flag
import Manuscript.Command.Invocation
import Manuscript.Command.Run
import Manuscript.Command.Watch
import Manuscript.Document.Attributes
import Manuscript.Document.Clone
import Manuscript.Document.Declaration
import Manuscript.Document.Equality
import Manuscript.Document.Level
import Manuscript.Document.Node
import Manuscript.Document.Normalize
import Manuscript.Document.Parse
import Manuscript.Document.Reader
import Manuscript.Document.Resolve
import Manuscript.Document.Rule
import Manuscript.Document.Scope
import Manuscript.Document.Source
import Manuscript.Document.Token
import Manuscript.Formula.Extract
import Manuscript.Formula.Sheet
import Manuscript.Html.Contents
import Manuscript.Html.Lower
import Manuscript.Html.Tree
import Manuscript.Latex.Output
import Manuscript.Latex.Sink
import Manuscript.Latex.Write
import Manuscript.Main
import Manuscript.Number.Binary
import Manuscript.Number.Measure
import Manuscript.Number.Power
import Manuscript.Number.Shortest
import Manuscript.Outline.Heading
import Manuscript.Project.Build
import Manuscript.Project.Cache
import Manuscript.Project.Compiler
import Manuscript.Project.Failure
import Manuscript.Project.FileSystem
import Manuscript.Project.Log
import Manuscript.Project.Page
import Manuscript.Project.SharedCache
import Manuscript.Registry.Basic
import Manuscript.Registry.Builtin
import Manuscript.Settings.Basic
import Manuscript.Settings.Load
import Manuscript.Settings.LogLevel
import Manuscript.Text.Base64
import Manuscript.Text.Blank
import Manuscript.Text.EditDistance
import Manuscript.Text.Hex
import Manuscript.Text.LowerCase
import Manuscript.Text.Numeral
import Manuscript.Text.Path
import Manuscript.Text.Percent
import Manuscript.Text.Printable
import Manuscript.Text.Quoted
import Manuscript.Text.Utf8
import Manuscript.Toml.Document
import Manuscript.Toml.Lexical
import Manuscript.Toml.Value
import Manuscript.Yaml.Dump
import Manuscript.Yaml.Scalar
import Manuscript.Yaml.Timestamp
import Manuscript.Proofs.Decoding
import Manuscript.Proofs.WordTiling
import Manuscript.Proofs.Nesting
import Manuscript.Proofs.ParseLossless
import Manuscript.Proofs.Lexing
import Manuscript.Proofs.Nested
import Manuscript.Proofs.ParseGrammar
import Manuscript.Proofs.ResolutionDepth
import Manuscript.Proofs.LooseWhere
import Manuscript.Proofs.Invocation
import Manuscript.Proofs.ResolutionEnds
import Manuscript.Proofs.PathSegments
import Manuscript.Proofs.RealPaths
import Manuscript.Proofs.Respelling
import Manuscript.Proofs.IncludeChain
import Manuscript.Proofs.Loading
import Manuscript.Proofs.Expansion
import Manuscript.Proofs.InclusionEnds
import Manuscript.Proofs.Unresolved
import Manuscript.Proofs.FirstFit
import Manuscript.Proofs.ResolutionSound
import Manuscript.Proofs.Blame
import Manuscript.Proofs.InclusionErrors
import Manuscript.Proofs.ExpansionComplete
import Manuscript.Proofs.History
import Manuscript.Proofs.OutputFiles
import Manuscript.Proofs.Independence
import Manuscript.Proofs.NormalForm
import Manuscript.Proofs.Idempotence
import Manuscript.Proofs.Declared
import Manuscript.Proofs.Assembly
import Manuscript.Proofs.Builtins
import Manuscript.Proofs.Likeness
import Manuscript.Proofs.OrderedAttributes
import Manuscript.Proofs.Adjustment
import Manuscript.Proofs.HeadingOrigins
import Manuscript.Proofs.Placeholders
import Manuscript.Proofs.FormulaPlaces
import Manuscript.Proofs.FormulaEntries
import Manuscript.Proofs.LetterCase
import Manuscript.Proofs.Loosening
import Manuscript.Proofs.LooseArguments
import Manuscript.Proofs.HtmlReading
import Manuscript.Proofs.Markup
import Manuscript.Proofs.FormulaAccounts
import Manuscript.Proofs.FormulaSharing
import Manuscript.Proofs.Anchors
import Manuscript.Proofs.Skeletons
import Manuscript.Proofs.CrossLinks
import Manuscript.Proofs.SharedLoading
import Manuscript.Proofs.FailingOutput
import Manuscript.Proofs.Rendering
import Manuscript.Proofs.Coupling
import Manuscript.Proofs.EntryPoints
import Manuscript.Proofs.ExactEquality
import Manuscript.Proofs.Relocation
import Manuscript.Proofs.Placeless
import Manuscript.Proofs.SourceNames
import Manuscript.Proofs.Moving
import Manuscript.Proofs.Conservation
import Manuscript.Proofs.SpanFree
import Manuscript.Proofs.WhereBlocks
import Manuscript.Proofs.BareFlags
import Manuscript.Proofs.FlagValues
import Manuscript.Proofs.InlineScopes
import Manuscript.Proofs.ListedHeadings
import Manuscript.Proofs.ParallelPages
import Manuscript.Proofs.TocOnly
import Manuscript.Proofs.Undrawn
import Manuscript.Proofs.ContentsOnly
import Manuscript.Proofs.Printing
import Manuscript.Proofs.ScriptReading
import Manuscript.Proofs.Extraction
import Manuscript.Proofs.Listing
import Manuscript.Proofs.PageAddresses
import Manuscript.Proofs.LikeSubstitution
import Manuscript.Proofs.Grafting
import Manuscript.Proofs.QuotedAttributes
import Manuscript.Proofs.AnchorNames
import Manuscript.Proofs.Segmentation
import Manuscript.Proofs.Reading
import Manuscript.Proofs.Arms
import Manuscript.Proofs.TagShapes
import Manuscript.Proofs.SelfContained
import Manuscript.Proofs.Templates
