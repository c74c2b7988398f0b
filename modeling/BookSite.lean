import BookSite.Main
import BookSite.Proofs.Markdown.CodeSurvival
import BookSite.Proofs.Site.SidebarOutline
import BookSite.Proofs.Markdown.Include.PageParts
import BookSite.Proofs.Markdown.FenceFree
import BookSite.Proofs.Markdown.KeptFences
import BookSite.Proofs.Markdown.ConversionFailure
import BookSite.Proofs.Site.LiteralReader
import BookSite.Proofs.Site.LiteralRoundTrip
import BookSite.Proofs.Markdown.Include.ImportText
import BookSite.Proofs.Markdown.Include.FoundDirectives
import BookSite.Proofs.Markdown.Include.InertImports
import BookSite.Proofs.Markdown.Include.LeftDirectives
import BookSite.Proofs.Markdown.Include.BothModes
import BookSite.Proofs.Migration.RootedImages
import BookSite.Proofs.Migration.ImportedFiles
import BookSite.Proofs.Markdown.MathEdits
import BookSite.Proofs.Markdown.RaisedText
import BookSite.Proofs.Markdown.DisplayMath
import BookSite.Proofs.Files.Entering
import BookSite.Proofs.Files.MadeDirectories
import BookSite.Proofs.Files.Reading
import BookSite.Proofs.Migration.Deposit
import BookSite.Proofs.Migration.Accounting
import BookSite.Proofs.Files.Repetition
import BookSite.Proofs.Migration.BothWays
import BookSite.Proofs.Migration.Repeats
import BookSite.Proofs.Migration.SecondRun
import BookSite.Proofs.Markdown.PageEnd
import BookSite.Proofs.Settings.Precedence
import BookSite.Proofs.Markdown.PlainPage
import BookSite.Proofs.Markdown.LeftFlags
import BookSite.Proofs.Site.DefinitionText
import BookSite.Proofs.Markdown.Include.AnchorRegions
import BookSite.Proofs.Markdown.Include.Arguments
import BookSite.Proofs.Markdown.RelativeImages
import BookSite.Proofs.Markdown.RepeatedRooting
import BookSite.Proofs.Markdown.RepeatedAttributes
import BookSite.Proofs.Markdown.QuoteLabels
import BookSite.Proofs.Markdown.QuoteSurroundings
import BookSite.Proofs.Markdown.StageOrder
import BookSite.Proofs.Json.Merging
import BookSite.Proofs.Settings.WrittenSettings
import BookSite.Proofs.Settings.EmptyValues
import BookSite.Proofs.Outline.EntryLines
import BookSite.Proofs.Site.ListedLinks
import BookSite.Proofs.Migration.FirstChapter
import BookSite.Proofs.Migration.PageLinks
import BookSite.Proofs.Migration.FrontMatter
import BookSite.Proofs.Migration.SortedLists
import BookSite.Proofs.Book.Description
import BookSite.Proofs.Site.ManifestPackages
import BookSite.Proofs.Site.LiteralLines
import BookSite.Proofs.Outline.ClosingLoops
import BookSite.Proofs.Markdown.Include.PendingBlocks
import BookSite.Proofs.Markdown.LineKinds
