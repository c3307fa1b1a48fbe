import UrlRebase.Asset.Cache
import UrlRebase.Asset.DigestName
import UrlRebase.Asset.Lookup
import UrlRebase.Asset.Resolution
import UrlRebase.Asset.Source
import UrlRebase.Calendar.Date
import UrlRebase.Calendar.Literal
import UrlRebase.Calendar.Moment
import UrlRebase.CommandLine.Arguments
import UrlRebase.CommandLine.Program
import UrlRebase.Decimal.Arithmetic
import UrlRebase.Decimal.Binary
import UrlRebase.Digest.Md5
import UrlRebase.Edit.Basic
import UrlRebase.Edit.EditedMap
import UrlRebase.Failure
import UrlRebase.FileSystem.Basic
import UrlRebase.FileSystem.Glob
import UrlRebase.Json.Basic
import UrlRebase.Json.Parser
import UrlRebase.Json.Printer
import UrlRebase.Main
import UrlRebase.Pack.Build
import UrlRebase.Pack.Input
import UrlRebase.Pack.Listing
import UrlRebase.Pack.Output
import UrlRebase.Pack.Packer
import UrlRebase.Pack.Processor
import UrlRebase.Pack.Start
import UrlRebase.Pack.Toolchain
import UrlRebase.Path.Basic
import UrlRebase.Rebase.Diagnostic
import UrlRebase.Rebase.Options
import UrlRebase.Rebase.Payload
import UrlRebase.Rebase.Rebaser
import UrlRebase.Rebase.StyleSheet
import UrlRebase.Reference.Escape
import UrlRebase.Reference.Payload
import UrlRebase.Reference.Reading
import UrlRebase.Reference.Segment
import UrlRebase.Reference.Token
import UrlRebase.Setting.Basic
import UrlRebase.Setting.Insertion
import UrlRebase.Setting.Order
import UrlRebase.Setting.Printer
import UrlRebase.Setting.Table
import UrlRebase.Setting.Unfold
import UrlRebase.SourceMap.Basic
import UrlRebase.SourceMap.Concat
import UrlRebase.SourceMap.Error
import UrlRebase.SourceMap.Lineage
import UrlRebase.SourceMap.Mapping
import UrlRebase.SourceMap.Vlq
import UrlRebase.Text.Base64
import UrlRebase.Text.Basic
import UrlRebase.Text.CharSet
import UrlRebase.Text.CodePoint
import UrlRebase.Text.Digit
import UrlRebase.Text.Encoding
import UrlRebase.Text.Hex
import UrlRebase.Text.Lower
import UrlRebase.Text.Percent
import UrlRebase.Text.Place
import UrlRebase.Text.Printable
import UrlRebase.Text.Quoted
import UrlRebase.Text.Utf8
import UrlRebase.Text.Word
import UrlRebase.Url.Address
import UrlRebase.Url.Basic
import UrlRebase.Workspace
import UrlRebase.Yaml.BlockScalar
import UrlRebase.Yaml.Cursor
import UrlRebase.Yaml.Document
import UrlRebase.Yaml.Fault
import UrlRebase.Yaml.Graph
import UrlRebase.Yaml.Lexer
import UrlRebase.Yaml.Number
import UrlRebase.Yaml.Pen
import UrlRebase.Yaml.PlainScalar
import UrlRebase.Yaml.Printer
import UrlRebase.Yaml.Property
import UrlRebase.Yaml.QuotedScalar
import UrlRebase.Yaml.Readable
import UrlRebase.Yaml.Style
import UrlRebase.Yaml.Tag
import UrlRebase.Yaml.Timestamp
import UrlRebase.Yaml.Token
import UrlRebase.Yaml.Value
import UrlRebase.Proofs.PayloadSpelling
import UrlRebase.Proofs.ReadingGrammar
import UrlRebase.Proofs.SegmentGrammar
import UrlRebase.Proofs.SegmentedText
import UrlRebase.Proofs.RewordedSegments
import UrlRebase.Proofs.ScannedTokens
import UrlRebase.Proofs.TokenSpans
import UrlRebase.Proofs.ColumnShift
import UrlRebase.Proofs.EditedText
import UrlRebase.Proofs.RebasedPayload
import UrlRebase.Proofs.SpelledIntegers
import UrlRebase.Proofs.WrittenMappings
import UrlRebase.Proofs.AcceptedMap
import UrlRebase.Proofs.NearestMapping
import UrlRebase.Proofs.RestoredMappings
import UrlRebase.Proofs.AnchoredMap
import UrlRebase.Proofs.RefusedMappings
import UrlRebase.Proofs.MovedPositions
import UrlRebase.Proofs.TracedEdits
import UrlRebase.Proofs.SoundWorkspace
import UrlRebase.Proofs.KeyedLookups
import UrlRebase.Proofs.TransparentCaches
import UrlRebase.Proofs.RebasedRun
import UrlRebase.Proofs.ReadBackPath
import UrlRebase.Proofs.RespelledPaths
import UrlRebase.Proofs.StoredFiles
import UrlRebase.Proofs.ReusableMaps
import UrlRebase.Proofs.MergedIndices
import UrlRebase.Proofs.JoinedMaps
import UrlRebase.Proofs.RelocatedMaps
import UrlRebase.Proofs.BlindWork
import UrlRebase.Proofs.BlindPacking
import UrlRebase.Proofs.RepeatedPacks
import UrlRebase.Proofs.BuiltParts
import UrlRebase.Proofs.PackedMaps
import UrlRebase.Proofs.WalkedPaths
import UrlRebase.Proofs.RelativeWays
import UrlRebase.Proofs.NamedSources
import UrlRebase.Proofs.PackedSources
import UrlRebase.Proofs.ReturnedRuns
import UrlRebase.Proofs.AccountedTokens
import UrlRebase.Proofs.KnownFiles
import UrlRebase.Proofs.SteadyRuns
import UrlRebase.Proofs.RewriteModes
import UrlRebase.Proofs.RetracedMaps
import UrlRebase.Proofs.SecondRuns
import UrlRebase.Proofs.SteadyPacking
import UrlRebase.Proofs.SparedPaths
import UrlRebase.Proofs.SettledAssets
import UrlRebase.Proofs.ChangedInputs
import UrlRebase.Proofs.IncrementalPacks
import UrlRebase.Proofs.IgnoredMaps
import UrlRebase.Proofs.ToldTables
import UrlRebase.Proofs.TakenConfigs
import UrlRebase.Proofs.DumpedConfigs
import UrlRebase.Proofs.NamedCopies
import UrlRebase.Proofs.UnmappedPacks
import UrlRebase.Proofs.SplicedCharacters
import UrlRebase.Proofs.EscapedCharacters
import UrlRebase.Proofs.DecodedPayloads
import UrlRebase.Proofs.EscapedQuotes
import UrlRebase.Proofs.LatestMapping
import UrlRebase.Proofs.DerivedReadings
import UrlRebase.Proofs.KeptDirectories
import UrlRebase.Proofs.TextsInStep
import UrlRebase.Proofs.LineEnds
import UrlRebase.Proofs.SourceDirectories
import UrlRebase.Proofs.RecordedContents
import UrlRebase.Proofs.StoppedPacks
import UrlRebase.Proofs.PackedBytes
import UrlRebase.Proofs.JoinedSegments
import UrlRebase.Proofs.MatchedEscapes
import UrlRebase.Proofs.GlobbedPaths
import UrlRebase.Proofs.ListedFiles
import UrlRebase.Proofs.WatchedPaths
import UrlRebase.Proofs.AgedFiles
import UrlRebase.Proofs.StandingAssets
import UrlRebase.Proofs.RestingPacks
