import PdfContent.Blank
import PdfContent.Bytes
import PdfContent.Cache
import PdfContent.ColorSpace
import PdfContent.CommandLine.Arguments
import PdfContent.CommandLine.Commands
import PdfContent.Document.Analysis
import PdfContent.Document.Basic
import PdfContent.Document.ColorSpaces
import PdfContent.Document.ExtGStates
import PdfContent.Document.Fonts
import PdfContent.Document.Object
import PdfContent.Document.PageTree
import PdfContent.Document.StreamResources
import PdfContent.ExtGState
import PdfContent.External.Charsets
import PdfContent.External.File
import PdfContent.External.Filters
import PdfContent.External.Libraries
import PdfContent.External.MacintoshOrder
import PdfContent.External.PageNumbers
import PdfContent.External.Sfnt
import PdfContent.External.Stored
import PdfContent.Failure
import PdfContent.Flavour
import PdfContent.Font
import PdfContent.Font.CMap.Cid
import PdfContent.Font.CMap.Entry
import PdfContent.Font.CMap.ToUnicode
import PdfContent.Font.Charset
import PdfContent.Font.CodeReader
import PdfContent.Font.Encoding
import PdfContent.Font.Face
import PdfContent.Font.Glyph
import PdfContent.Font.GlyphName
import PdfContent.Font.PredefinedCMap
import PdfContent.Font.Program
import PdfContent.Font.Widths
import PdfContent.GraphicsState
import PdfContent.IccProfile
import PdfContent.InlineImage
import PdfContent.Interpreter
import PdfContent.Json
import PdfContent.Main
import PdfContent.Model
import PdfContent.Node
import PdfContent.Number.Decimal
import PdfContent.Number.Numeral
import PdfContent.Operand
import PdfContent.Operand.Leaf
import PdfContent.Operand.Reader
import PdfContent.Operation
import PdfContent.PageSelection
import PdfContent.Pattern
import PdfContent.Proofs.CMapLayout
import PdfContent.Proofs.CMapNotation
import PdfContent.Proofs.CMapSpacing
import PdfContent.Proofs.CMapWords
import PdfContent.Proofs.CidMeaning
import PdfContent.Proofs.CodeSplitting
import PdfContent.Proofs.Codespaces
import PdfContent.Proofs.Completeness
import PdfContent.Proofs.ConcurrentLoads
import PdfContent.Proofs.CursorLexer
import PdfContent.Proofs.CursorOperands
import PdfContent.Proofs.CursorReaders
import PdfContent.Proofs.CursorStrings
import PdfContent.Proofs.CursorTokens
import PdfContent.Proofs.DeviceSpaces
import PdfContent.Proofs.Differences
import PdfContent.Proofs.Doubles
import PdfContent.Proofs.EndedRuns
import PdfContent.Proofs.ExpandedMaps
import PdfContent.Proofs.FillOnly
import PdfContent.Proofs.Flag
import PdfContent.Proofs.FlavourNames
import PdfContent.Proofs.FontReferences
import PdfContent.Proofs.FormLookup
import PdfContent.Proofs.FormNesting
import PdfContent.Proofs.GlyphFacts
import PdfContent.Proofs.GlyphNames
import PdfContent.Proofs.IdentityMaps
import PdfContent.Proofs.ImageData
import PdfContent.Proofs.ImageParameters
import PdfContent.Proofs.IndexedSpaces
import PdfContent.Proofs.InheritedResources
import PdfContent.Proofs.Ink
import PdfContent.Proofs.IntegerDoubles
import PdfContent.Proofs.KeptFacts
import PdfContent.Proofs.KeptResources
import PdfContent.Proofs.Lookahead
import PdfContent.Proofs.Lookups
import PdfContent.Proofs.LostResources
import PdfContent.Proofs.MixedLengths
import PdfContent.Proofs.NameSpelling
import PdfContent.Proofs.NestedOperands
import PdfContent.Proofs.NestingLimit
import PdfContent.Proofs.NodeLinks
import PdfContent.Proofs.Numerals
import PdfContent.Proofs.OpaqueResources
import PdfContent.Proofs.OpenFrames
import PdfContent.Proofs.OperatorNodes
import PdfContent.Proofs.PageInheritance
import PdfContent.Proofs.PageSelections
import PdfContent.Proofs.PageTokens
import PdfContent.Proofs.PaintedForms
import PdfContent.Proofs.Painting
import PdfContent.Proofs.PairedRuns
import PdfContent.Proofs.ParameterOverlays
import PdfContent.Proofs.PatternSpaces
import PdfContent.Proofs.Printing
import PdfContent.Proofs.RangeBounds
import PdfContent.Proofs.RangeExpansion
import PdfContent.Proofs.ResourceNames
import PdfContent.Proofs.RoundTrip
import PdfContent.Proofs.RowFields
import PdfContent.Proofs.SavedStates
import PdfContent.Proofs.SessionHistory
import PdfContent.Proofs.SessionKeeps
import PdfContent.Proofs.ShownStrings
import PdfContent.Proofs.SilentRuns
import PdfContent.Proofs.SilentSessions
import PdfContent.Proofs.SoundFonts
import PdfContent.Proofs.Soundness
import PdfContent.Proofs.SpaceNesting
import PdfContent.Proofs.SpacedMaps
import PdfContent.Proofs.SpelledNames
import PdfContent.Proofs.StackDepth
import PdfContent.Proofs.StateChanges
import PdfContent.Proofs.StateParts
import PdfContent.Proofs.StringSpelling
import PdfContent.Proofs.StrokeAlpha
import PdfContent.Proofs.TextBytes
import PdfContent.Proofs.TextCuts
import PdfContent.Proofs.TextPieces
import PdfContent.Proofs.TextUnits
import PdfContent.Proofs.ToUnicodeMeaning
import PdfContent.Proofs.TokenLookahead
import PdfContent.Proofs.Traversals
import PdfContent.Proofs.UnknownOperators
import PdfContent.Proofs.UnlimitedNesting
import PdfContent.Proofs.UnopenedStreams
import PdfContent.Proofs.UnreportedSpaces
import PdfContent.Proofs.Utf16Codes
import PdfContent.Proofs.Verdicts
import PdfContent.Proofs.WarningSites
import PdfContent.Proofs.WidthArrays
import PdfContent.Proofs.WrittenSpaces
import PdfContent.Report
import PdfContent.Resolving
import PdfContent.Resources
import PdfContent.Session
import PdfContent.SyntaxFault
import PdfContent.Text.Blank
import PdfContent.Text.Printable
import PdfContent.Text.Quoted
import PdfContent.Text.Search
import PdfContent.Text.Utf16
import PdfContent.Text.Utf8
import PdfContent.Token
import PdfContent.Transparency
import PdfContent.Warning
import PdfContent.XObject
