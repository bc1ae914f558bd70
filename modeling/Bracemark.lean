import Bracemark.CommandLine
import Bracemark.Main
import Bracemark.Proofs.CaptionNumbers
import Bracemark.Proofs.CaptionSteps
import Bracemark.Proofs.CatalogOrder
import Bracemark.Proofs.CellText
import Bracemark.Proofs.CodeLines
import Bracemark.Proofs.DecodedArguments
import Bracemark.Proofs.DocumentShape
import Bracemark.Proofs.EscapedText
import Bracemark.Proofs.Fences
import Bracemark.Proofs.GuardedTables
import Bracemark.Proofs.History
import Bracemark.Proofs.HtmlNesting
import Bracemark.Proofs.ItemMarkers
import Bracemark.Proofs.Layouts
import Bracemark.Proofs.NestingLimit
import Bracemark.Proofs.Numerals
import Bracemark.Proofs.OwnCodes
import Bracemark.Proofs.Paragraphs
import Bracemark.Proofs.Placement
import Bracemark.Proofs.PlainTables
import Bracemark.Proofs.QuotedArguments
import Bracemark.Proofs.ReadSpans
import Bracemark.Proofs.Readings
import Bracemark.Proofs.References
import Bracemark.Proofs.Remembering
import Bracemark.Proofs.Repetition
import Bracemark.Proofs.ScopeFrames
import Bracemark.Proofs.Searches
import Bracemark.Proofs.SectionNumbers
import Bracemark.Proofs.SectionSteps
import Bracemark.Proofs.SettingsTags
import Bracemark.Proofs.SettledSpans
import Bracemark.Proofs.SingleCells
import Bracemark.Proofs.Surroundings
import Bracemark.Proofs.TableBodies
import Bracemark.Proofs.TableLayout
import Bracemark.Proofs.TableText
import Bracemark.Proofs.TextReading
import Bracemark.Proofs.UnclaimedText
import Bracemark.Proofs.VariableCounting
import Bracemark.Proofs.VariableOrder
import Bracemark.Proofs.WrittenContent
