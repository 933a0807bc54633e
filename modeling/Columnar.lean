import Columnar.Kind
import Columnar.Kind.Promotion
import Columnar.Text.WhiteSpace
import Columnar.Text.Lowercase
import Columnar.Text.PrintableTables
import Columnar.Text.Utf16
import Columnar.Text.Utf8
import Columnar.Binary.Format
import Columnar.Binary.Rounding
import Columnar.Binary.Text
import Columnar.Numeral.Integer
import Columnar.Text.Escape
import Columnar.Text.Csv
import Columnar.Text.Inspect
import Columnar.Bytes.BigEndian
import Columnar.Error
import Columnar.Bytes.Reader
import Columnar.Word
import Columnar.Word.Order
import Columnar.Word.Sort
import Columnar.Word.Convert
import Columnar.Word.Text
import Columnar.Word.Bytes
import Columnar.Word.Stream
import Columnar.Word.Dap
import Columnar.Config.Reader
import Columnar.Environment
import Columnar.Column.Edit
import Columnar.Column.View
import Columnar.Column.Order
import Columnar.Column.Rank
import Columnar.Column.Equality
import Columnar.Column.Operation
import Columnar.Column.Render
import Columnar.Proofs.Holding
import Columnar.Proofs.Compaction
import Columnar.Proofs.Editing
import Columnar.Proofs.Ingesting
import Columnar.Proofs.Outcomes
import Columnar.Proofs.Histories
import Columnar.Proofs.BlockMoves
import Columnar.Proofs.Masks
import Columnar.Proofs.Reading
import Columnar.Proofs.StreamCodec
import Columnar.Proofs.ByteOrder
import Columnar.Proofs.DapReader
import Columnar.Proofs.DapCodec
import Columnar.Proofs.DapVectors
import Columnar.Proofs.Comparing
import Columnar.Proofs.StableSorting
import Columnar.Proofs.Ranking
import Columnar.Proofs.Flag
import Columnar.Proofs.ListView
import Columnar.Proofs.Equality
import Columnar.Proofs.Promotion
import Columnar.Proofs.Exactness
import Columnar.Proofs.ScalarCopies
import Columnar.Proofs.StoredIntegers
import Columnar.Proofs.NumericOrder
import Columnar.Proofs.Splitting
import Columnar.Proofs.Decimals
import Columnar.Proofs.TextRoundTrips
import Columnar.Proofs.Escapes
import Columnar.Proofs.QuotedTexts
import Columnar.Proofs.Fields
import Columnar.Proofs.Unescaping
import Columnar.Proofs.NccsvLists
import Columnar.Proofs.JsonLists
import Columnar.Proofs.Nearest
import Columnar.Proofs.ShortestDigits
import Columnar.Proofs.NumberTexts
import Columnar.Proofs.IntegerTexts
import Columnar.Proofs.DoubleRounding
import Columnar.Proofs.FloatingTexts
import Columnar.Proofs.HalfUp
import Columnar.Proofs.RoundedDoubles
import Columnar.Proofs.WholeNumbers
import Columnar.Proofs.IntegerIntake
import Columnar.Proofs.RawCopies
import Columnar.Proofs.FloatingPassage
import Columnar.Proofs.Lowercase
import Columnar.Proofs.CrossOrder
import Columnar.Proofs.Snapshots
import Columnar.Proofs.OrderChecks
import Columnar.Proofs.Extremes
import Columnar.Proofs.GrowthLimits
import Columnar.Proofs.MemoryBudget
import Columnar.Proofs.Switching
