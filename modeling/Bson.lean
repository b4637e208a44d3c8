import Bson.Calendar.Date
import Bson.Calendar.Rfc3339
import Bson.Codec
import Bson.Config
import Bson.Cursor
import Bson.Decimal.Basic
import Bson.Decimal.Layout
import Bson.Decimal.Parts
import Bson.Decimal.Reading
import Bson.Decimal.Shortest
import Bson.Double.Arithmetic
import Bson.Double.Basic
import Bson.Double.Rounding
import Bson.Error
import Bson.ExtendedJson.OfValue
import Bson.ExtendedJson.ToValue
import Bson.Frame
import Bson.Halves
import Bson.Json.Basic
import Bson.Json.ObjectId
import Bson.Json.Reading
import Bson.Json.Token
import Bson.Json.Writing
import Bson.Key
import Bson.Limits
import Bson.LittleEndian
import Bson.ObjectId
import Bson.ObjectId.Process
import Bson.OrderedMap
import Bson.Reader
import Bson.Reader.InPlace
import Bson.Sink.Basic
import Bson.Sink.Tally
import Bson.Sink.Window
import Bson.Tag
import Bson.Text.Base64
import Bson.Text.Hex
import Bson.Text.Invisible
import Bson.Text.Numeral
import Bson.Text.Quoted
import Bson.Text.Scan
import Bson.Toml.Reading
import Bson.Toml.Scalar
import Bson.Toml.Table
import Bson.Value.Access
import Bson.Value.Basic
import Bson.Value.Display
import Bson.Value.Equality
import Bson.Value.Hook
import Bson.Value.Reference
import Bson.Writer
import Bson.Proofs.Reading.Bounds
import Bson.Proofs.Grammar.Basic
import Bson.Proofs.Reading.Spans
import Bson.Proofs.Grammar.Reading
import Bson.Proofs.Writing.Layout
import Bson.Proofs.Writing.Relaxed
import Bson.Proofs.Writing.Sinks
import Bson.Proofs.Writing.Writes
import Bson.Proofs.Writing.Runs
import Bson.Proofs.Writing.Encode
import Bson.Proofs.Writing.Calls
import Bson.Proofs.Grammar.Texts
import Bson.Proofs.RoundTrip.Normal
import Bson.Proofs.RoundTrip.Decode
import Bson.Proofs.Writing.Buffers
import Bson.Proofs.Writing.Counting
import Bson.Proofs.RoundTrip.Readable
import Bson.Proofs.RoundTrip.Reencode
import Bson.Proofs.RoundTrip.Occurrences
import Bson.Proofs.RoundTrip.Strict
import Bson.Proofs.Grammar.TooDeep
import Bson.Proofs.RoundTrip.Nesting
import Bson.Proofs.Reading.Moved
import Bson.Proofs.Reading.Locality
import Bson.Proofs.Reading.Blocks
import Bson.Proofs.Reading.InPlace
import Bson.Proofs.Reading.Settling
import Bson.Proofs.Reading.Promotion
import Bson.Proofs.Text.RoundTrip
import Bson.Proofs.Text.Scanning
import Bson.Proofs.Calendar.Date
import Bson.Proofs.Calendar.Rfc3339
import Bson.Proofs.ExtendedJson.Wrappers
import Bson.Proofs.ExtendedJson.RoundTrip
import Bson.Proofs.ExtendedJson.Canonical
import Bson.Proofs.Double.Fields
import Bson.Proofs.Double.Rounding
import Bson.Proofs.Double.Number
import Bson.Proofs.Double.Order
import Bson.Proofs.Double.Arithmetic
import Bson.Proofs.Value.Equality
import Bson.Proofs.RoundTrip.Equality
import Bson.Proofs.RoundTrip.Numbers
import Bson.Proofs.Decimal.Rounding
import Bson.Proofs.Decimal.Shortest
import Bson.Proofs.Decimal.Parts
import Bson.Proofs.Text.Numeral
import Bson.Proofs.Json.Numbers
import Bson.Proofs.Json.Tokens
import Bson.Proofs.Json.RoundTrip
import Bson.Proofs.ExtendedJson.Refusals
import Bson.Proofs.ExtendedJson.Depth
import Bson.Proofs.Writing.Stripped
import Bson.Proofs.Writing.CheckedKeys
import Bson.Proofs.Writing.Faults
import Bson.Proofs.Writing.Hooks
import Bson.Proofs.Writing.Ledger
import Bson.Proofs.Writing.Recorded
import Bson.Proofs.Grammar.Placement
import Bson.Proofs.Grammar.Origins
import Bson.Proofs.Reading.Splitting
import Bson.Proofs.Grammar.Growth
import Bson.Proofs.OrderedMap.History
import Bson.Proofs.OrderedMap.Merge
import Bson.Proofs.Value.PartialEquivalence
import Bson.Proofs.Value.Paths
import Bson.Proofs.ObjectId.Drawing
import Bson.Proofs.Text.Hex
import Bson.Proofs.ObjectId.Text
import Bson.Proofs.RoundTrip.Halves
