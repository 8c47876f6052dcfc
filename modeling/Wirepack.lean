import Wirepack.Bytes
import Wirepack.Command.Arguments
import Wirepack.Command.Files
import Wirepack.Command.Hexdump
import Wirepack.Command.Run
import Wirepack.Config
import Wirepack.Decimal
import Wirepack.Double
import Wirepack.Family.Basic
import Wirepack.Family.Codec
import Wirepack.Fault
import Wirepack.Json.Basic
import Wirepack.Json.Printer
import Wirepack.Json.Reader
import Wirepack.Keyed
import Wirepack.Main
import Wirepack.Message.Decode
import Wirepack.Message.Encode
import Wirepack.Message.Json
import Wirepack.Path
import Wirepack.Schema.Basic
import Wirepack.Schema.Document
import Wirepack.Schema.FieldType
import Wirepack.Schema.Text.Attempts
import Wirepack.Schema.Text.Grammar
import Wirepack.Schema.Text.Parse
import Wirepack.Schema.Text.Printer
import Wirepack.Schema.Text.Report
import Wirepack.Schema.Validate
import Wirepack.Text.Invisible
import Wirepack.Text.Joining
import Wirepack.Text.Quoted
import Wirepack.Text.Unassigned
import Wirepack.Text.Utf8
import Wirepack.Value
import Wirepack.Value.Tagged
import Wirepack.Wire.Buffer
import Wirepack.Wire.Cursor
import Wirepack.Wire.FixedPoint
import Wirepack.Wire.Varint
import Wirepack.Wire.Zigzag
import Wirepack.Proofs.Reading
import Wirepack.Proofs.TypedReading
import Wirepack.Proofs.Encoding
import Wirepack.Proofs.FamilyRoundTrip
import Wirepack.Proofs.RoundTrip
import Wirepack.Proofs.Progress
import Wirepack.Proofs.Validation
import Wirepack.Proofs.FamilySchema
import Wirepack.Proofs.Appending
import Wirepack.Proofs.Composed
import Wirepack.Proofs.Extension
import Wirepack.Proofs.Decoding
import Wirepack.Proofs.Canonical
import Wirepack.Proofs.SchemaParsing
import Wirepack.Proofs.Doubles
import Wirepack.Proofs.JsonParts
import Wirepack.Proofs.Verdicts
import Wirepack.Proofs.JsonReading
import Wirepack.Proofs.JsonRoundTrip
import Wirepack.Proofs.ExactTypes
import Wirepack.Proofs.ThroughJson
import Wirepack.Proofs.Varints
import Wirepack.Proofs.BufferRuns
import Wirepack.Proofs.CursorRuns
import Wirepack.Proofs.VersionGate
import Wirepack.Proofs.TrueFaults
import Wirepack.Proofs.Conformance
import Wirepack.Proofs.Layers
import Wirepack.Proofs.DepthGuard
import Wirepack.Proofs.FirstMismatch
import Wirepack.Proofs.DeclaredContent
import Wirepack.Proofs.Limits
import Wirepack.Proofs.SchemaDefects
import Wirepack.Proofs.FamilyDefinitions
import Wirepack.Proofs.SchemaPrinting
import Wirepack.Proofs.TypeNames
import Wirepack.Proofs.Positional
import Wirepack.Proofs.Streams
import Wirepack.Proofs.Carried
import Wirepack.Proofs.Splitting
import Wirepack.Proofs.Weight
import Wirepack.Proofs.ShortestVarints
import Wirepack.Proofs.ZigzagNumbers
import Wirepack.Proofs.FileWrites
import Wirepack.Proofs.CommandEffects
import Wirepack.Proofs.SchemaIndex
import Wirepack.Proofs.SchemaMarks
import Wirepack.Proofs.HexRows
