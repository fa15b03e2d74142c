import WireSchema.Bytes.Base58
import WireSchema.Bytes.Base64
import WireSchema.Bytes.Curve
import WireSchema.Bytes.Hex
import WireSchema.Bytes.Inflate
import WireSchema.Bytes.LittleEndian
import WireSchema.Bytes.Sha256
import WireSchema.Codec.Basic
import WireSchema.Codec.Decoder
import WireSchema.Codec.Derivation
import WireSchema.Codec.DerivationError
import WireSchema.Codec.Encoder
import WireSchema.Codec.Error
import WireSchema.Codec.Reader
import WireSchema.Codec.Recursion
import WireSchema.Codec.Size
import WireSchema.Codec.Value
import WireSchema.CommandLine.Arguments
import WireSchema.CommandLine.Files
import WireSchema.CommandLine.Invocation
import WireSchema.CommandLine.Report
import WireSchema.CommandLine.Run
import WireSchema.Decimal.Binary
import WireSchema.Decimal.Integer
import WireSchema.Decimal.Literal
import WireSchema.Decimal.Power
import WireSchema.Decimal.Shortest
import WireSchema.Json.Basic
import WireSchema.Json.Number
import WireSchema.Json.Printer
import WireSchema.Json.Reader
import WireSchema.Keyed
import WireSchema.Main
import WireSchema.Program.Address
import WireSchema.Program.Basic
import WireSchema.Program.Constant
import WireSchema.Program.Dispatch
import WireSchema.Schema.Account
import WireSchema.Schema.Definition
import WireSchema.Schema.Discriminator
import WireSchema.Schema.Document
import WireSchema.Schema.Error
import WireSchema.Schema.Legacy
import WireSchema.Schema.Record
import WireSchema.Schema.Shape
import WireSchema.Schema.Source
import WireSchema.Schema.Ty
import WireSchema.Schema.TyReading
import WireSchema.Schema.Validation
import WireSchema.Schema.Walk
import WireSchema.Settings.Basic
import WireSchema.Text.Pieces
import WireSchema.Text.Quoted
import WireSchema.Text.Utf8
import WireSchema.Text.Words
import WireSchema.Toml.Basic
import WireSchema.Toml.Reader
import WireSchema.Toml.Token
import WireSchema.Toml.Writer
import WireSchema.Unicode.Alphanumeric
import WireSchema.Unicode.Case
import WireSchema.Unicode.Printable
import WireSchema.Unicode.Ranges
import WireSchema.Proofs.Codec.Output
import WireSchema.Proofs.Codec.Alias
import WireSchema.Proofs.Codec.Canonical
import WireSchema.Proofs.Codec.LeastSize
import WireSchema.Proofs.Codec.Levels
import WireSchema.Proofs.Codec.RoundTrip
import WireSchema.Proofs.Derivation.Complete
import WireSchema.Proofs.Derivation.Identity
import WireSchema.Proofs.Derivation.Composition
import WireSchema.Proofs.Derivation.Crowded
import WireSchema.Proofs.Derivation.Order
import WireSchema.Proofs.RoundTrip
import WireSchema.Proofs.Derivation.Dangling
import WireSchema.Proofs.Program.Lookup
import WireSchema.Proofs.Program.Recognition
import WireSchema.Proofs.Codec.Shape
import WireSchema.Proofs.Program.RoundTrip
import WireSchema.Proofs.Codec.Recursion
import WireSchema.Proofs.Program.Depth
import WireSchema.Proofs.Codec.Supplied
import WireSchema.Proofs.Derivation.Sound
import WireSchema.Proofs.Program.Supplied
import WireSchema.Proofs.Schema.Places
import WireSchema.Proofs.Derivation.Slots
import WireSchema.Proofs.Derivation.Accepted
import WireSchema.Proofs.Text.Words
import WireSchema.Proofs.Schema.InstructionNames
import WireSchema.Proofs.Codec.Empty
import WireSchema.Proofs.Codec.Stepwise
import WireSchema.Proofs.Codec.Delimited
import WireSchema.Proofs.EarlyChecks
import WireSchema.Proofs.Program.Delimited
import WireSchema.Proofs.Schema.Navigation
import WireSchema.Proofs.Json.Members
import WireSchema.Proofs.Schema.Problems
import WireSchema.Proofs.Schema.Trial
import WireSchema.Proofs.Schema.Written
import WireSchema.Proofs.Schema.ReadBack
import WireSchema.Proofs.Codec.Cycles
import WireSchema.Proofs.Codec.ExactSize
import WireSchema.Proofs.Codec.Loops
import WireSchema.Proofs.Codec.Elements
import WireSchema.Proofs.Codec.Unbounded
import WireSchema.Proofs.Codec.Termination
import WireSchema.Proofs.Schema.Exclusive
import WireSchema.Proofs.Derivation.Substitution
import WireSchema.Proofs.Derivation.Balance
import WireSchema.Proofs.Derivation.Watched
import WireSchema.Proofs.Codec.Rearranged
import WireSchema.Proofs.Schema.Visits
import WireSchema.Proofs.Schema.DocumentOrder
import WireSchema.Proofs.Unicode.Classes
import WireSchema.Proofs.Text.WordRule
import WireSchema.Proofs.Json.Mentions
import WireSchema.Proofs.Schema.LegacyMarks
import WireSchema.Proofs.Text.SnakeCase
import WireSchema.Proofs.Decimal.Integer
import WireSchema.Proofs.Unicode.Trim
import WireSchema.Proofs.Program.IntegerConstants
import WireSchema.Proofs.Json.Number
import WireSchema.Proofs.Json.Literals
import WireSchema.Proofs.Program.ByteConstants
import WireSchema.Proofs.Program.ConstantCodecs
import WireSchema.Proofs.Codec.Appending
import WireSchema.Proofs.Codec.Bounds
import WireSchema.Proofs.Schema.AccountPlaces
import WireSchema.Proofs.Schema.AccountData
import WireSchema.Proofs.Text.Boundary
import WireSchema.Proofs.Schema.Payload
