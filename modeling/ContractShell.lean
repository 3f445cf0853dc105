import ContractShell.Command.Position
import ContractShell.Descriptor.Writer
import ContractShell.Main
import ContractShell.Session.Completion
import ContractShell.Proofs.Command.Lexeme
import ContractShell.Proofs.Command.Rendering
import ContractShell.Proofs.Command.Boundary
import ContractShell.Proofs.Command.Spelling
import ContractShell.Proofs.Command.Arguments
import ContractShell.Proofs.Command.Course
import ContractShell.Proofs.Command.Joining
import ContractShell.Proofs.Library.Derivation
import ContractShell.Proofs.Contract.Registration
import ContractShell.Proofs.Bytes.Digits
import ContractShell.Proofs.Number.Numeral
import ContractShell.Proofs.Text.Utf8
import ContractShell.Proofs.Wire.Reading
import ContractShell.Proofs.Value.Typing
import ContractShell.Proofs.Descriptor.Dialect
import ContractShell.Proofs.Descriptor.Soundness
import ContractShell.Proofs.Value.Leaf
import ContractShell.Proofs.Value.Parts
import ContractShell.Proofs.Value.WellFormed
import ContractShell.Proofs.Value.RoundTrip
import ContractShell.Proofs.Library.Plain
import ContractShell.Proofs.Library.Number
import ContractShell.Proofs.Session.Reachable
import ContractShell.Proofs.Session.MethodCall
import ContractShell.Proofs.Contract.Reach
import ContractShell.Proofs.Number.Decimal
import ContractShell.Proofs.Token.Amount
import ContractShell.Proofs.Value.Binding
import ContractShell.Proofs.Library.Linking
import ContractShell.Proofs.Library.Faithful
import ContractShell.Proofs.Value.Range
import ContractShell.Proofs.Session.Names
import ContractShell.Proofs.Session.InPlace
import ContractShell.Proofs.Session.LineRun
import ContractShell.Proofs.Node.Answers
import ContractShell.Proofs.Value.Survival
import ContractShell.Proofs.Bytes.Base64
import ContractShell.Proofs.Cipher.Gcm
import ContractShell.Proofs.Json.Strings
import ContractShell.Proofs.Json.Canonical
import ContractShell.Proofs.Json.Indented
import ContractShell.Proofs.Transaction.Commitment
import ContractShell.Proofs.Files.Growth
import ContractShell.Proofs.Wallet.RoundTrip
import ContractShell.Proofs.Session.Effect
import ContractShell.Proofs.Session.Files
import ContractShell.Proofs.Session.Wallets
import ContractShell.Proofs.Session.Connections
import ContractShell.Proofs.Program.Run
import ContractShell.Proofs.Bytes.Base58
import ContractShell.Proofs.Library.Convertible
import ContractShell.Proofs.Json.Reading
import ContractShell.Proofs.Interface.Loading
import ContractShell.Proofs.Value.HexText
import ContractShell.Proofs.Value.Acceptance
import ContractShell.Proofs.Contract.Commutation
import ContractShell.Proofs.Session.RawArguments
import ContractShell.Proofs.Program.Exit
import ContractShell.Proofs.Library.Packaging
import ContractShell.Proofs.Value.Refusal
import ContractShell.Proofs.Token.Shown
import ContractShell.Proofs.Wallet.Opening
import ContractShell.Proofs.Value.Lines
import ContractShell.Proofs.Wallet.ExchangeText
import ContractShell.Proofs.Node.Outcomes
import ContractShell.Proofs.Library.Order
import ContractShell.Proofs.Command.Cursor
import ContractShell.Proofs.Yaml.Likeness
import ContractShell.Proofs.Settings.Loading
import ContractShell.Proofs.Settings.Precedence
import ContractShell.Proofs.Settings.Usability
import ContractShell.Proofs.Wire.Joining
import ContractShell.Proofs.Library.ThirdDialect
import ContractShell.Proofs.Value.Responses
import ContractShell.Proofs.Text.Lines
import ContractShell.Proofs.Files.Writing
import ContractShell.Proofs.History
import ContractShell.Proofs.Session.Suggestions
import ContractShell.Proofs.Bytes.Unpadded
import ContractShell.Proofs.Interface.Forms
import ContractShell.Proofs.Command.Longest
import ContractShell.Proofs.Command.Quotation
import ContractShell.Proofs.Interface.EntryPoint
