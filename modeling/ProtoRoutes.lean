import ProtoRoutes.Text.Case
import ProtoRoutes.Text.Blank
import ProtoRoutes.Text.Digit
import ProtoRoutes.Text.Identifier
import ProtoRoutes.Text.Quoted
import ProtoRoutes.Text.Search
import ProtoRoutes.Number.Literal
import ProtoRoutes.Source.Lexer
import ProtoRoutes.Schema.Lookup
import ProtoRoutes.Grammar.Files
import ProtoRoutes.Http.Check
import ProtoRoutes.Scaffold.Modules
import ProtoRoutes.Import.Session
import ProtoRoutes.Settings.Load
import ProtoRoutes.Run.Pipeline
import ProtoRoutes.Main
import ProtoRoutes.Proofs.Grammar.Strict
import ProtoRoutes.Proofs.Grammar.Comments
import ProtoRoutes.Proofs.Import.Transparency
import ProtoRoutes.Proofs.Grammar.RoundTrip.Files
import ProtoRoutes.Proofs.Import.Closure
import ProtoRoutes.Proofs.Files.Names
import ProtoRoutes.Proofs.Import.Reports
import ProtoRoutes.Proofs.Http.Templates
import ProtoRoutes.Proofs.Scaffold.Arguments
import ProtoRoutes.Proofs.Source.Spans
import ProtoRoutes.Proofs.Http.MalformedRules
import ProtoRoutes.Proofs.Import.ChainStack
import ProtoRoutes.Proofs.Import.Consistency
import ProtoRoutes.Proofs.Grammar.Progress
import ProtoRoutes.Proofs.Number.Overflow
import ProtoRoutes.Proofs.Source.TokenClasses
import ProtoRoutes.Proofs.Files.Writing
import ProtoRoutes.Proofs.Grammar.Breakdowns
import ProtoRoutes.Proofs.Scaffold.Stems
import ProtoRoutes.Proofs.Run.Prepared
import ProtoRoutes.Proofs.Run.Atomicity
import ProtoRoutes.Proofs.Grammar.Concatenation
import ProtoRoutes.Proofs.Grammar.HeaderOrder
import ProtoRoutes.Proofs.Import.Order
import ProtoRoutes.Proofs.Source.Writing
import ProtoRoutes.Proofs.Scaffold.HandlerNames
import ProtoRoutes.Proofs.Scaffold.InterfaceMethods
import ProtoRoutes.Proofs.Scaffold.Literals
import ProtoRoutes.Proofs.Schema.TypeNames
import ProtoRoutes.Proofs.Http.Checking
import ProtoRoutes.Proofs.Http.RuleLanguage
import ProtoRoutes.Proofs.Scaffold.ArgumentNames
import ProtoRoutes.Proofs.Grammar.Attachment
import ProtoRoutes.Proofs.Grammar.RepeatedKeys
import ProtoRoutes.Proofs.Source.StringLiterals
import ProtoRoutes.Proofs.Scaffold.DocTexts
import ProtoRoutes.Proofs.Number.Exactness
import ProtoRoutes.Proofs.Grammar.NumberReadings
import ProtoRoutes.Proofs.Settings.Fields
import ProtoRoutes.Proofs.Toml.DistinctKeys
import ProtoRoutes.Proofs.Settings.Layers
import ProtoRoutes.Proofs.Text.Trimming
import ProtoRoutes.Proofs.Settings.Variables
import ProtoRoutes.Proofs.Grammar.IntegerLexemes
import ProtoRoutes.Proofs.Scaffold.SnakeCase
import ProtoRoutes.Proofs.Grammar.DepthCounter
import ProtoRoutes.Proofs.Grammar.DepthTally
import ProtoRoutes.Proofs.Grammar.Nesting
