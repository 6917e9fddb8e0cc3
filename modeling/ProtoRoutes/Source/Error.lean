import ProtoRoutes.Source.Token
import ProtoRoutes.Number.Literal
import ProtoRoutes.Text.Quoted

/-!
# ProtoRoutes.Source.Error

Why a schema cannot be read. An error is a cause with the data that its wording needs;
`SchemaError.message` is the one place where it becomes a sentence.
-/

namespace ProtoRoutes

open Text (quoted)

/-- What stood at a place where something else was needed. -/
inductive Expected where
  | sign (p : Punct)
  | keyword (k : Keyword)
  | versionString
  | identifier
  | identifierAfterDot
  | stringLiteral
  | integer
  | optionName
  | optionValue
  | numberAfterSign
  | literalFieldName
  | colonAfter (key : String)
  | literalEnd
  | serviceName
  | methodName
  | messageName
  | fieldName
  | oneofName
  | enumName
  | enumValueName
  | serviceItem
  | methodItem
  | methodEnd
  | fieldNumber
  | integerFieldNumber
  | unlabelledField
  | unlabelledMap
  | messageEnd (name : String)
  | oneofEnd (name : String)
  | enumEnd (name : String)
  deriving DecidableEq, Repr

/-- What was needed, in words. -/
def Expected.text : Expected → String
  | sign p => "'" ++ p.char.toString ++ "'"
  | keyword k => "'" ++ k.text ++ "'"
  | versionString => "syntax version string"
  | identifier => "identifier"
  | identifierAfterDot => "identifier after '.'"
  | stringLiteral => "string literal"
  | integer => "integer"
  | optionName => "option name"
  | optionValue => "option value"
  | numberAfterSign => "number after sign"
  | literalFieldName => "field name in message literal"
  | colonAfter key => "':' after " ++ quoted key
  | literalEnd => "'\x7d' to close message literal"
  | serviceName => "service name"
  | methodName => "method name"
  | messageName => "message name"
  | fieldName => "field name"
  | oneofName => "oneof name"
  | enumName => "enum name"
  | enumValueName => "enum value name"
  | serviceItem => "'rpc', 'option' or '\x7d'"
  | methodItem => "'option' or '\x7d'"
  | methodEnd => "'\x7b' or ';'"
  | fieldNumber => "field number"
  | integerFieldNumber => "integer field number"
  | unlabelledField => "field type (labels are not allowed in oneof)"
  | unlabelledMap => "map field without a label"
  | messageEnd name => "'\x7d' to close message " ++ name
  | oneofEnd name => "'\x7d' to close oneof " ++ name
  | enumEnd name => "'\x7d' to close enum " ++ name

/-- What is wrong at one place of the text. -/
inductive Defect where
  | openComment
  | openString
  | malformedNumber (text : String)
  | unknownChar (c : Char)
  | unknownVersion (text : String)
  | tooDeep (limit : Nat)
  | mapKey (text : String)
  | fieldNumberRange (number : Nat)
  | emptyRange (first last : Int)
  | reservedName (name message : String)
  | reservedNumber (number : Nat) (message : String)
  deriving DecidableEq, Repr

/-- What is wrong, in words. -/
def Defect.text : Defect → String
  | openComment => "Unterminated block comment"
  | openString => "Unterminated string literal"
  | malformedNumber text => "Malformed number " ++ quoted text
  | unknownChar c => "Unexpected character " ++ quoted c.toString
  | unknownVersion text => "Unsupported syntax " ++ quoted text ++ ", expected proto2 or proto3"
  | tooDeep limit => s!"Nesting deeper than {limit} levels"
  | mapKey text => "Invalid map key type " ++ quoted text
  | fieldNumberRange number => s!"Field number {number} is out of range"
  | emptyRange first last => s!"Invalid reserved range {first} to {last}"
  | reservedName name message =>
    "Field name " ++ quoted name ++ " is reserved in message " ++ message
  | reservedNumber number message => s!"Field number {number} is reserved in message {message}"

/-- Parts of the language that are recognised and refused. -/
inductive Feature where
  | extendBlock
  | inMessage (word message : String)
  | group
  deriving DecidableEq, Repr

/-- A refused part of the language, in words. -/
def Feature.text : Feature → String
  | extendBlock => "extend blocks"
  | inMessage word message => "'" ++ word ++ "' in message " ++ message
  | group => "group fields"

/-- What is defined twice. -/
inductive Definition where
  | package
  | named (name : String)
  | member (scope name : String)
  | fieldNumber (number : Nat) (message : String)
  deriving DecidableEq, Repr

/-- What is defined twice, in words. -/
def Definition.text : Definition → String
  | package => "package"
  | named name => name
  | member scope name => scope ++ "." ++ name
  | fieldNumber number message => s!"field number {number} in message {message}"

/-- Why a schema cannot be loaded: faults of its text, and of the files around it. -/
inductive SchemaError where
  | defect (pos : Position) (what : Defect)
  | unexpected (token : String) (pos : Position) (expected : Expected)
  | trailing (token : String) (pos : Position)
  | unsupported (feature : Feature) (line : Nat)
  | duplicate (what : Definition) (line : Nat)
  | fileNotFound (path : String)
  | notUtf8 (path : String)
  | importNotFound (path : String) (searched : List String)
  | importCycle (cycle : List String)
  | importTooDeep (path : String) (depth : Nat) (limit : Int)
  deriving DecidableEq, Repr

namespace SchemaError

/-- Content behind the definitions, in words. -/
def trailingText (token : String) (pos : Position) : String :=
  "Unexpected content at end of file: " ++ quoted token ++
    s!" at line {pos.line}, column {pos.column}"

/-- The sentence that reports an error. -/
def message : SchemaError → String
  | defect ⟨line, column⟩ what => s!"Syntax error at line {line}, column {column}: " ++ what.text
  | unexpected token ⟨line, _⟩ expected =>
    "Unexpected token " ++ quoted token ++ s!" at line {line}, expected " ++ expected.text
  | trailing token pos => "Invalid Protocol Buffer syntax: " ++ trailingText token pos
  | unsupported feature line => s!"Unsupported feature at line {line}: " ++ feature.text
  | duplicate what line => "Duplicate definition: " ++ what.text ++ s!" at line {line}"
  | fileNotFound path => "File not found: " ++ path
  | notUtf8 path => "Invalid encoding in file: " ++ path
  | importNotFound path _ => "Import not found: " ++ path
  | importCycle cycle => "Circular import detected: " ++ " -> ".intercalate cycle
  | importTooDeep path depth limit =>
    s!"Import depth {depth} exceeds the configured maximum of {limit} while importing {path}"

/-- The numbers that the sentence of an error quotes from the text. -/
def numbers : SchemaError → List Int
  | defect _ (.fieldNumberRange n) => [n]
  | defect _ (.emptyRange first last) => [first, last]
  | defect _ (.reservedNumber n _) => [n]
  | duplicate (.fieldNumber n _) _ => [n]
  | _ => []

end SchemaError

/-- How reading a schema can stop without a report about its text. -/
inductive Breakdown where
  /-- An option value that stands for no number. -/
  | number (fault : Number.Fault)
  /-- An error whose sentence would quote a number of too many digits. -/
  | unprintable
  /-- A loop that did not consume anything. -/
  | stalled
  /-- A path goes on behind a file. -/
  | notDirectory
  /-- A directory was asked for without being named. -/
  | unnamedPath
  deriving DecidableEq, Repr

/-- Why reading a schema stopped. -/
inductive Failure where
  | error (e : SchemaError)
  | breakdown (b : Breakdown)
  deriving DecidableEq, Repr

/-- The failure that reports an error. A number of more than 4300 digits cannot be printed, so an
error that would quote one breaks down instead. -/
def Failure.report (e : SchemaError) : Failure :=
  if e.numbers.all fun n => n.natAbs < Nat.pow 10 Number.maxDecimalDigits then .error e
  else .breakdown .unprintable

end ProtoRoutes
