import ProtoRoutes.Grammar.Files
import ProtoRoutes.Proofs.Source.Spelling

/-!
# ProtoRoutes.Proofs.Grammar.Printer

A printer for schema files. It writes one statement after the other, first the header, then the
definitions, and puts out words; `SchemaFile.print` spells them.

Three choices keep what is written from being read as something else:

* types that are no scalars are written with a dot in front, so that none of them is taken for a
  label, for a map or for the word `stream`;
* the members of a oneof stand in the block of the oneof, and nowhere else: `weave` finds out where
  the block goes between the other fields;
* the HTTP rule of a method is written as its first option, so that no other option is taken for it.
-/

namespace ProtoRoutes

open Source (Word)

/-- A keyword as a word. -/
def Keyword.word (k : Keyword) : Word := .name k.text

/-! ### Names and numbers -/

/-- A run of characters of a name as a word. -/
def chunkWord : List Char → Word
  | [c] =>
    match Punct.ofChar? c with
    | some p => .sign p
    | none => .name (String.ofList [c])
  | cs => .name (String.ofList cs)

/-- Characters of a name, cut into words: what is no sign stays together. -/
def charWords (cs : List Char) : List Word :=
  (cs.splitBy fun a b => Source.isWordChar a && Source.isWordChar b).map chunkWord

/-- A name with dots, parentheses or brackets as words. -/
def nameWords (text : String) : List Word :=
  charWords text.toList

/-- An integer. -/
def intWords (n : Int) : List Word :=
  if n < 0 then [.sign .minus, .number n.natAbs] else [.number n.natAbs]

/-- Things with commas between them. -/
def commaWords {α : Type} (words : α → List Word) : List α → List Word
  | [] => []
  | a :: as => words a ++ as.flatMap fun b => .sign .comma :: words b

/-! ### Options -/

mutual
/-- A value. Numbers are left out: their text is not known any more. -/
def Value.words : Value → List Word
  | .string text => [.quoted text]
  | .number _ => []
  | .boolean b => [.name (if b then "true" else "false")]
  | .identifier name => nameWords name
  | .message fields => .sign .lbrace :: (Value.fieldWords fields ++ [.sign .rbrace])
  | .list items => .sign .lbracket :: (Value.itemWords items ++ [.sign .rbracket])

/-- The fields of a message literal, each with a comma behind it. -/
def Value.fieldWords : List (String × Value) → List Word
  | [] => []
  | (key, v) :: fields =>
    nameWords key ++ (.sign .colon :: (v.words ++ (.sign .comma :: Value.fieldWords fields)))

/-- The items of a list literal. -/
def Value.itemWords : List Value → List Word
  | [] => []
  | v :: items => v.words ++ Value.laterWords items

/-- The items of a list literal behind the first one. -/
def Value.laterWords : List Value → List Word
  | [] => []
  | v :: items => .sign .comma :: (v.words ++ Value.laterWords items)
end

/-- An option and its value. -/
def SchemaOption.words (o : SchemaOption) : List Word :=
  nameWords o.name ++ (.sign .equals :: o.value.words)

/-- An option statement. -/
def SchemaOption.statement (o : SchemaOption) : List Word :=
  Keyword.optionKw.word :: (o.words ++ [.sign .semicolon])

/-- Options in brackets, if there are any. -/
def inlineWords : List SchemaOption → List Word
  | [] => []
  | options => .sign .lbracket :: (commaWords SchemaOption.words options ++ [.sign .rbracket])

/-! ### HTTP rules -/

/-- The field of a rule that gives a verb and a path. -/
def HttpMethod.field (m : HttpMethod) (path : String) : String × Value :=
  match HttpMethod.standard.find? (·.2 = m) with
  | some (key, _) => (key, .string path)
  | none => ("custom", .message [("kind", .string m.verb), ("path", .string path)])

/-- A field with a text, if there is one. -/
def textField (key : String) (text : Option String) : List (String × Value) :=
  text.toList.map fun s => (key, .string s)

/-- A binding as a value. -/
def HttpBinding.encode (b : HttpBinding) : Value :=
  .message (b.method.field b.path :: textField "body" b.body)

/-- A rule as a value. -/
def HttpRule.encode (r : HttpRule) : Value :=
  .message (r.primary.method.field r.primary.path ::
    (textField "body" r.primary.body ++ textField "response_body" r.responseBody ++
      [("additional_bindings", .list (r.additional.map HttpBinding.encode))]))

/-- A rule as an option. -/
def HttpRule.option (r : HttpRule) : SchemaOption :=
  ⟨"(google.api.http)", r.encode⟩

/-! ### Types -/

/-- A reference to a type. -/
def TypeRef.words (r : TypeRef) : List Word :=
  .sign .dot :: nameWords r.fullName

/-- A type that is no map. -/
def PlainType.words : PlainType → List Word
  | .scalar s => [.name s.text]
  | .ref r => r.words

/-- The type of a field. -/
def FieldType.words : FieldType → List Word
  | .plain t => t.words
  | .map key value =>
    Keyword.mapKw.word :: .sign .langle :: .name key.text :: .sign .comma ::
      (value.words ++ [.sign .rangle])

/-- The type of a method's input or output. -/
def TypeRef.methodWords (r : TypeRef) : List Word :=
  .sign .lparen ::
    ((if r.stream then [Keyword.streamKw.word] else []) ++ (r.words ++ [.sign .rparen]))

/-! ### Services -/

/-- The options of a method, with its HTTP rule in front. -/
def Method.allOptions (m : Method) : List SchemaOption :=
  (m.rule.map HttpRule.option).toList ++ m.options

/-- A method. -/
def Method.words (m : Method) : List Word :=
  Keyword.rpcKw.word :: .name m.name :: (m.input.methodWords ++ (Keyword.returnsKw.word ::
    (m.output.methodWords ++ (.sign .lbrace :: (m.allOptions.flatMap SchemaOption.statement ++
      [.sign .rbrace, .sign .semicolon])))))

/-- A service. -/
def Service.words (s : Service) : List Word :=
  Keyword.serviceKw.word :: .name s.name :: .sign .lbrace ::
    ((s.options.flatMap SchemaOption.statement ++ s.methods.flatMap Method.words) ++
    [.sign .rbrace])

/-! ### Enums -/

/-- A statement that reserves numbers. -/
def ReservedRange.statement (r : ReservedRange) : List Word :=
  Keyword.reservedKw.word ::
    (intWords r.first ++ (.name "to" :: (intWords r.last ++ [.sign .semicolon])))

/-- A statement that reserves a name. -/
def reservedNameStatement (name : String) : List Word :=
  [Keyword.reservedKw.word, .quoted name, .sign .semicolon]

/-- A value of an enum. -/
def EnumValue.words (v : EnumValue) : List Word :=
  .name v.name :: .sign .equals ::
    (intWords v.number ++ (inlineWords v.options ++ [.sign .semicolon]))

/-- An enum. -/
def Enumeration.words (e : Enumeration) : List Word :=
  Keyword.enumKw.word :: .name e.name :: .sign .lbrace ::
    ((e.options.flatMap SchemaOption.statement ++
      (e.reservedRanges.flatMap ReservedRange.statement ++
        (e.reservedNames.flatMap reservedNameStatement ++ e.values.flatMap EnumValue.words))) ++
      [.sign .rbrace])

/-! ### Messages -/

/-- A label. A field without one is optional. -/
def Label.words : Label → List Word
  | .optional => []
  | .required => [Keyword.requiredKw.word]
  | .repeated => [Keyword.repeatedKw.word]

/-- A field. -/
def Field.words (f : Field) : List Word :=
  f.label.words ++ (f.type.words ++ (.name f.name :: .sign .equals :: .number f.number ::
    (inlineWords f.options ++ [.sign .semicolon])))

/-- A oneof with its members. -/
def Oneof.words (o : Oneof) : List Word :=
  Keyword.oneofKw.word :: .name o.name :: .sign .lbrace ::
    ((o.options.flatMap SchemaOption.statement ++ o.fields.flatMap Field.words) ++ [.sign .rbrace])

/-- What a message says about its fields: one of them, or a oneof. -/
inductive Member where
  | field (f : Field)
  | group (o : Oneof)

/-- The fields of a member. -/
def Member.fields : Member → List Field
  | .field f => [f]
  | .group o => o.fields

/-- The members of a message, given its fields and its oneofs. -/
def weave (fields : List Field) : List Oneof → List Member
  | [] => fields.map .field
  | o :: oneofs =>
    (fields.takeWhile (·.oneof.isNone)).map .field ++
      .group o :: weave ((fields.dropWhile (·.oneof.isNone)).drop o.fields.length) oneofs

/-- A member of a message. -/
def Member.words : Member → List Word
  | .field f => f.words
  | .group o => o.words

mutual
/-- A message. -/
def Message.words : Message → List Word
  | ⟨name, fields, messages, enums, options, _, oneofs, ranges, names⟩ =>
    Keyword.messageKw.word :: .name name :: .sign .lbrace ::
      ((options.flatMap SchemaOption.statement ++
        (ranges.flatMap ReservedRange.statement ++
          (names.flatMap reservedNameStatement ++
            ((weave fields oneofs).flatMap Member.words ++
              (Message.wordsAll messages ++ enums.flatMap Enumeration.words))))) ++
        [.sign .rbrace])

/-- Messages one after the other. -/
def Message.wordsAll : List Message → List Word
  | [] => []
  | m :: ms => m.words ++ Message.wordsAll ms
end

/-! ### Files -/

/-- The word that tells how an import passes on what it brings. -/
def ImportKind.words : ImportKind → List Word
  | .normal => []
  | .exported => [.name "public"]
  | .weak => [.name "weak"]

/-- An import statement. -/
def Import.words (i : Import) : List Word :=
  Keyword.importKw.word :: (i.kind.words ++ [.quoted i.path, .sign .semicolon])

/-- A package statement. -/
def packageWords (name : String) : List Word :=
  Keyword.packageKw.word :: (nameWords name ++ [.sign .semicolon])

/-- A file. -/
def SchemaFile.words (f : SchemaFile) : List Word :=
  Keyword.syntaxKw.word :: .sign .equals :: .quoted f.version.text :: .sign .semicolon ::
    ((f.package.toList.flatMap packageWords ++
      (f.imports.flatMap Import.words ++ f.options.flatMap SchemaOption.statement)) ++
      (f.services.flatMap Service.words ++
        (f.messages.flatMap Message.words ++ f.enums.flatMap Enumeration.words)))

/-- A file as a text. -/
def SchemaFile.print (f : SchemaFile) : String :=
  Source.spell f.words

end ProtoRoutes
