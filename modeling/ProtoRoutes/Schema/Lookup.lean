import ProtoRoutes.Schema.File

/-!
# ProtoRoutes.Schema.Lookup

The types of a file by name: `SchemaFile.types` lists all of them with their qualified names, and
`SchemaFile.findMessage?` goes from a name to its message.
-/

namespace ProtoRoutes

/-- What a named type is. -/
inductive TypeSort where
  | message | enum
  deriving DecidableEq, Repr

/-- A type of a file. -/
structure TypeEntry where
  sort : TypeSort
  name : String
  fullName : String
  deriving DecidableEq, Repr

/-- An enum as a type, below a qualified name. -/
def Enumeration.entry (qualify : String → String) (e : Enumeration) : TypeEntry :=
  ⟨.enum, e.name, qualify e.name⟩

/-- A name below a qualified name. -/
def nestedName (scope name : String) : String :=
  scope ++ "." ++ name

mutual

/-- A message with the types nested in it: the message, its messages, its enums. -/
def Message.types (fullName : String) : Message → List TypeEntry
  | ⟨name, _, messages, enums, _, _, _, _, _⟩ =>
    ⟨.message, name, fullName⟩ :: Message.nestedTypes fullName messages ++
      enums.map (·.entry (nestedName fullName))

/-- The types of the messages below a qualified name. -/
def Message.nestedTypes (scope : String) : List Message → List TypeEntry
  | [] => []
  | m :: ms => Message.types (nestedName scope m.name) m ++ Message.nestedTypes scope ms

end

namespace SchemaFile

/-- A name of the file with its package. -/
def qualify (f : SchemaFile) (name : String) : String :=
  match f.package with
  | some package => package ++ "." ++ name
  | none => name

/-- All types of a file, nested ones included. -/
def types (f : SchemaFile) : List TypeEntry :=
  f.messages.flatMap (fun m => m.types (f.qualify m.name)) ++ f.enums.map (·.entry f.qualify)

/-- The message at a path of names. -/
def messageAt? (messages : List Message) : List String → Option Message
  | [] => none
  | [name] => messages.find? (·.name = name)
  | name :: path => (messages.find? (·.name = name)).bind fun m => messageAt? m.messages path

/-- A name without the dots in front of it and without the package of the file. -/
def localName (f : SchemaFile) (name : String) : List Char :=
  let cs := name.toList.dropWhile (· = '.')
  match f.package with
  | none => cs
  | some package =>
    let scope := package.toList ++ ['.']
    if scope.isPrefixOf cs then cs.drop scope.length else cs

/-- The message with a simple, nested (`Outer.Inner`) or qualified name. -/
def findMessage? (f : SchemaFile) (name : String) : Option Message :=
  messageAt? f.messages (((f.localName name).splitOn '.').map String.ofList)

end SchemaFile

end ProtoRoutes
