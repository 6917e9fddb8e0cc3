import ProtoRoutes.Toml.Nested

/-!
# ProtoRoutes.Toml.Document

Whole documents. A document is read statement by statement, and a statement ends with its line. Keys
are put into the table of the last header. A header names a table that no header or dotted key has
made before, or adds a table to an array of tables; nothing is added to arrays and tables that were
written as values.
-/

namespace ProtoRoutes.Toml

/-- A document under construction. -/
structure Document where
  table : Table
  /-- The path of the last header. -/
  header : KeyPath
  /-- The paths of arrays and tables that were written as values. -/
  closed : List KeyPath
  /-- The paths of tables that no later header may name. -/
  opened : List KeyPath
  /-- The paths of tables made by dotted keys since the last header. -/
  dotted : List KeyPath

namespace Document

/-- The document before its first statement. -/
def empty : Document := ⟨[], [], [], [], []⟩

/-- The proper beginnings of a key, without the empty one. -/
def beginnings (path : KeyPath) : List KeyPath :=
  (List.range (path.length - 1)).map fun n => path.take (n + 1)

/-- The document with a key of the current table. -/
def add? (d : Document) (path : KeyPath) (v : Value) : Option Document :=
  let containers := (beginnings path).map (d.header ++ ·)
  let parent := d.header ++ path.dropLast
  if containers.any d.opened.contains || covers d.closed parent then none
  else
    let change := fun inner => Table.add? inner (path.getLast?.getD "") v
    (d.table.within true change parent).map fun table =>
      { d with
        table
        dotted := d.dotted ++ containers
        closed := if v.isNest then (d.header ++ path) :: d.closed else d.closed }

/-- The document at a header: tables made by dotted keys before it are complete. -/
def settle (d : Document) : Document :=
  { d with opened := d.opened ++ d.dotted, dotted := [] }

/-- The document behind the header of a table. -/
def openTable? (d : Document) (path : KeyPath) : Option Document :=
  let d := d.settle
  if d.opened.contains path || covers d.closed path then none
  else
    (d.table.within true some path).map fun table =>
      { d with table, header := path, opened := path :: d.opened }

/-- An array of tables with one more. -/
def appendTable? (key : String) (t : Table) : Option Table :=
  match t.lookup key with
  | none => some (t.set key (.array [.table []]))
  | some (.array items) => some (t.set key (.array (items ++ [.table []])))
  | some _ => none

/-- The document behind the header of an array of tables. What was said about the tables below it
does not hold for the new one. -/
def openArray? (d : Document) (path : KeyPath) : Option Document :=
  let d := d.settle
  if covers d.closed path then none
  else
    (d.table.within true (appendTable? (path.getLast?.getD "")) path.dropLast).map fun table =>
      { d with
        table
        header := path
        closed := d.closed.filter fun p => !path.isPrefixOf p
        opened := path :: d.opened.filter fun p => !path.isPrefixOf p }

/-- Goes on with a document, if there is one. -/
def orMalformed : Option Document → Reader Document
  | some d => pure d
  | none => Reader.malformed

/-- A key with its value. -/
def keyValue (d : Document) : Reader Document := do
  let path ← key
  Reader.expect "="
  skipBlanks
  let v ← value
  orMalformed (d.add? path v)

/-- A header. -/
def heading (d : Document) : Reader Document := do
  if ← Reader.take? "[[" then
    skipBlanks
    let path ← key
    let d ← orMalformed (d.openArray? path)
    Reader.expect "]]"
    pure d
  else
    Reader.expect "["
    skipBlanks
    let path ← key
    let d ← orMalformed (d.openTable? path)
    Reader.expect "]"
    pure d

/-- A statement, which may be empty. -/
def statement (d : Document) : Reader Document := do
  match ← Reader.peek? with
  | some c =>
    if startsKey c then keyValue d
    else if c = '[' then heading d
    else pure d
  | none => pure d

/-- The rest of a document of at most `bound` lines. -/
def linesWithin : Nat → Document → Reader Document
  | 0, _ => Reader.malformed
  | bound + 1, d => do
    skipBlanks
    let d ← statement d
    skipBlanks
    skipComment
    if ← Reader.atEnd then pure d
    else
      Reader.expect "\n"
      linesWithin bound d

end Document

/-- Makes a carriage return with a line feed behind it a line feed. -/
def joinLineEnds : List Char → List Char
  | '\r' :: '\n' :: rest => '\n' :: joinLineEnds rest
  | c :: rest => c :: joinLineEnds rest
  | [] => []

/-- The table of a document. It has no more lines than one more than its characters. -/
def parse (text : String) : Except Fault Table :=
  let cs := joinLineEnds text.toList
  (Document.linesWithin (cs.length + 1) .empty cs).map (·.1.table)

end ProtoRoutes.Toml
