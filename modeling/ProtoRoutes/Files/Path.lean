/-!
# ProtoRoutes.Files.Path

Paths as text. A path keeps its `..` components, because what they lead to depends on the file tree;
doubled and trailing slashes and `.` components vanish. Two slashes in front of a path are kept
apart from one, three or more count as one.
-/

namespace ProtoRoutes.Files

/-- A path. -/
structure Path where
  /-- Nothing for a relative path, else one or two slashes. -/
  root : String
  parts : List String
  deriving DecidableEq, Repr

namespace Path

/-- The root of a path, given how many slashes are in front of it. -/
def rootOf : Nat → String
  | 0 => ""
  | 2 => "//"
  | _ => "/"

/-- The texts between the slashes of a text. -/
def pieces (text : String) : List String :=
  ((text.toList.splitOn '/').filter (!·.isEmpty)).map String.ofList

/-- The path that a text stands for. -/
def ofText (text : String) : Path :=
  ⟨rootOf (text.toList.takeWhile (· = '/')).length, (pieces text).filter (· ≠ ".")⟩

/-- The text of a path. -/
def text (p : Path) : String :=
  if p.root.isEmpty && p.parts.isEmpty then "." else p.root ++ "/".intercalate p.parts

/-- A path below another one. An absolute path stays itself. -/
def join (p q : Path) : Path :=
  if q.root.isEmpty then ⟨p.root, p.parts ++ q.parts⟩ else q

/-- The last component. -/
def name (p : Path) : String :=
  p.parts.getLast?.getD ""

end Path

/-- A file name put behind a directory as it was given. -/
def under (directory fileName : String) : String :=
  if directory.isEmpty || directory.toList.getLast? = some '/' then directory ++ fileName
  else directory ++ "/" ++ fileName

end ProtoRoutes.Files
