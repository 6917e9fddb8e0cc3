/-!
# ProtoRoutes.Files.SourceText

Files as text: UTF-8 without exceptions, and one kind of line end.
-/

namespace ProtoRoutes.Files

/-- Makes every line end a line feed: a carriage return counts as one, also with a line feed behind
it. -/
def foldLineEnds : List Char → List Char
  | '\r' :: '\n' :: rest => '\n' :: foldLineEnds rest
  | '\r' :: rest => '\n' :: foldLineEnds rest
  | c :: rest => c :: foldLineEnds rest
  | [] => []

/-- The text of a file, if it is UTF-8. -/
def sourceText? (bytes : ByteArray) : Option String :=
  (String.fromUTF8? bytes).map fun s => String.ofList (foldLineEnds s.toList)

end ProtoRoutes.Files
