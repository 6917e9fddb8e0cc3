import ProtoRoutes.Text.CodeRanges

/-!
# ProtoRoutes.Text.Blank

Blank characters, trimming and words. Comments, parameter names, environment values and doc texts
are trimmed of the same blanks: the spaces of all scripts, line and paragraph ends and the
separators of the control range.
-/

namespace ProtoRoutes.Text

/-- The blank characters. -/
def blankRanges : CodeRanges :=
  [(0x9, 0xd), (0x1c, 0x20), (0x85, 0x85), (0xa0, 0xa0), (0x1680, 0x1680), (0x2000, 0x200a),
   (0x2028, 0x2029), (0x202f, 0x202f), (0x205f, 0x205f), (0x3000, 0x3000)]

/-- A blank character. -/
def isBlank (c : Char) : Bool :=
  blankRanges.contains c

/-- A text without the characters of a class at its end. -/
def dropEndWhile (p : Char → Bool) (cs : List Char) : List Char :=
  (cs.reverse.dropWhile p).reverse

/-- A text without the blanks at its two ends. -/
def trim (cs : List Char) : List Char :=
  dropEndWhile isBlank (cs.dropWhile isBlank)

/-- Puts a character in front of the first word, or starts a word with it. -/
def consWord (c : Char) : List (List Char) → List (List Char)
  | [] => [[c]]
  | w :: ws => (c :: w) :: ws

/-- The pieces of a text between blanks, empty ones included. -/
def blankSplit : List Char → List (List Char)
  | [] => [[]]
  | c :: rest => if isBlank c then [] :: blankSplit rest else consWord c (blankSplit rest)

/-- The words of a text: its maximal pieces without blanks. -/
def words (cs : List Char) : List (List Char) :=
  (blankSplit cs).filter (!·.isEmpty)

end ProtoRoutes.Text
