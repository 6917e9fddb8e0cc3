/-!
# ProtoRoutes.Toml.Reader

Reading TOML text from the front, and what may stand between its parts: blanks, comments and, inside
of arrays, line ends.
-/

namespace ProtoRoutes.Toml

/-- Why a text cannot be read. -/
inductive Fault where
  | malformed
  /-- A decimal integer with more digits than are read. -/
  | longNumber
  deriving DecidableEq, Repr

/-- A step that reads from the front of a text. -/
abbrev Reader := StateT (List Char) (Except Fault)

namespace Reader

variable {α : Type}

/-- Stops, because the text is no TOML. -/
def malformed : Reader α := fun _ => .error .malformed

/-- The next character. -/
def peek? : Reader (Option Char) := fun cs => .ok (cs.head?, cs)

/-- Whether nothing is left. -/
def atEnd : Reader Bool := fun cs => .ok (cs.isEmpty, cs)

/-- Passes over characters as long as they satisfy a test. -/
def skipWhile (p : Char → Bool) : Reader Unit := fun cs => .ok ((), cs.dropWhile p)

/-- Passes over a word, if it is next. -/
def take? (word : String) : Reader Bool := fun cs =>
  if word.toList.isPrefixOf cs then .ok (true, cs.drop word.length) else .ok (false, cs)

/-- Passes over a word, which must be next. -/
def expect (word : String) : Reader Unit := do
  unless ← take? word do malformed

/-- What a function reads from the front of a text, which must succeed. -/
def ofOption (f : List Char → Option (α × List Char)) : Reader α := fun cs =>
  match f cs with
  | some (a, rest) => .ok (a, rest)
  | none => .error .malformed

end Reader

/-- Whether a character is a blank between two parts of a line. -/
def isBlank (c : Char) : Bool := c = ' ' || c = '\t'

/-- Whether a character may stand in a comment or on a line of a string. -/
def isText (c : Char) : Bool := c = '\t' || (32 ≤ c.toNat && c.toNat ≠ 127)

/-- Whether a character may stand in a string of several lines. -/
def isTextOrLineEnd (c : Char) : Bool := c = '\n' || isText c

/-- Passes over blanks. -/
def skipBlanks : Reader Unit := Reader.skipWhile isBlank

/-- Passes over the rest of a comment and, if `gap` holds, over blanks, line ends and comments
behind it. -/
def dropComment (gap : Bool) : List Char → Except Fault (List Char)
  | [] => .ok []
  | c :: rest =>
    if c = '\n' then if gap then dropGap rest else .ok (c :: rest)
    else if isText c then dropComment gap rest
    else .error .malformed
where
  /-- Passes over blanks, line ends and comments. -/
  dropGap : List Char → Except Fault (List Char)
    | [] => .ok []
    | c :: rest =>
      if c = '#' then dropComment true rest
      else if c = '\n' || isBlank c then dropGap rest
      else .ok (c :: rest)

/-- Passes over a comment, if one is next. -/
def skipComment : Reader Unit := fun cs =>
  match cs with
  | '#' :: rest => (dropComment false rest).map ((), ·)
  | _ => .ok ((), cs)

/-- Passes over blanks, line ends and comments. -/
def skipGap : Reader Unit := fun cs => (dropComment.dropGap cs).map ((), ·)

end ProtoRoutes.Toml
