import ProtoRoutes.Source.Error
import ProtoRoutes.Text.Alphanumeric
import ProtoRoutes.Text.Blank

/-!
# ProtoRoutes.Source.Lexer

From characters to tokens. `scan` reads one piece of the text, a blank or a token, and tells how
many characters it takes; `tokensFrom` does so until the text ends and keeps the place of every
token.

The classes of pieces are tried in this order: blanks, comments, string literals, numbers, words,
signs.
-/

namespace ProtoRoutes.Source

open Text (trim isAlphanumeric)

/-! ### Comments -/

/-- The content of a line comment, given what follows `//`: further slashes do not count. -/
def lineCommentText (body : List Char) : List Char :=
  trim (body.dropWhile (· = '/'))

/-- One line of a block comment: a star in front of it does not count. -/
def blockCommentLine (line : List Char) : List Char :=
  match trim line with
  | '*' :: rest => trim rest
  | stripped => stripped

/-- The content of a block comment, given what stands between its signs. -/
def blockCommentText (body : List Char) : List Char :=
  trim (['\n'].intercalate ((body.splitOn '\n').map blockCommentLine))

/-- What stands in front of the sign that ends a block comment. -/
def blockCommentBody? : List Char → Option (List Char)
  | [] => none
  | [_] => none
  | c :: d :: rest =>
    if c = '*' && d = '/' then some [] else (blockCommentBody? (d :: rest)).map (c :: ·)

/-! ### String literals -/

/-- What a backslash and the character behind it stand for. Without a meaning both are kept. -/
def unescape : Char → List Char
  | '"' => ['"']
  | '\'' => ['\'']
  | '\\' => ['\\']
  | 'n' => ['\n']
  | 'r' => ['\r']
  | 't' => ['\t']
  | c => ['\\', c]

/-- The value of a string literal and its length after the opening quote, given what follows that
quote. The character behind a backslash is taken whatever it is; otherwise a line end may not come
before the closing quote. -/
def stringBody? (quote : Char) : List Char → Option (List Char × Nat)
  | [] => none
  | [c] => if c = quote then some ([], 1) else none
  | c :: d :: rest =>
    if c = quote then some ([], 1)
    else if c = '\n' then none
    else if c = '\\' then
      (stringBody? quote rest).map fun (value, n) => (unescape d ++ value, n + 2)
    else (stringBody? quote (d :: rest)).map fun (value, n) => (c :: value, n + 1)

/-! ### Numbers -/

/-- A hexadecimal digit. -/
def isHexDigit (c : Char) : Bool :=
  c.isDigit || ('a' ≤ c && c ≤ 'f') || ('A' ≤ c && c ≤ 'F')

/-- The fraction part at the start of a text. -/
def fractionPart : List Char → List Char
  | '.' :: rest => '.' :: rest.takeWhile Char.isDigit
  | _ => []

/-- The exponent part at the start of a text. Without a digit it is none. -/
def exponentPart : List Char → List Char
  | e :: s :: rest =>
    if e = 'e' || e = 'E' then
      if s.isDigit then e :: s :: rest.takeWhile Char.isDigit
      else if (s = '+' || s = '-') && rest.head?.any Char.isDigit then
        e :: s :: rest.takeWhile Char.isDigit
      else []
    else []
  | _ => []

/-- The decimal number at the start of a text. -/
def decimalPart (cs : List Char) : List Char :=
  let whole := cs.takeWhile Char.isDigit
  let fraction := fractionPart (cs.drop whole.length)
  let exponent := exponentPart (cs.drop (whole.length + fraction.length))
  whole ++ fraction ++ exponent

/-- The number at the start of a text that starts like one. -/
def numberPart : List Char → List Char
  | '0' :: x :: rest =>
    if x = 'x' || x = 'X' then '0' :: x :: rest.takeWhile isHexDigit
    else decimalPart ('0' :: x :: rest)
  | cs => decimalPart cs

/-- Whether a number starts with this character in front of this text. -/
def startsNumber (c : Char) (rest : List Char) : Bool :=
  c.isDigit || (c = '.' && rest.head?.any Char.isDigit)

/-! ### Words and blanks -/

/-- A character that a word may start with. -/
def isWordStart (c : Char) : Bool :=
  c.isAlpha || c = '_'

/-- A character that a word may go on with. -/
def isWordChar (c : Char) : Bool :=
  c.isAlphanum || c = '_'

/-- A character between tokens. The byte order mark is one of them. -/
def isGap (c : Char) : Bool :=
  c = ' ' || c = '\t' || c = '\r' || c = '\n' || c = '\x0c' || c = '\x0b' || c = '\ufeff'

/-- What a word is. -/
def wordKind (word : String) : TokenKind :=
  match Keyword.ofText? word with
  | some k => .keyword k
  | none => .ident

/-! ### Pieces -/

/-- A piece of the text. -/
inductive Piece where
  | gap
  | token (kind : TokenKind) (text : String)

/-- A piece that is a token. -/
def Piece.ofChars (kind : TokenKind) (cs : List Char) : Piece :=
  .token kind (String.ofList cs)

/-- The piece that starts with a character in front of a text, and how many characters of that text
belong to it. -/
def scan (c : Char) (rest : List Char) : Except Defect (Piece × Nat) :=
  if isGap c then .ok (.gap, 0)
  else if c = '/' && rest.head? = some '/' then
    let body := rest.tail.takeWhile (· ≠ '\n')
    .ok (.ofChars .comment (lineCommentText body), body.length + 1)
  else if c = '/' && rest.head? = some '*' then
    match blockCommentBody? rest.tail with
    | some body => .ok (.ofChars .comment (blockCommentText body), body.length + 3)
    | none => .error .openComment
  else if c = '"' || c = '\'' then
    match stringBody? c rest with
    | some (value, n) => .ok (.ofChars .string value, n)
    | none => .error .openString
  else if startsNumber c rest then
    let number := numberPart (c :: rest)
    let n := number.length - 1
    match rest.drop n with
    | d :: _ =>
      if isAlphanumeric d || d = '_' then .error (.malformedNumber (String.ofList (number ++ [d])))
      else .ok (.ofChars .number number, n)
    | [] => .ok (.ofChars .number number, n)
  else if isWordStart c then
    let word := rest.takeWhile isWordChar
    let text := String.ofList (c :: word)
    .ok (.token (wordKind text) text, word.length)
  else match Punct.ofChar? c with
    | some p => .ok (.token (.punct p) c.toString, 0)
    | none => .error (.unknownChar c)

/-- The place behind a piece. Inside a string literal no character starts a new line. -/
def Piece.stop (piece : Piece) (start : Position) (span : List Char) : Position :=
  match piece with
  | .token .string _ => start.right span.length
  | _ => start.after span

/-- The token that a piece is, if it is no gap. -/
def Piece.token? (piece : Piece) (start stop : Position) : Option Token :=
  match piece with
  | .gap => none
  | .token kind text => some ⟨kind, text, start, stop.line⟩

/-- The tokens of a text that starts at a place. -/
def tokensFrom (pos : Position) : List Char → Except SchemaError TokenStream
  | [] => .ok ⟨[], pos⟩
  | c :: rest =>
    match scan c rest with
    | .error defect => .error (.defect pos defect)
    | .ok (piece, n) =>
      let stop := piece.stop pos (c :: rest.take n)
      (tokensFrom stop (rest.drop n)).map fun stream =>
        ⟨(piece.token? pos stop).toList ++ stream.tokens, stream.stop⟩
  termination_by cs => cs.length
  decreasing_by simp only [List.length_drop, List.length_cons]; omega

/-- The tokens of a text. -/
def tokens (text : String) : Except SchemaError TokenStream :=
  tokensFrom .start text.toList

end ProtoRoutes.Source
