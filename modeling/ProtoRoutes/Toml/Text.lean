import ProtoRoutes.Number.Literal
import ProtoRoutes.Toml.Reader
import ProtoRoutes.Toml.Value

/-!
# ProtoRoutes.Toml.Text

The four kinds of strings, and keys. A basic string stands between double quotes and has escapes, a
literal one stands between single quotes and has none; tripled quotes let either run over several
lines.
-/

namespace ProtoRoutes.Toml

/-! ### Escapes -/

/-- The character with a given hexadecimal code of fixed length. -/
def hexChar? (length : Nat) (cs : List Char) : Option Char :=
  let digits := cs.take length
  if digits.length = length then
    (Number.natOfDigits? 16 digits).bind fun n =>
      if n.isValidChar then some (Char.ofNat n) else none
  else none

/-- How many characters an escaped line end takes: blanks, the line end, and all blanks and line
ends behind it. -/
def lineEndEscape? (cs : List Char) : Option Nat :=
  match cs.dropWhile isBlank with
  | '\n' :: _ => some (cs.takeWhile fun c => c = '\n' || isBlank c).length
  | _ => none

/-- What an escape stands for and how many characters it takes, given what is behind its backslash.
-/
def escape? (multiline : Bool) (cs : List Char) : Option (List Char × Nat) :=
  match cs with
  | 'b' :: _ => some (['\x08'], 1)
  | 't' :: _ => some (['\t'], 1)
  | 'n' :: _ => some (['\n'], 1)
  | 'f' :: _ => some (['\x0c'], 1)
  | 'r' :: _ => some (['\r'], 1)
  | '"' :: _ => some (['"'], 1)
  | '\\' :: _ => some (['\\'], 1)
  | 'u' :: rest => (hexChar? 4 rest).map fun c => ([c], 5)
  | 'U' :: rest => (hexChar? 8 rest).map fun c => ([c], 9)
  | _ => if multiline then (lineEndEscape? cs).map fun n => ([], n) else none

/-! ### Strings -/

/-- The rest of a basic string and what is behind it. -/
def basic? (multiline : Bool) : List Char → Option (List Char × List Char)
  | [] => none
  | c :: rest =>
    if c = '"' then
      if !multiline then some ([], rest)
      else if ['"', '"'].isPrefixOf rest then some ([], rest.drop 2)
      else (basic? multiline rest).map fun (s, after) => (c :: s, after)
    else if c = '\\' then
      match escape? multiline rest with
      | none => none
      | some (piece, n) =>
        (basic? multiline (rest.drop n)).map fun (s, after) => (piece ++ s, after)
    else if (if multiline then isTextOrLineEnd c else isText c) then
      (basic? multiline rest).map fun (s, after) => (c :: s, after)
    else none
termination_by cs => cs.length
decreasing_by all_goals simp; try omega

/-- The rest of a literal string on one line and what is behind it. -/
def literal? : List Char → Option (List Char × List Char)
  | [] => none
  | c :: rest =>
    if c = '\'' then some ([], rest)
    else if isText c then (literal? rest).map fun (s, after) => (c :: s, after)
    else none

/-- The rest of a literal string of several lines and what is behind it. -/
def longLiteral? : List Char → Option (List Char × List Char)
  | [] => none
  | c :: rest =>
    if c = '\'' && ['\'', '\''].isPrefixOf rest then some ([], rest.drop 2)
    else if isTextOrLineEnd c then (longLiteral? rest).map fun (s, after) => (c :: s, after)
    else none

/-- Up to two quotes behind a string of several lines belong to it. -/
def extraQuotes (q : Char) (cs : List Char) : List Char :=
  (cs.take 2).takeWhile (· = q)

/-- The rest of a string of several lines, whose first line end does not count. -/
def long? (q : Char) (body : List Char → Option (List Char × List Char)) (cs : List Char) :
    Option (String × List Char) :=
  let cs := if cs.head? = some '\n' then cs.tail else cs
  (body cs).map fun (s, after) =>
    let extra := extraQuotes q after
    (String.ofList (s ++ extra), after.drop extra.length)

/-- A string on one line. -/
def short? : List Char → Option (String × List Char)
  | '"' :: rest => (basic? false rest).map fun (s, after) => (String.ofList s, after)
  | '\'' :: rest => (literal? rest).map fun (s, after) => (String.ofList s, after)
  | _ => none

/-- A string of any kind. -/
def string? : List Char → Option (String × List Char)
  | '"' :: '"' :: '"' :: rest => long? '"' (basic? true) rest
  | '\'' :: '\'' :: '\'' :: rest => long? '\'' longLiteral? rest
  | cs => short? cs

/-! ### Keys -/

/-- Whether a character may stand in a key without quotes. -/
def isBare (c : Char) : Bool := c.isAlphanum || c = '-' || c = '_'

/-- Whether a key can start with a character. -/
def startsKey (c : Char) : Bool := isBare c || c = '"' || c = '\''

/-- One part of a key. -/
def keyPart? (cs : List Char) : Option (String × List Char) :=
  match cs.takeWhile isBare with
  | [] => short? cs
  | bare => some (String.ofList bare, cs.dropWhile isBare)

/-- A key of at most `bound` parts. -/
def keyWithin : Nat → Reader KeyPath
  | 0 => Reader.malformed
  | bound + 1 => do
    let part ← Reader.ofOption keyPart?
    skipBlanks
    if ← Reader.take? "." then
      skipBlanks
      let rest ← keyWithin bound
      pure (part :: rest)
    else pure [part]

/-- A key, and the blanks behind it. It has no more parts than the text has characters. -/
def key : Reader KeyPath := fun cs => keyWithin (cs.length + 1) cs

end ProtoRoutes.Toml
