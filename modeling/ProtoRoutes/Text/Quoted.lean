import ProtoRoutes.Text.Printable

/-!
# ProtoRoutes.Text.Quoted

Texts as messages quote them. The quote is `'`, or `"` for a text that has a `'` and no `"`. The
backslash and the quote are escaped, line feed, carriage return and tab have their letters, and
every other character without a visible form is written by its code point in hexadecimal digits: two
after `\x`, four after `\u` or eight after `\U`, whichever is the first that fits.
-/

namespace ProtoRoutes.Text

/-- The hexadecimal digits of a number, padded with zeros to a width. -/
def hexPadded (width n : Nat) : List Char :=
  let digits := Nat.toDigits 16 n
  List.replicate (width - digits.length) '0' ++ digits

/-- The escape of a character by its code point. -/
def codeEscape (c : Char) : List Char :=
  let n := c.toNat
  if n < 0x100 then '\\' :: 'x' :: hexPadded 2 n
  else if n < 0x10000 then '\\' :: 'u' :: hexPadded 4 n
  else '\\' :: 'U' :: hexPadded 8 n

/-- One character between quotes. -/
def quoteChar (quote c : Char) : List Char :=
  if c = quote || c = '\\' then ['\\', c]
  else if c = '\n' then ['\\', 'n']
  else if c = '\r' then ['\\', 'r']
  else if c = '\t' then ['\\', 't']
  else if isPrintable c then [c]
  else codeEscape c

/-- The quote that a text is put in. -/
def quoteOf (cs : List Char) : Char :=
  if cs.contains '\'' && !cs.contains '"' then '"' else '\''

/-- A text in quotes. -/
def quotedChars (cs : List Char) : List Char :=
  let quote := quoteOf cs
  quote :: cs.flatMap (quoteChar quote) ++ [quote]

/-- A text in quotes. -/
def quoted (s : String) : String :=
  String.ofList (quotedChars s.toList)

end ProtoRoutes.Text
