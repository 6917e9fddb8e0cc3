import ProtoRoutes.Text.CaseTable

/-!
# ProtoRoutes.Text.Case

Case of characters and texts of all scripts. Both mappings may change the length of a text: the
upper case of `ß` is `SS`, and the lower case of `İ` is an `i` with a dot above. The lower case of a
capital sigma depends on where it stands: at the end of a word it is `ς`, elsewhere `σ`.

On ASCII all functions agree with those of the core library.
-/

namespace ProtoRoutes.Text

/-- An upper-case letter of some script. -/
def isUpper (c : Char) : Bool :=
  if c.toNat < 0x80 then c.isUpper else upperRuns.any (·.has c.toNat)

/-- The upper case of one character. -/
def upperChar (c : Char) : List Char :=
  if c.toNat < 0x80 then [c.toUpper]
  else match toUpperLong.lookup c.toNat with
    | some codes => codes.map Char.ofNat
    | none => [Char.ofNat (mapCode toUpperRuns c.toNat)]

/-- The upper case of a text. -/
def upper (cs : List Char) : List Char :=
  cs.flatMap upperChar

/-- Whether the nearest character that counts has case: the characters that are passed over in case
mappings do not count. -/
def casedNext (cs : List Char) : Bool :=
  match cs.dropWhile caseIgnorableRanges.contains with
  | [] => false
  | c :: _ => casedRanges.contains c

/-- The lower case of one character that stands after `before` (nearest first) and in front of
`after`. -/
def lowerChar (before : List Char) (c : Char) (after : List Char) : List Char :=
  if c.toNat < 0x80 then [c.toLower]
  else if c = '\u0130' then ['i', '\u0307']
  else if c = '\u03a3' then if casedNext before && !casedNext after then ['\u03c2'] else ['\u03c3']
  else [Char.ofNat (mapCode toLowerRuns c.toNat)]

/-- The lower case of a text that stands after `before` (nearest first). -/
def lowerFrom (before : List Char) : List Char → List Char
  | [] => []
  | c :: after => lowerChar before c after ++ lowerFrom (c :: before) after

/-- The lower case of a text. -/
def lower (cs : List Char) : List Char :=
  lowerFrom [] cs

end ProtoRoutes.Text
