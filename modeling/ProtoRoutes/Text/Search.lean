/-!
# ProtoRoutes.Text.Search

Looking for a text inside another one, and putting another text in its place.
-/

namespace ProtoRoutes.Text

/-- Whether `part` stands somewhere in a text. -/
def hasPart (part : List Char) : List Char → Bool
  | [] => part.isEmpty
  | c :: rest => part.isPrefixOf (c :: rest) || hasPart part rest

/-- Whether a text ends with `part`. -/
def endsWith (part cs : List Char) : Bool :=
  part.reverse.isPrefixOf cs.reverse

/-- Puts `new` for each character of a text that is `old`. -/
def replaceChar (old new : Char) (cs : List Char) : List Char :=
  cs.map fun c => if c = old then new else c

end ProtoRoutes.Text
