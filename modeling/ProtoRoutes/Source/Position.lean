/-!
# ProtoRoutes.Source.Position

Places in a source text. Lines and columns count from one, and a column is a character, whatever its
width.
-/

namespace ProtoRoutes

/-- A place in a source text. -/
structure Position where
  line : Nat
  column : Nat
  deriving DecidableEq, Repr

namespace Position

/-- The place of the first character. -/
def start : Position := ⟨1, 1⟩

/-- The place behind a character. -/
def next (p : Position) (c : Char) : Position :=
  if c = '\n' then ⟨p.line + 1, 1⟩ else ⟨p.line, p.column + 1⟩

/-- The place behind a text. -/
def after (p : Position) (cs : List Char) : Position :=
  cs.foldl next p

/-- The place `n` columns further on the same line. -/
def right (p : Position) (n : Nat) : Position :=
  ⟨p.line, p.column + n⟩

@[simp] theorem after_nil (p : Position) : p.after [] = p := rfl

@[simp] theorem after_cons (p : Position) (c : Char) (cs : List Char) :
    p.after (c :: cs) = (p.next c).after cs := rfl

theorem after_append (p : Position) (cs ds : List Char) :
    p.after (cs ++ ds) = (p.after cs).after ds := by
  simp [after, List.foldl_append]

end Position

end ProtoRoutes
