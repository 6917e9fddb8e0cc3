import ProtoRoutes.Text.Case
import ProtoRoutes.Text.Search

/-!
# ProtoRoutes.Scaffold.Names

Names in the generated modules, which are Python: snake case for methods and modules, and names that
neither clash with a keyword nor with each other.
-/

namespace ProtoRoutes.Scaffold

open Text (replaceChar)

/-! ### Snake case -/

/-- An ASCII capital. -/
def isCapital (c : Char) : Bool := c.isUpper

/-- An ASCII small letter. -/
def isSmall (c : Char) : Bool := c.isLower

/-- A run of capitals. If a small letter follows, its last capital starts the next word. -/
def splitRun (run : List Char) (smallFollows : Bool) : List Char :=
  if smallFollows && 1 < run.length then run.dropLast ++ '_' :: run.getLast?.toList else run

/-- Puts an underscore in front of the last capital of every run of two or more capitals that a
small letter follows: `HTTPInfo` becomes `HTTP_Info`. -/
def splitAcronyms : List Char → List Char
  | [] => []
  | c :: rest =>
    if isCapital c then
      let behind := rest.dropWhile isCapital
      splitRun (c :: rest.takeWhile isCapital) (behind.head?.any isSmall) ++ splitAcronyms behind
    else c :: splitAcronyms rest
  termination_by cs => cs.length
  decreasing_by
    · have := (List.dropWhile_sublist (l := rest) isCapital).length_le
      simp only [List.length_cons]
      omega
    · simp

/-- Puts an underscore between a small letter or digit and a capital behind it. -/
def splitWords : List Char → List Char
  | [] => []
  | [c] => [c]
  | c :: d :: rest =>
    if (isSmall c || c.isDigit) && isCapital d then c :: '_' :: d :: splitWords rest
    else c :: splitWords (d :: rest)

/-- Makes every run of underscores a single one. -/
def collapse : List Char → List Char
  | [] => []
  | [c] => [c]
  | c :: d :: rest =>
    if c = '_' && d = '_' then collapse (d :: rest) else c :: collapse (d :: rest)

/-- A name in snake case. -/
def snakeChars (cs : List Char) : List Char :=
  Text.lower (collapse (splitWords (splitAcronyms (replaceChar '.' '_' (replaceChar '-' '_' cs)))))

/-- A name in snake case. -/
def snake (name : String) : String :=
  String.ofList (snakeChars name.toList)

/-- The name that the modules of a service start with: the name of the service in snake case,
without the word `Service` at its end. -/
def stem (service : String) : String :=
  let cs := service.toList
  let word := "Service".toList
  if Text.endsWith word cs && cs ≠ word then
    String.ofList (snakeChars (cs.take (cs.length - word.length)))
  else snake service

/-! ### Legal names -/

/-- The keywords of the generated language. -/
def keywords : List String :=
  ["False", "None", "True", "and", "as", "assert", "async", "await", "break", "class", "continue",
   "def", "del", "elif", "else", "except", "finally", "for", "from", "global", "if", "import", "in",
   "is", "lambda", "nonlocal", "not", "or", "pass", "raise", "return", "try", "while",
   "with", "yield"]

/-- A name with an underscore behind it if it is a keyword. -/
def safeName (name : String) : String :=
  if keywords.contains name then name ++ "_" else name

/-- A name with as many underscores behind it, at most `n`, as it takes not to be taken. -/
def freeName (taken : List String) : Nat → String → String
  | 0, name => name
  | n + 1, name => if taken.contains name then freeName taken n (name ++ "_") else name

/-- An argument for a name: not a keyword, and none of those that are taken. One more candidate than
there are taken names is enough. -/
def argumentName (taken : List String) (name : String) : String :=
  freeName taken taken.length (safeName name)

/-- Arguments for a list of names, and the names that are taken after them. -/
def argumentNames (taken : List String) : List String → List String × List String
  | [] => ([], taken)
  | name :: names =>
    let arg := argumentName taken name
    let (args, taken) := argumentNames (arg :: taken) names
    (arg :: args, taken)

/-- The names that a handler uses itself. -/
def handlerLocals : List String := ["self", "request"]

end ProtoRoutes.Scaffold
