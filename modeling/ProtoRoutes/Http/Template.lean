import ProtoRoutes.Text.Blank
import ProtoRoutes.Text.Search

/-!
# ProtoRoutes.Http.Template

Path templates such as `/v1/{name=shelves/*}/books/{book.id}`. A group in braces is a path
parameter: what stands in front of its first equals sign, without blanks around it, is the variable
that the parameter binds.

Templates are read in three ways. `check` accepts a template or says what is wrong with it. `groups`
gives what stands between braces, for the parameters of a route. `boundVariables` gives the
variables, for the handlers of the scaffolding; it passes over groups without one. The latter two
take any text.
-/

namespace ProtoRoutes.Template

open Text (trim replaceChar)

/-- What is wrong with a path template. -/
inductive Error where
  | empty
  | noSlash
  | nested
  | unmatchedClose
  /-- A group without a variable, given with its braces. -/
  | noName (group : String)
  | unmatchedOpen
  deriving DecidableEq, Repr

/-- The part of the template that is wrong, if there is one to point at. -/
def Error.param : Error → String
  | noName group => group
  | _ => ""

/-- What is wrong, in words. -/
def Error.text : Error → String
  | empty => "Path template cannot be empty"
  | noSlash => "Path template must start with '/'"
  | nested => "Nested braces are not allowed"
  | unmatchedClose => "Unmatched closing brace"
  | noName _ => "Path parameter name cannot be empty"
  | unmatchedOpen => "Unmatched opening brace"

/-- The variable that a group binds. -/
def variableOf (group : List Char) : List Char :=
  trim (group.takeWhile (· ≠ '='))

/-- A group with its braces. -/
def inBraces (group : List Char) : String :=
  String.ofList ('{' :: group ++ ['}'])

/-- Checks the braces of a text, inside a group if its start is given. -/
def checkBraces : Option (List Char) → List Char → Except Error Unit
  | none, [] => .ok ()
  | some _, [] => .error .unmatchedOpen
  | none, c :: rest =>
    if c = '{' then checkBraces (some []) rest
    else if c = '}' then .error .unmatchedClose
    else checkBraces none rest
  | some group, c :: rest =>
    if c = '{' then .error .nested
    else if c = '}' then
      if (variableOf group).isEmpty then .error (.noName (inBraces group))
      else checkBraces none rest
    else checkBraces (some (group ++ [c])) rest

/-- Checks a path template. -/
def check (path : List Char) : Except Error Unit :=
  match path with
  | [] => .error .empty
  | c :: _ => if c = '/' then checkBraces none path else .error .noSlash

/-- What stands between an opening brace and the next closing one, inside a group if its start is
given. -/
def groupsFrom : Option (List Char) → List Char → List (List Char)
  | _, [] => []
  | none, c :: rest => if c = '{' then groupsFrom (some []) rest else groupsFrom none rest
  | some group, c :: rest =>
    if c = '}' then group :: groupsFrom none rest else groupsFrom (some (group ++ [c])) rest

/-- The groups of a path template. -/
def groups (path : List Char) : List (List Char) :=
  groupsFrom none path

/-- The variables of a path template with the blanks around them. A group counts if something stands
in front of its equals sign or closing brace. -/
def boundVariables : List Char → List (List Char)
  | [] => []
  | c :: rest =>
    let name := rest.takeWhile fun d => d ≠ '}' && d ≠ '='
    let behind := rest.dropWhile (· ≠ '}')
    if c = '{' && !name.isEmpty && !behind.isEmpty then name :: boundVariables behind.tail
    else boundVariables rest
  termination_by cs => cs.length
  decreasing_by
    · have := (List.dropWhile_sublist (l := rest) (· ≠ '}')).length_le
      simp only [List.length_tail, List.length_cons]
      omega
    · simp

/-- The name of a parameter that binds a variable: dots become underscores. -/
def parameterName (group : List Char) : List Char :=
  replaceChar '.' '_' (variableOf group)

/-- The names of the path parameters of a template. -/
def parameterNames (path : List Char) : Except Error (List String) :=
  (groups path).mapM fun group =>
    let name := parameterName group
    if name.isEmpty then .error (.noName (inBraces group)) else .ok (String.ofList name)

end ProtoRoutes.Template
