import ProtoRoutes.Text.Digit

/-!
# ProtoRoutes.Run.Arguments

The command line. Options may stand in any order; one that takes a value has it behind an equals
sign, behind its letter, or as the next word, and the last value counts, except for include
directories, which add up. There are no other arguments, so everything else makes the command line a
bad one.

A double dash as the next word is no value. In the same word as its option it stands for no value:
the option is given, but nothing is named.
-/

namespace ProtoRoutes.Run

/-- What a run is asked to do. -/
structure Arguments where
  /-- A schema file, or a directory with schema files, if it is named. -/
  proto : Option String
  /-- The directory for the modules, if it is named. -/
  out : Option String
  includePaths : List String := []
  /-- Whether an include directory is given that is not named. -/
  unnamedInclude : Bool := false
  /-- The file with the settings, or an empty text for none. -/
  config : String := ""
  /-- Whether routes get the common query parameters, if it is said. -/
  inferQueryParams : Option Bool := none
  /-- Whether methods of any name are accepted, if it is said. -/
  allowCustomMethods : Option Bool := none
  validateOnly : Bool := false
  verbose : Bool := false
  deriving DecidableEq, Repr

namespace Arguments

/-- The switches, which take no value. -/
inductive Switch where
  | noQueryInference | allowCustomMethods | validateOnly | verbose
  deriving DecidableEq, Repr

/-- The options that take a value. -/
inductive Slot where
  | proto | out | includePath | config
  deriving DecidableEq, Repr

/-- The switch of a name. -/
def switch? : String → Option Switch
  | "--no-query-inference" => some .noQueryInference
  | "--allow-custom-methods" => some .allowCustomMethods
  | "--validate-only" => some .validateOnly
  | "--verbose" => some .verbose
  | _ => none

/-- The option of a name. -/
def slot? : String → Option Slot
  | "--proto" => some .proto
  | "--out" => some .out
  | "--include" => some .includePath
  | "-I" => some .includePath
  | "--config" => some .config
  | _ => none

/-- What a word of the command line is. -/
inductive Word where
  | switch (s : Switch)
  | slot (s : Slot)
  /-- An option with the value that stands in the same word, if it is one. -/
  | filled (s : Slot) (value : Option String)
  /-- Can only be a value. -/
  | plain
  /-- Has the form of an option, but is none, or is a switch with a value. -/
  | unknown
  deriving DecidableEq, Repr

/-- Whether a text is a minus sign with a decimal number. -/
def isNegativeNumber (cs : List Char) : Bool :=
  let isDigit := fun c => (Text.digitValue? c).isSome
  let cs := if cs.getLast? = some '\n' then cs.dropLast else cs
  match cs with
  | '-' :: number =>
    let rest := number.dropWhile isDigit
    match rest with
    | [] => !number.isEmpty
    | '.' :: fraction => !fraction.isEmpty && fraction.all isDigit
    | _ => false
  | _ => false

/-- What a word that is no option is: with a minus sign in front it can be a value only if it is a
number or has a space in it. -/
def otherWord (cs : List Char) : Word :=
  if cs.head? = some '-' && cs ≠ ['-'] && !isNegativeNumber cs && !cs.contains ' ' then .unknown
  else .plain

/-- The value that stands in the same word as its option. -/
def valueOf (cs : List Char) : Option String :=
  if cs = ['-', '-'] then none else some (String.ofList cs)

/-- What a word with an equals sign is, given what is in front of the sign and behind it. -/
def assigned? (name value : List Char) : Option Word :=
  match slot? (String.ofList name), switch? (String.ofList name) with
  | some s, _ => some (.filled s (valueOf value))
  | none, some _ => some .unknown
  | none, none => none

/-- What a word of the command line is. -/
def wordOf (text : String) : Word :=
  let cs := text.toList
  match slot? text, switch? text with
  | some s, _ => .slot s
  | none, some s => .switch s
  | none, none =>
    let name := cs.takeWhile (· ≠ '=')
    let assignment :=
      if name.length < cs.length then assigned? name (cs.drop (name.length + 1)) else none
    match assignment, cs with
    | some w, _ => w
    | none, '-' :: 'I' :: value => .filled .includePath (valueOf value)
    | none, _ => otherWord cs

/-- The options that were given so far. -/
structure Given where
  proto : Option (Option String) := none
  out : Option (Option String) := none
  includePaths : List (Option String) := []
  config : Option String := none
  switches : List Switch := []

/-- With an option and its value, if it has one. -/
def Given.fill (g : Given) (value : Option String) : Slot → Given
  | .proto => { g with proto := some value }
  | .out => { g with out := some value }
  | .includePath => { g with includePaths := g.includePaths ++ [value] }
  | .config => { g with config := value }

/-- Goes through the words of a command line. A double dash is no value, and behind it there are no
options. -/
def Given.read (g : Given) : List String → Option Given
  | [] => some g
  | text :: rest =>
    if text = "--" then none
    else match wordOf text with
      | .switch s => { g with switches := s :: g.switches }.read rest
      | .filled s value => (g.fill value s).read rest
      | .slot s =>
        match rest with
        | [] => none
        | value :: rest =>
          if value ≠ "--" && wordOf value = .plain then (g.fill (some value) s).read rest else none
      | .plain => none
      | .unknown => none

/-- The arguments of a command line, unless it is a bad one. Its switches can only turn the
inference of query parameters off and custom methods on. -/
def parse (words : List String) : Option Arguments := do
  let g ← Given.read {} words
  let proto ← g.proto
  let out ← g.out
  pure {
    proto, out
    includePaths := g.includePaths.filterMap id
    unnamedInclude := g.includePaths.any Option.isNone
    config := g.config.getD ""
    inferQueryParams := if g.switches.contains .noQueryInference then some false else none
    allowCustomMethods := if g.switches.contains .allowCustomMethods then some true else none
    validateOnly := g.switches.contains .validateOnly
    verbose := g.switches.contains .verbose }

end Arguments

end ProtoRoutes.Run
