import ProtoRoutes.Http.Route
import ProtoRoutes.Scaffold.Names

/-!
# ProtoRoutes.Scaffold.Interface

The interface module of a service: an abstract class with one method for each method of the service
that a route leads to. `Interface.ofService` says what the class holds, `Interface.render` writes
it.
-/

namespace ProtoRoutes.Scaffold

/-- The routes that lead to a service. -/
def routesOf (s : Service) (routes : List Route) : List Route :=
  routes.filter (·.service = s.name)

/-- The name of the interface class of a service. -/
def interfaceName (s : Service) : String :=
  s.name ++ "Interface"

/-- The name that a method of a service has in the interface. -/
def targetName (method : String) : String :=
  safeName (snake method)

/-! ### Doc texts -/

/-- Puts three single quotes for three double quotes. -/
def softenQuotes : List Char → List Char
  | '"' :: '"' :: '"' :: rest => '\'' :: '\'' :: '\'' :: softenQuotes rest
  | [] => []
  | c :: rest => c :: softenQuotes rest

/-- The words of some comments, with single blanks between them. Without words there is no text. -/
def docText (comments : List Comment) : Option String :=
  let text := [' '].intercalate (comments.map fun c => softenQuotes c.text.toList)
  match Text.words text with
  | [] => none
  | words => some (String.ofList ([' '].intercalate words))

/-! ### Interfaces -/

/-- A method of an interface. -/
structure InterfaceMethod where
  name : String
  /-- The method of the service that it stands for. -/
  method : String
  input : String
  output : String
  deriving DecidableEq, Repr

/-- The method of an interface that a route leads to. -/
def InterfaceMethod.ofRoute (r : Route) : InterfaceMethod :=
  ⟨targetName r.method, r.method, r.input.fullName, r.output.fullName⟩

/-- The first route to each method of a service. -/
def firstRoutes (seen : List String) : List Route → List Route
  | [] => []
  | r :: rest =>
    if seen.contains r.method then firstRoutes seen rest
    else r :: firstRoutes (r.method :: seen) rest

/-- The interface module of a service. -/
structure Interface where
  name : String
  doc : Option String
  methods : List InterfaceMethod
  deriving DecidableEq, Repr

namespace Interface

/-- The interface of a service with routes. -/
def ofService (s : Service) (routes : List Route) : Interface :=
  ⟨interfaceName s, docText s.comments,
    (firstRoutes [] (routesOf s routes)).map InterfaceMethod.ofRoute⟩

/-- The line that names the source of a module. -/
def banner (source : String) : String :=
  "# Generated by protoc-rest from " ++ source ++ ". Do not edit.\n" ++
  "from __future__ import annotations\n\n"

/-- A text as a doc line. -/
def docLine (indent text : String) : String :=
  indent ++ "\"\"\"" ++ text ++ "\"\"\"\n"

/-- A method of an interface, with an empty line in front of it. -/
def renderMethod (m : InterfaceMethod) : String :=
  "\n    @abstractmethod\n" ++
  "    def " ++ m.name ++ "(self, request: Dict[str, Any]) -> Dict[str, Any]:\n" ++
  docLine "        " (m.method ++ "(" ++ m.input ++ ") -> " ++ m.output) ++
  "        raise NotImplementedError\n"

/-- The text of an interface module. -/
def render (source : String) (i : Interface) : String :=
  banner source ++
  "from abc import ABC, abstractmethod\n" ++
  "from typing import Any, Dict\n\n\n" ++
  "class " ++ i.name ++ "(ABC):\n" ++
  (match i.doc with
    | some text => docLine "    " text
    | none => "") ++
  String.join (i.methods.map renderMethod)

end Interface

end ProtoRoutes.Scaffold
