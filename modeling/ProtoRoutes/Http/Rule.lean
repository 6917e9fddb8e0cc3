import ProtoRoutes.Schema.Value
import ProtoRoutes.Text.Case

/-!
# ProtoRoutes.Http.Rule

HTTP rules: how a method of a service is reached over HTTP. A rule is written as an option whose
value is a message literal, and `HttpRule.decode` reads it:

    option (google.api.http) = {
      post: "/v1/books"
      body: "book"
      additional_bindings { post: "/v1/shelves/{shelf}/books" body: "*" }
    };

Exactly one of the keys `get`, `post`, `put`, `patch`, `delete` and `custom` gives the verb and the
path.
-/

namespace ProtoRoutes

/-- An HTTP verb. A custom verb differs from the standard verb of the same spelling. -/
structure HttpMethod where
  verb : String
  custom : Bool
  deriving DecidableEq, Repr

namespace HttpMethod

def get : HttpMethod := ⟨"GET", false⟩
def post : HttpMethod := ⟨"POST", false⟩
def put : HttpMethod := ⟨"PUT", false⟩
def patch : HttpMethod := ⟨"PATCH", false⟩
def delete : HttpMethod := ⟨"DELETE", false⟩

/-- A custom verb, in upper case. -/
def ofKind (kind : String) : HttpMethod :=
  ⟨String.ofList (Text.upper kind.toList), true⟩

/-- Whether requests with this verb usually have a body. -/
def allowsBody (m : HttpMethod) : Bool :=
  ["POST", "PUT", "PATCH"].contains m.verb

/-- The keys of the standard verbs, in the order in which they are looked up. -/
def standard : List (String × HttpMethod) :=
  [("get", get), ("post", post), ("put", put), ("patch", patch), ("delete", delete)]

end HttpMethod

/-- One way to reach a method: a verb, a path template, and the field that holds the body. -/
structure HttpBinding where
  method : HttpMethod
  path : String
  body : Option String
  deriving DecidableEq, Repr

/-- An HTTP rule. -/
structure HttpRule where
  primary : HttpBinding
  responseBody : Option String
  additional : List HttpBinding
  deriving DecidableEq, Repr

/-- What is wrong with an HTTP rule. -/
inductive RuleError where
  | notMessage (context : String)
  | pathNotString (key : String)
  | notString (key : String)
  | incompleteCustom
  | noPattern
  | manyPatterns (verbs : List String)
  | nestedBindings
  deriving DecidableEq, Repr

/-- What is wrong with an HTTP rule, in words. -/
def RuleError.text : RuleError → String
  | notMessage context =>
    "Invalid HTTP annotation format: " ++ context ++ " must be a message literal"
  | pathNotString key => "'" ++ key ++ "' must be a string path template"
  | notString key => "'" ++ key ++ "' must be a string"
  | incompleteCustom => "custom pattern requires both 'kind' and 'path'"
  | noPattern => "Missing HTTP method or path"
  | manyPatterns verbs => "Multiple HTTP methods in one rule: " ++ ", ".intercalate verbs
  | nestedBindings => "additional_bindings cannot be nested inside another binding"

namespace HttpRule

/-- The fields of a message literal. -/
def messageFields (context : String) : Value → Except RuleError (List (String × Value))
  | .message fields => .ok fields
  | _ => .error (.notMessage context)

/-- The text of a key that may be missing. -/
def optionalString (fields : List (String × Value)) (key : String) :
    Except RuleError (Option String) :=
  match fields.lookup key with
  | none => .ok none
  | some (.string s) => .ok (some s)
  | some _ => .error (.notString key)

/-- The pattern of a standard verb, if its key is there. -/
def standardPattern (fields : List (String × Value)) (entry : String × HttpMethod) :
    Except RuleError (List (HttpMethod × String)) :=
  match fields.lookup entry.1 with
  | none => .ok []
  | some (.string path) => .ok [(entry.2, path)]
  | some _ => .error (.pathNotString entry.1)

/-- The pattern of a custom verb, if its key is there. -/
def customPattern (fields : List (String × Value)) :
    Except RuleError (List (HttpMethod × String)) :=
  match fields.lookup "custom" with
  | none => .ok []
  | some v => do
    let inner ← messageFields "custom" v
    let kind ← optionalString inner "kind"
    let path ← optionalString inner "path"
    match kind, path with
    | some kind, some path =>
      if kind.isEmpty then .error .incompleteCustom else .ok [(.ofKind kind, path)]
    | _, _ => .error .incompleteCustom

/-- The verb and the path of a rule. -/
def pattern (fields : List (String × Value)) : Except RuleError (HttpMethod × String) := do
  let standard ← HttpMethod.standard.mapM (standardPattern fields)
  let custom ← customPattern fields
  match standard.flatten ++ custom with
  | [] => .error .noPattern
  | [found] => .ok found
  | found => .error (.manyPatterns (found.map fun (m, _) => m.verb))

/-- An additional binding. -/
def decodeBinding (v : Value) : Except RuleError HttpBinding := do
  let fields ← messageFields "additional_bindings" v
  if (fields.lookup "additional_bindings").isSome then .error .nestedBindings
  let (method, path) ← pattern fields
  let body ← optionalString fields "body"
  .ok ⟨method, path, body⟩

/-- The values of the additional bindings: a list of them, or a single one. -/
def bindingValues (fields : List (String × Value)) : List Value :=
  match fields.lookup "additional_bindings" with
  | none => []
  | some (.list items) => items
  | some v => [v]

/-- The rule that an option value stands for. -/
def decode (v : Value) : Except RuleError HttpRule := do
  let fields ← messageFields "google.api.http" v
  let (method, path) ← pattern fields
  let body ← optionalString fields "body"
  let responseBody ← optionalString fields "response_body"
  let additional ← (bindingValues fields).mapM decodeBinding
  .ok ⟨⟨method, path, body⟩, responseBody, additional⟩

/-- Whether an option holds an HTTP rule. -/
def isHttpOption (o : SchemaOption) : Bool :=
  o.name = "google.api.http" || o.name = "(google.api.http)"

end HttpRule

end ProtoRoutes
