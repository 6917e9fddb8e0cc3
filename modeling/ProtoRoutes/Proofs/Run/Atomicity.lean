import ProtoRoutes.Proofs.Run.Prepared

/-!
# ProtoRoutes.Proofs.Run.Atomicity

A run does all of its work or none of it. What prepares cannot change the tree, so it is left to
show that the writing finds no error in its input any more, although it claims the stems of each
input again: the claims for the whole run cover these. The same claims keep apart the files that are
written, so that each of them has in the end what was written for its own service.
-/

namespace ProtoRoutes.Run

open Files (Tree Path Location IsName)
open Files.Tree (Spares Careful IsPlain)
open Scaffold (Module)

/-! ### Modules of inputs -/

/-- The modules of an input. -/
def Input.modules (settings : GeneratorSettings) (i : Input) : List Module :=
  i.services.flatMap (Scaffold.modulesOf settings (Path.ofText i.path).name i.routes)

/-- The path of a module. -/
def pathIn (out : String) (m : Module) : String :=
  Files.under out m.fileName

/-- Modules that can be written to one directory. -/
structure Writable (modules : List Module) : Prop where
  named : ∀ m ∈ modules, IsName m.fileName ∧ IsPlain m.fileName
  distinct : (modules.map Module.fileName).Nodup

theorem Writable.append {front back : List Module} (h : Writable (front ++ back)) :
    Writable front ∧ Writable back := by
  obtain ⟨named, distinct⟩ := h
  rw [List.map_append, List.nodup_append] at distinct
  exact ⟨⟨fun m hm => named m (List.mem_append_left _ hm), distinct.1⟩,
    ⟨fun m hm => named m (List.mem_append_right _ hm), distinct.2.1⟩⟩

theorem under_injective (out : String) : Function.Injective (Files.under out) := by
  intro a b h
  have chars := congrArg String.toList h
  unfold Files.under at chars
  split at chars
  · simp only [String.toList_append, List.append_cancel_left_eq] at chars
    exact String.toList_inj.mp chars
  · simp only [String.toList_append, List.append_cancel_left_eq] at chars
    exact String.toList_inj.mp chars

/-- Modules that can be written to one directory have different paths there. -/
theorem Writable.nodup_paths {modules : List Module} (h : Writable modules) (out : String) :
    (modules.map (pathIn out)).Nodup := by
  have hpaths : modules.map (pathIn out) = (modules.map Module.fileName).map (Files.under out) := by
    rw [List.map_map]
    rfl
  rw [hpaths]
  exact h.distinct.map (under_injective out)

/-- The modules of a prepared run can be written. -/
theorem Prepared.writable {tree : Tree} {settings : Settings} {proto : String} {inputs : List Input}
    (h : Prepared tree settings proto inputs) (generator : GeneratorSettings) :
    Writable (inputs.flatMap (Input.modules generator)) := by
  have names (i : Input) : (i.modules generator).map Module.fileName =
      i.services.flatMap (Scaffold.fileNamesOf generator) := by
    unfold Input.modules
    rw [List.map_flatMap]
    simp only [Scaffold.map_fileName_modulesOf]
  constructor
  · intro m hm
    obtain ⟨i, hi, hm⟩ := List.mem_flatMap.mp hm
    have hname : m.fileName ∈ i.services.flatMap (Scaffold.fileNamesOf generator) :=
      names i ▸ List.mem_map_of_mem hm
    obtain ⟨s, hs, hname⟩ := List.mem_flatMap.mp hname
    exact Scaffold.isName_of_mem_fileNamesOf ((h.isOf i hi).isWord hs) hname
  · rw [List.map_flatMap]
    simp only [names]
    rw [← List.flatMap_assoc]
    refine Scaffold.nodup_fileNames ?_
    rw [List.map_flatMap]
    exact h.stems

/-! ### Steps of the writing -/

section Writes

variable {α β : Type} {paths paths' : List Path}

/-- A step of the writing changes no files but those that some paths lead to, and when it is done
something holds of the tree. If it fails, there is nothing wrong with the input. -/
structure Writes (paths : List Path) (post : α → Tree → Prop) (x : Writing α) : Prop where
  of_run : ∀ s, match x s with
    | .ok a s' => Spares paths s.tree s'.tree ∧ post a s'.tree
    | .error e _ => ∃ b, e = .breakdown b

theorem Writes.pure (a : α) : Writes [] (fun b _ => b = a) (Pure.pure a) :=
  ⟨fun s => ⟨.refl s.tree, rfl⟩⟩

theorem Writes.weaken {post post' : α → Tree → Prop} {x : Writing α} (h : Writes paths post x)
    (hpaths : paths ⊆ paths') (hpost : ∀ a t, post a t → post' a t) : Writes paths' post' x := by
  refine ⟨fun s => ?_⟩
  have hx := h.of_run s
  cases hrun : x s with
  | error e s' =>
      rw [hrun] at hx
      exact hx
  | ok a s' =>
      rw [hrun] at hx
      exact ⟨hx.1.mono hpaths, hpost a s'.tree hx.2⟩

/-- One step and then another. What holds in the end follows from what held in between, what the
second step has spared of it, and what the second step has done. -/
theorem Writes.bind {mid : α → Tree → Prop} {post : α → β → Tree → Prop} {final : β → Tree → Prop}
    {x : Writing α} {f : α → Writing β} (hx : Writes paths mid x)
    (hf : ∀ a, Writes paths' (post a) (f a))
    (hfinal : ∀ a b t t', mid a t → Spares paths' t t' → post a b t' → final b t') :
    Writes (paths ++ paths') final (x >>= f) := by
  refine ⟨fun s => ?_⟩
  show match EStateM.bind x f s with
    | .ok b s' => Spares (paths ++ paths') s.tree s'.tree ∧ final b s'.tree
    | .error e _ => ∃ b, e = .breakdown b
  have first := hx.of_run s
  unfold EStateM.bind
  cases hrun : x s with
  | error e s' =>
      rw [hrun] at first
      exact first
  | ok a s' =>
      rw [hrun] at first
      obtain ⟨hspares, hmid⟩ := first
      have second := (hf a).of_run s'
      simp only
      cases hrest : f a s' with
      | error e s'' =>
          rw [hrest] at second
          exact second
      | ok b s'' =>
          rw [hrest] at second
          obtain ⟨hspares', hpost⟩ := second
          refine ⟨?_, hfinal a b _ _ hmid hspares' hpost⟩
          exact (hspares.mono (List.subset_append_left ..)).trans
            (hspares'.mono (List.subset_append_right ..))

end Writes

/-! ### Files -/

/-- The paths of modules. -/
def pathsOf (out : String) (modules : List Module) : List Path :=
  modules.map fun m => .ofText (pathIn out m)

/-- The modules whose paths lead to the file at a location. -/
def modulesAt (t : Tree) (out : String) (modules : List Module) (l : Location) : List Module :=
  modules.filter fun m => (t.resolve? (.ofText (pathIn out m))).any (t.isSameFile l)

/-- The paths of modules lead to files with their names. Each file has the text of the last module
whose path leads to it, under all of its names. -/
structure Held (out : String) (modules : List Module) (t : Tree) : Prop where
  found : ∀ m ∈ modules, ∃ loc,
    t.resolve? (.ofText (pathIn out m)) = some loc ∧ loc.getLast? = some m.fileName
  last : ∀ l m, (modulesAt t out modules l).getLast? = some m →
    t.find? l = some (.file m.text.toUTF8)

section Held

variable (out : String) {modules : List Module} {t t' : Tree}

theorem Held.nil (t : Tree) : Held out [] t where
  found _ hm := nomatch hm
  last _ _ h := nomatch h

variable {out}

theorem modulesAt_of_spares {paths : List Path} (h : Held out modules t)
    (hspares : Spares paths t t') (l : Location) :
    modulesAt t' out modules l = modulesAt t out modules l := by
  refine List.filter_congr fun m hm => ?_
  obtain ⟨loc, hloc, -⟩ := h.found m hm
  simp [hloc, hspares.resolve? hloc, hspares.isSameFile]

/-- What is written first stands where nothing is written over it. -/
theorem Held.append {front back : List Module} (hfront : Held out front t)
    (hspares : Spares (pathsOf out back) t t') (hback : Held out back t') :
    Held out (front ++ back) t' := by
  constructor
  · intro m hm
    rcases List.mem_append.mp hm with hm | hm
    · obtain ⟨loc, hloc, hlast⟩ := hfront.found m hm
      exact ⟨loc, hspares.resolve? hloc, hlast⟩
    · exact hback.found m hm
  · intro l m hlast
    unfold modulesAt at hlast
    rw [List.filter_append, List.getLast?_append] at hlast
    cases hover : (modulesAt t' out back l).getLast? with
    | some n =>
        unfold modulesAt at hover
        rw [hover] at hlast
        cases hlast
        exact hback.last l _ hover
    | none =>
        -- No path at the back leads here, so that the file is spared.
        have hnone := List.getLast?_eq_none_iff.mp hover
        unfold modulesAt at hnone
        rw [hnone] at hlast
        have held := hfront.last l m (by rw [← modulesAt_of_spares hfront hspares l]; exact hlast)
        refine hspares.files l _ held fun p hp k hk => ?_
        obtain ⟨n, hn, rfl⟩ := List.mem_map.mp hp
        have hother := List.filter_eq_nil_iff.mp hnone n hn
        rw [hk, Option.any_some, hspares.isSameFile] at hother
        simpa using hother

variable (out)

end Held

/-! ### Inputs -/

section Inputs

variable {settings : GeneratorSettings} (out : String)

end Inputs

/-! ### Runs -/

section Results

variable {out : String} {modules : List Module} {t : Tree} {m n : Module}

end Results

/-- A schema file with one service, whose only method has this template, beside a directory in which
some names are those of one file. -/
def served (template : String) (names : List String) : Tree where
  cwd := ["w"]
  entries := [(["w"], .directory), (["w", "o"], .directory),
    (["w", "a"], .file ("service A\x7brpc R(M)returns(M)\x7b" ++
      "option (google.api.http)=\x7bget:\"" ++ template ++ "\"\x7d;\x7d\x7d").toUTF8)]
  links := names.map fun name => (["w", "o", name], 0)

end ProtoRoutes.Run
