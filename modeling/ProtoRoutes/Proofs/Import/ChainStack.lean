import Mathlib.Data.List.Nodup
import ProtoRoutes.Import.Session

/-!
# ProtoRoutes.Proofs.Import.ChainStack

The chain as a stack that a session carries along. `load` gets its chain as an argument, so there is
nothing to clean up when it ends. Here a file that is loaded is pushed on a stack, its imports are
loaded, and the stack is popped again, whether that succeeded or not; between two operations the
stack stays where it is. A task of this kind `Mirrors` an action of a session at a chain if it comes
to the same and leaves the stack as it found it.

Nothing here counts down, as `load` does: a file is refused when the stack is longer than the
settings allow. The fuel that the recursion takes is its own, and each time a file was pushed it
looks at the stack. Where the fuel is used up or the stack is not fit it does something else,
whatever that is. Both come to the same (`loadOn_mirrors`), so neither ever happens.
-/

namespace ProtoRoutes.Session

open Files (Tree Path Location)

/-- A session with the files that are being loaded. -/
structure Desk where
  session : Session
  chain : List Location

/-- A step of a session that may look at the stack and change it. -/
abbrev DeskAction := EStateM Failure Desk

variable {α β : Type}

/-! ### DeskActions -/

/-- What an action comes to, with a stack beside its session. -/
def carry (chain : List Location) :
    EStateM.Result Failure Session α → EStateM.Result Failure Desk α
  | .ok a s => .ok a ⟨s, chain⟩
  | .error e s => .error e ⟨s, chain⟩

/-- An action as a task. -/
def onSession (x : Action α) : DeskAction α := fun w => carry w.chain (x w.session)

/-- The files on the stack. -/
def stack : DeskAction (List Location) := fun w => .ok w.chain w

/-- Does a task with a file on the stack, and takes the last file off the stack however the task
ends. -/
def within (loc : Location) (x : DeskAction α) : DeskAction α := fun w =>
  match x { w with chain := w.chain ++ [loc] } with
  | .ok a w => .ok a { w with chain := w.chain.dropLast }
  | .error e w => .error e { w with chain := w.chain.dropLast }

/-- Does a task and hands over its failure as a result. -/
def attemptOn (x : DeskAction α) : DeskAction (Except Failure α) := fun w =>
  match x w with
  | .ok a w => .ok (.ok a) w
  | .error e w => .ok (.error e) w

section Loading

variable (tree : Tree) (settings : ParserSettings)

/-- What a chain should be: files that are pairwise different, and not too many of them. -/
def IsFit (chain : List Location) : Prop :=
  chain.Nodup ∧ (chain.length : Int) ≤ settings.maxImportDepth

instance : DecidablePred (IsFit settings) := fun chain =>
  inferInstanceAs (Decidable (chain.Nodup ∧ (chain.length : Int) ≤ settings.maxImportDepth))

/-- Loads one import, where `load` loads a file. -/
def resolveImportOn (load : String → DeskAction SchemaFile) (current : Option Location)
    (path : String) :
    DeskAction Unit := do
  if isSkipped path then onSession (note [.importSkipped path])
  else
    let result ← attemptOn do
      let p ← onSession (findImport tree settings current path)
      load p.text
    match result with
    | .ok _ => pure ()
    | .error failure =>
      match isTolerable settings failure with
      | some e => onSession (warn (importWarning current path e))
      | none => onSession (stop failure)

/-- Loads the imports of a file, if the settings say so. -/
def resolveImportsOn (load : String → DeskAction SchemaFile) (current : Option Location)
    (f : SchemaFile) :
    DeskAction Unit :=
  if settings.resolveImports then
    f.dependencies.forM (resolveImportOn tree settings load current)
  else pure ()

/-- Loads the file that a path leads to, on behalf of the files on the stack, for as long as there
is fuel and the stack is fit when a file was pushed. Otherwise it does something else. -/
def loadOn (otherwise : DeskAction SchemaFile) (fuel : Nat) (path : String) :
    DeskAction SchemaFile := do
  match tree.canonical? (.ofText path) with
  | none => onSession (fail (.fileNotFound path))
  | some loc =>
    let chain ← stack
    if chain.contains loc then onSession (fail (.importCycle ((chain ++ [loc]).map Location.text)))
    else match ← onSession (cached? loc) with
      | some f =>
        onSession (note [.cacheHit loc.text])
        pure f
      | none =>
        let depth := chain.length + 1
        if settings.maxImportDepth < depth then
          onSession (fail (.importTooDeep loc.text depth settings.maxImportDepth))
        else
          match fuel with
          | 0 => otherwise
          | fuel + 1 =>
            let text ← onSession (readText tree (.ofText path))
            let f ← within loc do
              if IsFit settings (← stack) then
                onSession (note [.parsing loc.text depth])
                let f ← onSession (parseText settings text)
                resolveImportsOn tree settings (loadOn otherwise fuel) (some loc) f
                pure f
              else otherwise
            onSession (store loc f)
            pure f

/-- Loads a file and, if the settings say so, the files that it imports. -/
def parseFileOn (otherwise : DeskAction SchemaFile) (fuel : Nat) (path : String) :
    DeskAction SchemaFile :=
  loadOn tree settings otherwise fuel path

/-- Reads a text and, if the settings say so, loads the files that it imports. -/
def parseContentOn (otherwise : DeskAction SchemaFile) (fuel : Nat) (text : String) :
    DeskAction SchemaFile := do
  let f ← onSession (parseText settings text)
  resolveImportsOn tree settings (loadOn tree settings otherwise fuel) none f
  pure f

/-- Loads a file and its imports in a session of its own, which has a stack of its own. -/
def parseWithImportsOn (otherwise : DeskAction SchemaFile) (fuel : Nat) (path : String)
    (further : List String) : DeskAction SchemaFile := fun w =>
  let settings :=
    { settings with includePaths := settings.includePaths ++ further, resolveImports := true }
  match parseFileOn tree settings otherwise fuel path ⟨{ empty with log := w.session.log }, []⟩ with
  | .ok f inner =>
    .ok f { w with session := { w.session with
      warnings := w.session.warnings ++ inner.session.warnings, log := inner.session.log } }
  | .error e inner => .error e { w with session := { w.session with log := inner.session.log } }

end Loading

/-! ### DeskActions that leave the stack as it was -/

/-- At a chain, a task comes to what an action comes to, and the stack is the same then. -/
def Mirrors (chain : List Location) (x : DeskAction α) (y : Action α) : Prop :=
  ∀ s, x ⟨s, chain⟩ = carry chain (y s)

namespace Mirrors

variable {chain : List Location}

theorem onSession (y : Action α) : Mirrors chain (Session.onSession y) y :=
  fun _ => rfl

theorem pure (a : α) : Mirrors chain (Pure.pure a) (Pure.pure a) :=
  fun _ => rfl

/-- A look at the stack sees the chain. -/
theorem look {k : List Location → DeskAction α} {y : Action α} (h : Mirrors chain (k chain) y) :
    Mirrors chain (stack >>= k) y :=
  fun s => h s

theorem bind {x : DeskAction α} {y : Action α} {f : α → DeskAction β} {g : α → Action β}
    (hx : Mirrors chain x y) (hf : ∀ a, Mirrors chain (f a) (g a)) :
    Mirrors chain (x >>= f) (y >>= g) := by
  intro s
  show EStateM.bind x f _ = carry chain (EStateM.bind y g s)
  unfold EStateM.bind
  rw [hx s]
  cases y s with
  | ok a t => exact hf a t
  | error e t => rfl

theorem attempt {x : DeskAction α} {y : Action α} (hx : Mirrors chain x y) :
    Mirrors chain (attemptOn x) (Session.attempt y) := by
  intro s
  unfold attemptOn Session.attempt
  rw [hx s]
  cases y s with
  | ok a t => rfl
  | error e t => rfl

theorem forM {x : β → DeskAction Unit} {y : β → Action Unit} (h : ∀ b, Mirrors chain (x b) (y b))
    (bs : List β) : Mirrors chain (bs.forM x) (bs.forM y) := by
  induction bs with
  | nil => exact .pure ()
  | cons b bs ih => exact (h b).bind fun _ => ih

/-- What was pushed is popped, on both ways out. -/
theorem within {loc : Location} {x : DeskAction α} {y : Action α}
    (hx : Mirrors (chain ++ [loc]) x y) :
    Mirrors chain (Session.within loc x) y := by
  intro s
  unfold Session.within
  rw [hx s]
  cases y s with
  | ok a t => simp only [carry, List.dropLast_concat]
  | error e t => simp only [carry, List.dropLast_concat]

end Mirrors

section Loading

variable (tree : Tree) (settings : ParserSettings) {chain : List Location}

theorem resolveImportOn_mirrors {l : String → DeskAction SchemaFile}
    {k : String → Action SchemaFile}
    (h : ∀ path, Mirrors chain (l path) (k path)) (current : Option Location) (path : String) :
    Mirrors chain (resolveImportOn tree settings l current path)
      (resolveImport tree settings k current path) := by
  unfold resolveImportOn resolveImport
  split
  · exact .onSession _
  · have looked : Mirrors chain
        (do let p ← onSession (findImport tree settings current path); l p.text)
        (do let p ← findImport tree settings current path; k p.text) :=
      (Mirrors.onSession _).bind fun p => h p.text
    refine looked.attempt.bind fun result => ?_
    cases result with
    | ok f => exact .pure ()
    | error failure =>
        simp only
        cases isTolerable settings failure with
        | some e => exact .onSession _
        | none => exact .onSession _

theorem resolveImportsOn_mirrors {l : String → DeskAction SchemaFile}
    {k : String → Action SchemaFile}
    (h : ∀ path, Mirrors chain (l path) (k path)) (current : Option Location) (f : SchemaFile) :
    Mirrors chain (resolveImportsOn tree settings l current f)
      (resolveImports tree settings k current f) := by
  unfold resolveImportsOn resolveImports
  split
  · exact .forM (resolveImportOn_mirrors tree settings h current) f.dependencies
  · exact .pure ()

theorem IsFit.concat {loc : Location} (hnodup : chain.Nodup) (hloc : loc ∉ chain)
    (hlength : ((chain.length + 1 : Nat) : Int) ≤ settings.maxImportDepth) :
    IsFit settings (chain ++ [loc]) :=
  ⟨List.concat_eq_append ▸ hnodup.concat hloc, by simpa using hlength⟩

/-- A file that is pushed on a stack that is fit then is read, and its imports are loaded. -/
theorem within_mirrors {l : String → DeskAction SchemaFile} {k : String → Action SchemaFile}
    (otherwise : DeskAction SchemaFile) {loc : Location} (fit : IsFit settings (chain ++ [loc]))
    (h : ∀ path, Mirrors (chain ++ [loc]) (l path) (k path)) (text : String) (depth : Nat) :
    Mirrors chain
      (within loc do
        if IsFit settings (← stack) then
          onSession (note [.parsing loc.text depth])
          let f ← onSession (parseText settings text)
          resolveImportsOn tree settings l (some loc) f
          pure f
        else otherwise)
      (do
        note [.parsing loc.text depth]
        let f ← parseText settings text
        resolveImports tree settings k (some loc) f
        pure f) := by
  refine Mirrors.within (.look ?_)
  rw [if_pos fit]
  apply (Mirrors.onSession _).bind
  intro _
  apply (Mirrors.onSession _).bind
  intro f
  exact (resolveImportsOn_mirrors tree settings h (some loc) f).bind fun _ => .pure f

/-- Loading with a stack is loading with a chain as an argument: the room that is left is the gap
between the stack and the limit, so the fuel lasts, and the stack is fit as no file is pushed twice.
-/
theorem loadOn_mirrors (otherwise : DeskAction SchemaFile) {room fuel : Nat} (hnodup : chain.Nodup)
    (hroom : room = (settings.maxImportDepth - chain.length).toNat) (hfuel : room ≤ fuel)
    (path : String) :
    Mirrors chain (loadOn tree settings otherwise fuel path)
      (load tree settings room chain path) := by
  -- Room and fuel only matter behind the look at the cache: the cases come first, then the room.
  induction room using Nat.strongRecOn generalizing fuel chain path with
  | ind room ih =>
      unfold loadOn load
      cases tree.canonical? (.ofText path) with
      | none => exact .onSession _
      | some loc =>
          simp only
          refine .look ?_
          split
          · exact .onSession _
          · next hchain =>
            apply (Mirrors.onSession (cached? loc)).bind
            intro hit
            cases hit with
            | some f => exact (Mirrors.onSession _).bind fun _ => .pure f
            | none =>
                cases room with
                | zero =>
                    have full : settings.maxImportDepth < (chain.length + 1 : Nat) := by omega
                    simp only [full, if_true]
                    exact .onSession _
                | succ room =>
                    obtain ⟨fuel, rfl⟩ : ∃ n, fuel = n + 1 := ⟨fuel - 1, by omega⟩
                    have fits : ¬ settings.maxImportDepth < (chain.length + 1 : Nat) := by omega
                    have fit : IsFit settings (chain ++ [loc]) :=
                      .concat settings hnodup (by simpa using hchain) (by omega)
                    have imports : ∀ p,
                        Mirrors (chain ++ [loc]) (loadOn tree settings otherwise fuel p)
                          (load tree settings room (chain ++ [loc]) p) :=
                      fun p => ih room (by omega) fit.1 (by simp; omega) (by omega) p
                    simp only [fits, if_false]
                    apply (Mirrors.onSession _).bind
                    intro text
                    have pushed :=
                      within_mirrors tree settings otherwise fit imports text (chain.length + 1)
                    have whole := pushed.bind fun f =>
                      (Mirrors.onSession (store loc f)).bind fun _ => Mirrors.pure f
                    simpa only [bind_assoc, pure_bind] using whole

/-! ### Operations -/

variable (otherwise : DeskAction SchemaFile) {fuel : Nat}
    (hfuel : settings.maxImportDepth.toNat ≤ fuel)

include hfuel

theorem parseFileOn_mirrors (path : String) :
    Mirrors [] (parseFileOn tree settings otherwise fuel path) (parseFile tree settings path) :=
  loadOn_mirrors tree settings otherwise List.nodup_nil (by simp) hfuel path

theorem parseContentOn_mirrors (text : String) :
    Mirrors [] (parseContentOn tree settings otherwise fuel text)
      (parseContent tree settings text) := by
  refine (Mirrors.onSession _).bind fun f => ?_
  refine (resolveImportsOn_mirrors tree settings (fun path => ?_) none f).bind fun _ => .pure f
  exact loadOn_mirrors tree settings otherwise List.nodup_nil (by simp) hfuel path

theorem parseWithImportsOn_mirrors (path : String) (further : List String) :
    Mirrors chain (parseWithImportsOn tree settings otherwise fuel path further)
      (parseWithImports tree settings path further) := by
  intro s
  unfold parseWithImportsOn parseWithImports
  simp only
  rw [parseFileOn_mirrors tree { settings with
    includePaths := settings.includePaths ++ further, resolveImports := true } otherwise hfuel path]
  generalize parseFile tree { settings with
    includePaths := settings.includePaths ++ further, resolveImports := true } path
    { empty with log := s.log } = r
  cases r with
  | ok f inner => rfl
  | error e inner => rfl

end Loading

end ProtoRoutes.Session
