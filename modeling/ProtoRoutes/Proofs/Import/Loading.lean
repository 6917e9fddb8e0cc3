import Mathlib.Data.List.Infix
import ProtoRoutes.Import.Session

/-!
# ProtoRoutes.Proofs.Import.Loading

What loading files does to a session. Log and warnings are written and never read, so only the
loaded files count. The equations at the top say what one step does: where a path leads, what its
file reads as, what becomes of one import. Everything below them is stated with three notions that
know of no session:

* `opening path` is what the file of a path reads as, or why it cannot be read;
* `contents loc` is what the file at a location reads as;
* `Settled cache current d` says why the import `d` needs no further look once `cache` is loaded.

The invariant is `Loaded`: a list of loaded files grows at its end only, by a file whose imports are
settled by the files in front of it. No file of the list is on a cycle then, and the list is closed
under the imports that can be loaded. `load_keeps` says that loading keeps it, whatever loading
comes to.
-/

namespace ProtoRoutes

open Files (Tree Path Location)

/-! ### Where a path leads -/

namespace Files.Tree

/-- The working directory is there, with everything above it. -/
def Standing (t : Tree) : Prop :=
  ∀ above, above <+: t.cwd → t.isDirectory above = true

theorem standing_of_cwd {t : Tree} {name : String} (hcwd : t.cwd = [name])
    (hdirectory : t.isDirectory [name] = true) : t.Standing := by
  intro above habove
  rw [hcwd] at habove
  rcases List.prefix_cons_iff.mp habove with rfl | ⟨rest, rfl, hrest⟩
  · rfl
  · rw [List.prefix_nil.mp hrest]
    exact hdirectory

/-- A canonical location is where the path leads, unless the path goes on behind a file. -/
theorem follow_of_canonicalFrom (t : Tree) {parts : List String} {loc dest : Location}
    (hplain : "." ∉ parts) (hthere : ∀ above, above <+: loc → (t.find? above).isSome)
    (hcanonical : t.canonicalFrom loc parts = some dest) :
    t.follow loc parts = .ok dest ∨ t.follow loc parts = .error .notDirectory := by
  induction parts generalizing loc with
  | nil =>
      rw [canonicalFrom, Option.some.injEq] at hcanonical
      subst hcanonical
      left
      rw [follow, if_pos (hthere loc (List.prefix_refl loc))]
  | cons part rest ih =>
      rw [List.mem_cons, not_or] at hplain
      rw [canonicalFrom] at hcanonical
      rw [follow]
      have here := hthere loc (List.prefix_refl loc)
      cases hentry : t.find? loc with
      | none => rw [hentry] at here; cases here
      | some entry =>
          cases entry with
          | file bytes => exact .inr rfl
          | directory =>
              simp only [Ne.symm hplain.1, if_false]
              by_cases hup : part = ".."
              · rw [if_pos hup] at hcanonical ⊢
                refine ih hplain.2 (fun above habove => ?_) hcanonical
                exact hthere above (habove.trans (List.dropLast_prefix loc))
              · rw [if_neg hup] at hcanonical ⊢
                by_cases hnext : (t.find? (loc ++ [part])).isSome
                · rw [if_pos hnext] at hcanonical
                  refine ih hplain.2 (fun above habove => ?_) hcanonical
                  rcases List.prefix_concat_iff.mp habove with rfl | habove
                  · exact hnext
                  · exact hthere above habove
                · rw [if_neg hnext] at hcanonical
                  cases hcanonical

theorem follow_of_canonical? {t : Tree} (hstanding : t.Standing) {text : String} {loc : Location}
    (hcanonical : t.canonical? (.ofText text) = some loc) :
    t.follow (t.startOf (.ofText text)) (Path.ofText text).parts = .ok loc ∨
      t.follow (t.startOf (.ofText text)) (Path.ofText text).parts = .error .notDirectory := by
  refine t.follow_of_canonicalFrom (by simp [Path.ofText]) (fun above habove => ?_) hcanonical
  unfold startOf at habove
  split at habove
  · have directory := hstanding above habove
    unfold isDirectory at directory
    split at directory
    · next heq => simp [heq]
    · cases directory
  · rw [List.prefix_nil] at habove
    subst habove
    rfl

end Files.Tree

namespace Session

variable {α β : Type}

/-! ### Runs -/

/-- What a run comes to, whatever the session is then. -/
def outcome : EStateM.Result Failure Session α → Except Failure α
  | .ok a _ => .ok a
  | .error e _ => .error e

/-- The run that comes to an outcome and leaves a session. -/
def ending : Except Failure α → Session → EStateM.Result Failure Session α
  | .ok a, s => .ok a s
  | .error e, s => .error e s

/-- Two sessions that differ in their logs at most. -/
structure Alike (s t : Session) : Prop where
  cache : t.cache = s.cache
  warnings : t.warnings = s.warnings

theorem run_bind (x : Action α) (f : α → Action β) (s : Session) :
    (x >>= f) s =
      match x s with
      | .ok a s' => f a s'
      | .error e s' => .error e s' := by
  show EStateM.bind x f s = _
  unfold EStateM.bind
  cases x s <;> rfl

theorem run_forM_cons (g : β → Action Unit) (b : β) (bs : List β) (s : Session) :
    (b :: bs).forM g s =
      match g b s with
      | .ok _ t => bs.forM g t
      | .error e t => .error e t := by
  show (g b >>= fun _ => bs.forM g) s = _
  rw [run_bind]
  cases g b s <;> rfl

variable (tree : Tree) (settings : ParserSettings)

theorem run_readText (p : Path) (s : Session) :
    readText tree p s = ending (outcome (readText tree p empty)) s := by
  unfold readText
  generalize (tree.follow (tree.startOf p) p.parts).map tree.find? = found
  rcases found with e | _ | bytes | _
  · cases e <;> rfl
  · rfl
  · simp only
    cases Files.sourceText? bytes <;> rfl
  · rfl

/-- What a text is read as does not depend on the session, which only notes what is reported. -/
theorem run_parseText (text : String) (s : Session) :
    ∃ s', Alike s s' ∧
      parseText settings text s = ending (Grammar.read (mode settings) text).outcome s' := by
  unfold parseText
  rw [run_bind]
  simp only [note]
  cases (Grammar.read (mode settings) text).outcome with
  | error e =>
      refine ⟨_, ?_, rfl⟩
      exact ⟨rfl, rfl⟩
  | ok f =>
      refine ⟨_, ?_, rfl⟩
      exact ⟨rfl, rfl⟩

/-! ### Reading a file -/

/-- What the file that a path leads to reads as. -/
def opening (path : String) : Except Failure SchemaFile :=
  match tree.canonical? (.ofText path) with
  | none => .error (.error (.fileNotFound path))
  | some _ =>
    match outcome (readText tree (.ofText path) empty) with
    | .error e => .error e
    | .ok text => (Grammar.read (mode settings) text).outcome

/-- What the file at a location reads as, if it can be read. -/
def contents (loc : Location) : Option SchemaFile :=
  match tree.find? loc with
  | some (.file bytes) =>
    (Files.sourceText? bytes).bind fun text =>
      (Grammar.read (mode settings) text).outcome.toOption
  | _ => none

/-- Paths with one canonical location read alike, unless one of them goes on behind a file. -/
theorem opening_of_canonical? {tree : Tree} (hstanding : tree.Standing) {path : String}
    {loc : Location} (hcanonical : tree.canonical? (.ofText path) = some loc) :
    opening tree settings path = .error (.breakdown .notDirectory) ∨
      (opening tree settings path).toOption = contents tree settings loc := by
  unfold opening contents
  rw [hcanonical]
  rcases Tree.follow_of_canonical? hstanding hcanonical with hfollow | hfollow
  · right
    unfold readText
    rw [hfollow]
    simp only [Except.map]
    cases tree.find? loc with
    | none => rfl
    | some entry =>
        cases entry with
        | directory => rfl
        | file bytes =>
            simp only
            cases Files.sourceText? bytes with
            | none => rfl
            | some text => rfl
  · left
    unfold readText
    rw [hfollow]
    rfl

/-- What was read from a path stands at the canonical location of the path. -/
theorem contents_of_opening {tree : Tree} (hstanding : tree.Standing) {path : String}
    {loc : Location} {f : SchemaFile} (hcanonical : tree.canonical? (.ofText path) = some loc)
    (hopening : opening tree settings path = .ok f) : contents tree settings loc = some f := by
  rcases opening_of_canonical? settings hstanding hcanonical with hstray | hsame
  · rw [hopening] at hstray
    cases hstray
  · rw [← hsame, hopening]
    rfl

/-- A failure of reading that may be passed over is one of the file, whatever path leads to it. -/
theorem contents_of_opening_error {tree : Tree} (hstanding : tree.Standing) {path : String}
    {loc : Location} {e : Failure} {w : SchemaError}
    (hcanonical : tree.canonical? (.ofText path) = some loc)
    (hopening : opening tree settings path = .error e)
    (htolerable : isTolerable settings e = some w) :
    contents tree settings loc = none := by
  rcases opening_of_canonical? settings hstanding hcanonical with hstray | hsame
  · rw [hopening] at hstray
    cases hstray
    cases htolerable
  · rw [← hsame, hopening]
    rfl

/-! ### One file -/

section Load

variable {tree settings} {room : Nat} {chain : List Location} {path : String} {loc : Location}
  {s : Session}

theorem load_of_missing (hcanonical : tree.canonical? (.ofText path) = none) :
    load tree settings room chain path s = .error (.error (.fileNotFound path)) s := by
  unfold load
  rw [hcanonical]
  rfl

/-- A file that is on the chain already is a cycle, whatever is cached. -/
theorem load_of_cycle (hcanonical : tree.canonical? (.ofText path) = some loc)
    (hchain : loc ∈ chain) :
    load tree settings room chain path s =
      .error (.error (.importCycle ((chain ++ [loc]).map Location.text))) s := by
  unfold load
  rw [hcanonical]
  simp only [List.contains_iff_mem.mpr hchain, if_true]
  rfl

/-- A file that was loaded before is taken from the cache, however little room there is. -/
theorem load_of_cached (room : Nat) (hcanonical : tree.canonical? (.ofText path) = some loc)
    (hchain : loc ∉ chain) {f : SchemaFile} (hcached : s.cache.lookup loc = some f) :
    ∃ s', Alike s s' ∧ load tree settings room chain path s = .ok f s' := by
  unfold load
  rw [hcanonical]
  simp only [List.contains_iff_mem, hchain, if_false, run_bind, cached?, hcached]
  refine ⟨_, ?_, rfl⟩
  exact ⟨rfl, rfl⟩

/-- Without room a file that is not cached is refused. -/
theorem load_of_full (hcanonical : tree.canonical? (.ofText path) = some loc)
    (hchain : loc ∉ chain) (hcached : s.cache.lookup loc = none) :
    load tree settings 0 chain path s =
      .error (.error (.importTooDeep loc.text (chain.length + 1) settings.maxImportDepth)) s := by
  unfold load
  rw [hcanonical]
  simp only [List.contains_iff_mem, hchain, if_false, run_bind, cached?, hcached]
  rfl

/-- With room a file is read, its imports are resolved, and it is cached. -/
theorem load_of_room (room : Nat) (hcanonical : tree.canonical? (.ofText path) = some loc)
    (hchain : loc ∉ chain) (hcached : s.cache.lookup loc = none) :
    ∃ s', Alike s s' ∧ load tree settings (room + 1) chain path s =
      match opening tree settings path with
      | .error e => .error e s'
      | .ok f =>
        match resolveImports tree settings (load tree settings room (chain ++ [loc]))
          (some loc) f s' with
        | .ok _ t => .ok f { t with cache := t.cache ++ [(loc, f)] }
        | .error e t => .error e t := by
  rw [load, hcanonical]
  unfold opening
  simp only [List.contains_iff_mem, hchain, if_false, run_bind, cached?, hcached, hcanonical]
  rw [run_readText]
  cases outcome (readText tree (.ofText path) empty) with
  | error e => exact ⟨s, ⟨rfl, rfl⟩, rfl⟩
  | ok text =>
      simp only [ending, note]
      obtain ⟨s', halike, hparse⟩ := run_parseText settings text
        { s with log := s.log ++ [.parsing loc.text (chain.length + 1)] }
      refine ⟨s', ⟨halike.cache, halike.warnings⟩, ?_⟩
      rw [hparse]
      cases (Grammar.read (mode settings) text).outcome with
      | error e => rfl
      | ok f =>
          simp only [ending]
          cases resolveImports tree settings (load tree settings room (chain ++ [loc])) (some loc)
            f s' with
          | error e t => rfl
          | ok u t => rfl

end Load

/-! ### One import -/

/-- The path of an imported file. -/
def sought (current : Option Location) (d : String) : Except Failure String :=
  (outcome (findImport tree settings current d empty)).map Path.text

theorem run_findImport (current : Option Location) (d : String) (s : Session) :
    findImport tree settings current d s =
      ending (outcome (findImport tree settings current d empty)) s := by
  unfold findImport
  cases settings.unnamedInclude with
  | true => rfl
  | false =>
      generalize (candidates settings current d).find? tree.isFile = found
      cases found <;> rfl

/-- Looks an import up and loads it. -/
def fetch (l : String → Action SchemaFile) (current : Option Location) (d : String) :
    Action SchemaFile := fun s =>
  match sought tree settings current d with
  | .error e => .error e s
  | .ok path => l path s

theorem fetch_error {l : String → Action SchemaFile} {current : Option Location} {d : String}
    {s t : Session} {e : Failure} (h : fetch tree settings l current d s = .error e t) :
    (sought tree settings current d = .error e ∧ t = s) ∨
      ∃ path, sought tree settings current d = .ok path ∧ l path s = .error e t := by
  unfold fetch at h
  cases hsought : sought tree settings current d with
  | error e' =>
      rw [hsought] at h
      cases h
      exact .inl ⟨rfl, rfl⟩
  | ok path =>
      rw [hsought] at h
      exact .inr ⟨path, rfl, h⟩

theorem resolveImport_of_skipped {l : String → Action SchemaFile} {current : Option Location}
    {d : String} (hskipped : isSkipped d = true) (s : Session) :
    ∃ s', Alike s s' ∧ resolveImport tree settings l current d s = .ok () s' := by
  unfold resolveImport
  rw [if_pos hskipped]
  refine ⟨_, ?_, rfl⟩
  exact ⟨rfl, rfl⟩

theorem resolveImport_of_fetch {l : String → Action SchemaFile} {current : Option Location}
    {d : String} (hskipped : isSkipped d = false) (s : Session) :
    resolveImport tree settings l current d s =
      match fetch tree settings l current d s with
      | .ok _ t => .ok () t
      | .error e t =>
        match isTolerable settings e with
        | some w => warn (importWarning current d w) t
        | none => .error e t := by
  have looked : attempt (do
      let p ← findImport tree settings current d
      l p.text) s =
      match fetch tree settings l current d s with
      | .ok f t => .ok (.ok f) t
      | .error e t => .ok (.error e) t := by
    unfold attempt fetch sought
    rw [run_bind, run_findImport]
    cases outcome (findImport tree settings current d empty) with
    | error e => rfl
    | ok p =>
        simp only [ending, Except.map]
        cases l p.text s <;> rfl
  unfold resolveImport
  rw [if_neg (by simp [hskipped]), run_bind, looked]
  cases fetch tree settings l current d s with
  | ok f t => rfl
  | error e t =>
      simp only
      cases isTolerable settings e with
      | none => rfl
      | some w => rfl

/-! ### All that a step can come to -/

/-- All that looking an import up can come to. -/
inductive SoughtStep (current : Option Location) (d : String) : Except Failure String → Prop where
  | unnamed : SoughtStep current d (.error (.breakdown .unnamedPath))
  | missing {places : List String}
      (hfind : (candidates settings current d).find? tree.isFile = none) :
      SoughtStep current d (.error (.error (.importNotFound d places)))
  | found {p : Path} (hfind : (candidates settings current d).find? tree.isFile = some p) :
      SoughtStep current d (.ok p.text)

/-- An import is found, or it is missing, or its path cannot be looked up. -/
theorem sought_cases (current : Option Location) (d : String) :
    SoughtStep tree settings current d (sought tree settings current d) := by
  unfold sought findImport
  cases settings.unnamedInclude with
  | true => exact .unnamed
  | false =>
      cases hfind : (candidates settings current d).find? tree.isFile with
      | none => exact .missing hfind
      | some p => exact .found hfind

/-- All that loading the file of a path can come to. -/
inductive LoadStep (room : Nat) (chain : List Location) (path : String) (s : Session) :
    EStateM.Result Failure Session SchemaFile → Prop where
  | missing (hcanonical : tree.canonical? (.ofText path) = none) :
      LoadStep room chain path s (.error (.error (.fileNotFound path)) s)
  | cycle {loc : Location} (hcanonical : tree.canonical? (.ofText path) = some loc)
      (hchain : loc ∈ chain) :
      LoadStep room chain path s
        (.error (.error (.importCycle ((chain ++ [loc]).map Location.text))) s)
  | cached {loc : Location} {f : SchemaFile} {t : Session}
      (hcanonical : tree.canonical? (.ofText path) = some loc) (hmem : (loc, f) ∈ s.cache)
      (halike : Alike s t) : LoadStep room chain path s (.ok f t)
  | full {loc : Location} (hroom : room = 0) :
      LoadStep room chain path s
        (.error (.error (.importTooDeep loc.text (chain.length + 1) settings.maxImportDepth)) s)
  | unread {e : Failure} {t : Session} (hopening : opening tree settings path = .error e)
      (halike : Alike s t) : LoadStep room chain path s (.error e t)
  | unresolved {n : Nat} {loc : Location} {f : SchemaFile} {e : Failure} {s' t : Session}
      (hroom : room = n + 1) (hcanonical : tree.canonical? (.ofText path) = some loc)
      (hchain : loc ∉ chain) (hopening : opening tree settings path = .ok f) (halike : Alike s s')
      (himports : resolveImports tree settings (load tree settings n (chain ++ [loc]))
      (some loc) f s' =
        .error e t) : LoadStep room chain path s (.error e t)
  | loaded {n : Nat} {loc : Location} {f : SchemaFile} {s' t : Session}
      (hroom : room = n + 1) (hcanonical : tree.canonical? (.ofText path) = some loc)
      (hchain : loc ∉ chain) (hopening : opening tree settings path = .ok f) (halike : Alike s s')
      (himports : resolveImports tree settings (load tree settings n (chain ++ [loc]))
      (some loc) f s' =
        .ok () t) : LoadStep room chain path s (.ok f { t with cache := t.cache ++ [(loc, f)] })

theorem mem_of_lookup {cache : List (Location × SchemaFile)} {loc : Location} {f : SchemaFile}
    (h : cache.lookup loc = some f) : (loc, f) ∈ cache := by
  obtain ⟨before, after, hsplit, -⟩ := List.lookup_eq_some_iff.mp h
  rw [hsplit]
  simp

/-- All that loading a file can come to. -/
theorem load_cases (room : Nat) (chain : List Location) (path : String) (s : Session) :
    LoadStep tree settings room chain path s (load tree settings room chain path s) := by
  cases hcanonical : tree.canonical? (.ofText path) with
  | none =>
      rw [load_of_missing hcanonical]
      exact .missing hcanonical
  | some loc =>
      by_cases hchain : loc ∈ chain
      · rw [load_of_cycle hcanonical hchain]
        exact .cycle hcanonical hchain
      cases hcached : s.cache.lookup loc with
      | some f =>
          obtain ⟨t, halike, hrun⟩ := load_of_cached room hcanonical hchain hcached
          rw [hrun]
          exact .cached hcanonical (mem_of_lookup hcached) halike
      | none =>
          cases room with
          | zero =>
              rw [load_of_full hcanonical hchain hcached]
              exact .full rfl
          | succ n =>
              obtain ⟨s', halike, hrun⟩ := load_of_room n hcanonical hchain hcached
              rw [hrun]
              cases hopening : opening tree settings path with
              | error e => exact .unread hopening halike
              | ok f =>
                  simp only
                  cases himports : resolveImports tree settings
                      (load tree settings n (chain ++ [loc])) (some loc) f s' with
                  | error e t => exact .unresolved rfl hcanonical hchain hopening halike himports
                  | ok u t => exact .loaded rfl hcanonical hchain hopening halike himports

/-- All that resolving an import can come to, where `l` loads a file. -/
inductive ImportStep (l : String → Action SchemaFile) (current : Option Location) (d : String)
    (s : Session) : EStateM.Result Failure Session Unit → Prop where
  | skipped {t : Session} (hskipped : isSkipped d = true) (halike : Alike s t) :
      ImportStep l current d s (.ok () t)
  | loaded {path : String} {f : SchemaFile} {t : Session} (hskipped : isSkipped d = false)
      (hsought : sought tree settings current d = .ok path) (hload : l path s = .ok f t) :
      ImportStep l current d s (.ok () t)
  | passed {e : Failure} {w : SchemaError} {t : Session} (hskipped : isSkipped d = false)
      (hfetch : fetch tree settings l current d s = .error e t)
      (htolerable : isTolerable settings e = some w) :
      ImportStep l current d s (warn (importWarning current d w) t)
  | failed {e : Failure} {t : Session} (hskipped : isSkipped d = false)
      (hfetch : fetch tree settings l current d s = .error e t)
      (hfatal : isTolerable settings e = none) : ImportStep l current d s (.error e t)

/-- All that resolving an import can come to. -/
theorem resolveImport_cases (l : String → Action SchemaFile) (current : Option Location)
    (d : String) (s : Session) :
    ImportStep tree settings l current d s (resolveImport tree settings l current d s) := by
  cases hskipped : isSkipped d with
  | true =>
      obtain ⟨t, halike, hrun⟩ := resolveImport_of_skipped tree settings hskipped s
      rw [hrun]
      exact .skipped hskipped halike
  | false =>
      rw [resolveImport_of_fetch tree settings hskipped]
      cases hfetch : fetch tree settings l current d s with
      | ok f t =>
          unfold fetch at hfetch
          cases hsought : sought tree settings current d with
          | error e => rw [hsought] at hfetch; cases hfetch
          | ok path =>
              rw [hsought] at hfetch
              exact .loaded hskipped hsought hfetch
      | error e t =>
          simp only
          cases htolerable : isTolerable settings e with
          | none => exact .failed hskipped hfetch htolerable
          | some w => exact .passed hskipped hfetch htolerable

/-! ### The invariant -/

/-- Loaded files, in the order in which they were kept. -/
abbrev Cache := List (Location × SchemaFile)

/-- Why an import needs no further look once some files are loaded: it is none, its file is among
them, or it is passed over with a warning for a reason that no session has a part in. -/
inductive Settled (cache : Cache) (current : Option Location) (d : String) : Prop where
  | skipped (hskipped : isSkipped d = true)
  | loaded {path : String} {loc : Location} (hsought : sought tree settings current d = .ok path)
      (hcanonical : tree.canonical? (.ofText path) = some loc) (hloaded : loc ∈ cache.map Prod.fst)
  | unsought {e : Failure} {w : SchemaError} (hsought : sought tree settings current d = .error e)
      (htolerable : isTolerable settings e = some w)
  | unread {path : String} {e : Failure} {w : SchemaError}
      (hsought : sought tree settings current d = .ok path)
      (hopening : opening tree settings path = .error e)
      (htolerable : isTolerable settings e = some w)

/-- Files that were loaded one after the other, each with its imports settled by those before it. -/
inductive Loaded : Cache → Prop where
  | nil : Loaded []
  | snoc {cache : Cache} {loc : Location} {f : SchemaFile} (hcache : Loaded cache)
      (hnew : loc ∉ cache.map Prod.fst) (hcontents : contents tree settings loc = some f)
      (hsettled : settings.resolveImports = true →
        ∀ d ∈ f.dependencies, Settled tree settings cache (some loc) d) :
      Loaded (cache ++ [(loc, f)])

/-- A session in which files may be loaded on behalf of a chain: none of the chain is loaded, but
all of them were read. -/
structure Ready (chain : List Location) (s : Session) : Prop where
  loaded : Loaded tree settings s.cache
  apart : ∀ loc ∈ chain, loc ∉ s.cache.map Prod.fst
  read : ∀ loc ∈ chain, (contents tree settings loc).isSome

/-- What every load on behalf of a chain does to a session. -/
structure Kept (chain : List Location) (s t : Session) : Prop where
  ready : Ready tree settings chain t
  grown : s.cache ⊆ t.cache

section Invariant

variable {tree settings} {cache : Cache} {chain : List Location} {s t u : Session} {loc : Location}
  {f : SchemaFile}

theorem notMem_of_lookup (h : cache.lookup loc = none) : loc ∉ cache.map Prod.fst := by
  intro hmem
  obtain ⟨entry, hentry, rfl⟩ := List.mem_map.mp hmem
  have differs := List.lookup_eq_none_iff.mp h entry hentry
  simp at differs

/-- What is settled stays so when the cache grows. -/
theorem Settled.mono {cache' : Cache} {current : Option Location} {d : String}
    (h : Settled tree settings cache current d) (hgrown : cache ⊆ cache') :
    Settled tree settings cache' current d := by
  cases h with
  | skipped hskipped => exact .skipped hskipped
  | loaded hsought hcanonical hloaded =>
      exact .loaded hsought hcanonical (List.map_subset Prod.fst hgrown hloaded)
  | unsought hsought htolerable => exact .unsought hsought htolerable
  | unread hsought hopening htolerable => exact .unread hsought hopening htolerable

theorem Loaded.contents_eq (h : Loaded tree settings cache) (hmem : (loc, f) ∈ cache) :
    contents tree settings loc = some f := by
  induction h with
  | nil => cases hmem
  | snoc _ _ hcontents _ ih =>
      rcases List.mem_append.mp hmem with hmem | hmem
      · exact ih hmem
      · cases List.mem_singleton.mp hmem
        exact hcontents

theorem Ready.congr (h : Ready tree settings chain s) (hcache : t.cache = s.cache) :
    Ready tree settings chain t := by
  obtain ⟨loaded, apart, read⟩ := h
  rw [← hcache] at loaded apart
  exact ⟨loaded, apart, read⟩

/-- A file that is being read may be put on the chain. -/
theorem Ready.push (h : Ready tree settings chain s) (hnew : loc ∉ s.cache.map Prod.fst)
    (hcontents : contents tree settings loc = some f) :
    Ready tree settings (chain ++ [loc]) s := by
  refine ⟨h.loaded, fun l hl => ?_, fun l hl => ?_⟩
  · rcases List.mem_append.mp hl with hl | hl
    · exact h.apart l hl
    · cases List.mem_singleton.mp hl
      exact hnew
  · rcases List.mem_append.mp hl with hl | hl
    · exact h.read l hl
    · cases List.mem_singleton.mp hl
      rw [hcontents]
      rfl

/-- A file whose imports are settled may be cached. -/
theorem Ready.store (h : Ready tree settings (chain ++ [loc]) s) (hchain : loc ∉ chain)
    (hcontents : contents tree settings loc = some f)
    (hsettled : settings.resolveImports = true →
      ∀ d ∈ f.dependencies, Settled tree settings s.cache (some loc) d) :
    Ready tree settings chain { s with cache := s.cache ++ [(loc, f)] } := by
  refine ⟨.snoc h.loaded (h.apart loc (by simp)) hcontents hsettled, fun l hl => ?_,
    fun l hl => h.read l (List.mem_append_left _ hl)⟩
  intro hmem
  rw [List.map_append, List.mem_append] at hmem
  rcases hmem with hmem | hmem
  · exact h.apart l (List.mem_append_left _ hl) hmem
  · cases List.mem_singleton.mp hmem
    exact hchain hl

theorem Ready.pop (h : Ready tree settings (chain ++ [loc]) s) : Ready tree settings chain s :=
  ⟨h.loaded, fun l hl => h.apart l (List.mem_append_left _ hl),
    fun l hl => h.read l (List.mem_append_left _ hl)⟩

theorem Ready.kept (h : Ready tree settings chain s) (hcache : t.cache = s.cache) :
    Kept tree settings chain s t :=
  ⟨h.congr hcache, by rw [hcache]; exact List.Subset.refl _⟩

theorem Kept.trans (hst : Kept tree settings chain s t) (htu : Kept tree settings chain t u) :
    Kept tree settings chain s u :=
  ⟨htu.ready, List.Subset.trans hst.grown htu.grown⟩

end Invariant

/-! ### Loading keeps the invariant -/

/-- What loading the file of a path comes to. A failure that may be passed over is one of the file
itself: a file whose imports fail is passed over by none. -/
inductive Fetched (chain : List Location) (path : String) (s : Session) :
    EStateM.Result Failure Session SchemaFile → Prop where
  | ok {f : SchemaFile} {t : Session} {loc : Location} (hkept : Kept tree settings chain s t)
      (hcanonical : tree.canonical? (.ofText path) = some loc) (hmem : (loc, f) ∈ t.cache) :
      Fetched chain path s (.ok f t)
  | error {e : Failure} {t : Session} (hkept : Kept tree settings chain s t)
      (hreason : ∀ w, isTolerable settings e = some w → opening tree settings path = .error e) :
      Fetched chain path s (.error e t)

/-- What resolving imports comes to. No failure of it may be passed over. -/
inductive Resolved (chain : List Location) (s : Session) (post : Cache → Prop) :
    EStateM.Result Failure Session Unit → Prop where
  | ok {t : Session} (hkept : Kept tree settings chain s t) (hpost : post t.cache) :
      Resolved chain s post (.ok () t)
  | error {e : Failure} {t : Session} (hkept : Kept tree settings chain s t)
      (hfatal : isTolerable settings e = none) : Resolved chain s post (.error e t)

section Keeps

variable {tree settings} {chain : List Location} {l : String → Action SchemaFile}
  (current : Option Location) {s : Session}

/-- Resolving an import keeps the invariant, and settles the import if it succeeds. -/
theorem resolveImport_keeps
    (hl : ∀ path s, Ready tree settings chain s → Fetched tree settings chain path s (l path s))
    (hs : Ready tree settings chain s) (d : String) :
    Resolved tree settings chain s (Settled tree settings · current d)
      (resolveImport tree settings l current d s) := by
  cases hskipped : isSkipped d with
  | true =>
      obtain ⟨t, ⟨hcache, -⟩, hrun⟩ := resolveImport_of_skipped tree settings hskipped s
      rw [hrun]
      exact .ok (hs.kept hcache) (.skipped hskipped)
  | false =>
      rw [resolveImport_of_fetch tree settings hskipped]
      unfold fetch
      cases hsought : sought tree settings current d with
      | error e =>
          simp only
          cases htolerable : isTolerable settings e with
          | none => exact .error (hs.kept rfl) htolerable
          | some w => exact .ok (hs.kept rfl) (.unsought hsought htolerable)
      | ok path =>
          have fetched := hl path s hs
          simp only
          generalize l path s = r at fetched
          cases fetched with
          | ok hkept hcanonical hmem =>
              exact .ok hkept (.loaded hsought hcanonical (List.mem_map_of_mem hmem))
          | @error e t hkept hreason =>
              simp only
              cases htolerable : isTolerable settings e with
              | none => exact .error hkept htolerable
              | some w =>
                  exact .ok (hkept.trans (hkept.ready.kept rfl))
                    (.unread hsought (hreason w htolerable) htolerable)

/-- Imports are resolved one after another, and each of them stays settled. -/
theorem forM_keeps
    (hl : ∀ path s, Ready tree settings chain s → Fetched tree settings chain path s (l path s))
    (ds : List String) (hs : Ready tree settings chain s) :
    Resolved tree settings chain s (fun c => ∀ d ∈ ds, Settled tree settings c current d)
      (ds.forM (resolveImport tree settings l current) s) := by
  induction ds generalizing s with
  | nil => exact .ok (hs.kept rfl) (fun d hd => nomatch hd)
  | cons d ds ih =>
      rw [run_forM_cons]
      have first := resolveImport_keeps current hl hs d
      generalize resolveImport tree settings l current d s = r at first
      cases first with
      | error hkept hfatal => exact .error hkept hfatal
      | @ok t hkept hsettled =>
          have others := ih hkept.ready
          simp only
          generalize ds.forM (resolveImport tree settings l current) t = r at others
          cases others with
          | error hkept' hfatal => exact .error (hkept.trans hkept') hfatal
          | ok hkept' hsettled' =>
              refine .ok (hkept.trans hkept') fun d' hd' => ?_
              rcases List.mem_cons.mp hd' with rfl | hd'
              · exact hsettled.mono hkept'.grown
              · exact hsettled' d' hd'

theorem resolveImports_keeps
    (hl : ∀ path s, Ready tree settings chain s → Fetched tree settings chain path s (l path s))
    (f : SchemaFile) (hs : Ready tree settings chain s) :
    Resolved tree settings chain s
      (fun c => settings.resolveImports = true →
        ∀ d ∈ f.dependencies, Settled tree settings c current d)
      (resolveImports tree settings l current f s) := by
  unfold resolveImports
  by_cases hresolve : settings.resolveImports = true
  · rw [if_pos hresolve]
    have all := forM_keeps current hl f.dependencies hs
    generalize f.dependencies.forM (resolveImport tree settings l current) s = r at all
    cases all with
    | ok hkept hsettled => exact .ok hkept fun _ => hsettled
    | error hkept hfatal => exact .error hkept hfatal
  · rw [if_neg hresolve]
    exact .ok (hs.kept rfl) fun h => absurd h hresolve

end Keeps

/-- One step of `load_keeps`, given that loading keeps the invariant for the files behind this one.
-/
theorem load_keeps_step {tree : Tree} (hstanding : tree.Standing) {room : Nat}
    (hrec : ∀ n, room = n + 1 → ∀ chain path s, Ready tree settings chain s →
      Fetched tree settings chain path s (load tree settings n chain path s))
    {chain : List Location} {s : Session} (hs : Ready tree settings chain s) (path : String) :
    Fetched tree settings chain path s (load tree settings room chain path s) := by
  cases hcanonical : tree.canonical? (.ofText path) with
  | none =>
      rw [load_of_missing hcanonical]
      refine .error (hs.kept rfl) fun w _ => ?_
      rw [opening, hcanonical]
  | some loc =>
      by_cases hchain : loc ∈ chain
      · rw [load_of_cycle hcanonical hchain]
        exact .error (hs.kept rfl) (fun w hw => nomatch hw)
      cases hcached : s.cache.lookup loc with
      | some f =>
          obtain ⟨t, ⟨hcache, -⟩, hrun⟩ := load_of_cached room hcanonical hchain hcached
          rw [hrun]
          exact .ok (hs.kept hcache) hcanonical (hcache ▸ mem_of_lookup hcached)
      | none =>
          cases room with
          | zero =>
              rw [load_of_full hcanonical hchain hcached]
              exact .error (hs.kept rfl) (fun w hw => nomatch hw)
          | succ n =>
              obtain ⟨t, ⟨hcache, -⟩, hrun⟩ := load_of_room n hcanonical hchain hcached
              rw [hrun]
              cases hopening : opening tree settings path with
              | error e => exact .error (hs.kept hcache) fun w _ => hopening
              | ok f =>
                  -- The file was read, so it joins the chain while its imports are resolved.
                  have hcontents := contents_of_opening settings hstanding hcanonical hopening
                  have pushed : Ready tree settings (chain ++ [loc]) t :=
                    (hs.push (notMem_of_lookup hcached) hcontents).congr hcache
                  have resolved :=
                    resolveImports_keeps (some loc) (hrec n rfl (chain ++ [loc])) f pushed
                  simp only
                  generalize resolveImports tree settings (load tree settings n (chain ++ [loc]))
                    (some loc) f t = r at resolved
                  cases resolved with
                  | @error e u hkept hfatal =>
                      refine .error ⟨hkept.ready.pop, hcache ▸ hkept.grown⟩ fun w hw => ?_
                      rw [hfatal] at hw
                      cases hw
                  | @ok u hkept hsettled =>
                      refine .ok ⟨hkept.ready.store hchain hcontents hsettled, ?_⟩ hcanonical
                        (by simp)
                      exact List.Subset.trans (hcache ▸ hkept.grown) (List.subset_append_left _ _)

/-- Loading keeps the invariant, also where it fails. -/
theorem load_keeps {tree : Tree} (hstanding : tree.Standing) (room : Nat) (chain : List Location)
    (path : String) (s : Session) (hs : Ready tree settings chain s) :
    Fetched tree settings chain path s (load tree settings room chain path s) := by
  induction room generalizing chain path s with
  | zero => exact load_keeps_step settings hstanding (fun n hn => absurd hn (by omega)) hs path
  | succ room ih =>
      refine load_keeps_step settings hstanding (fun n hn => ?_) hs path
      cases hn
      exact ih

end Session

end ProtoRoutes
