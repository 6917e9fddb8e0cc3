import ProtoRoutes.Proofs.Import.ChainStack
import ProtoRoutes.Proofs.Import.Transparency

/-!
# ProtoRoutes.Proofs.Import.Consistency

**Every operation leaves a session consistent, whatever it comes to.** The files may change between
two operations, so nothing is assumed about the session that an operation finds: what it has loaded
need not be what the files hold now. What an operation adds is said by `Extends`, one loaded file
after the other: each is new, its location is that of a path, and the file there reads as what is
kept.

A load adds files at every depth, and some of them stay when it fails. So `Extends` carries the
chain along: no file on whose behalf others are loaded is added meanwhile. That is why the file
itself is new when it is added at last.
-/

namespace ProtoRoutes

open Files (Tree Path Location)

namespace Files.Tree

/-- Where a path leads is its canonical location. -/
theorem canonicalFrom_of_follow (t : Tree) {parts : List String} {loc dest dest' : Location}
    (hplain : "." ∉ parts) (hfollow : t.follow loc parts = .ok dest)
    (hcanonical : t.canonicalFrom loc parts = some dest') : dest' = dest := by
  induction parts generalizing loc with
  | nil =>
      rw [canonicalFrom, Option.some.injEq] at hcanonical
      rw [follow] at hfollow
      split at hfollow
      · cases hfollow
        exact hcanonical.symm
      · cases hfollow
  | cons part rest ih =>
      rw [List.mem_cons, not_or] at hplain
      rw [canonicalFrom] at hcanonical
      rw [follow] at hfollow
      split at hfollow
      · cases hfollow
      · cases hfollow
      · rw [if_neg (Ne.symm hplain.1)] at hfollow
        by_cases hup : part = ".."
        · rw [if_pos hup] at hcanonical hfollow
          exact ih hplain.2 hfollow hcanonical
        · rw [if_neg hup] at hcanonical hfollow
          split at hcanonical
          · exact ih hplain.2 hfollow hcanonical
          · cases hcanonical

end Files.Tree

namespace Session

/-! ### What is added -/

section Extends

variable (tree : Tree) (settings : ParserSettings)

/-- The second list of loaded files is the first one with files added, each of which is new, stands
outside the chain, and is what the file at its location reads as. -/
inductive Extends (chain : List Location) (old : Cache) : Cache → Prop where
  | refl : Extends chain old old
  | snoc {cache : Cache} {path : String} {loc : Location} {f : SchemaFile}
      (hcache : Extends chain old cache) (hnew : loc ∉ cache.map Prod.fst) (hchain : loc ∉ chain)
      (hcanonical : tree.canonical? (.ofText path) = some loc)
      (hcontents : contents tree settings loc = some f) :
      Extends chain old (cache ++ [(loc, f)])

/-- What every step does to a session on behalf of a chain. -/
structure Grown (chain : List Location) (s t : Session) : Prop where
  cache : Extends tree settings chain s.cache t.cache
  warnings : s.warnings <+: t.warnings

variable {tree settings} {chain : List Location} {a b c : Cache} {s t u : Session} {loc : Location}
  {f : SchemaFile}

theorem Extends.trans (hab : Extends tree settings chain a b)
    (hbc : Extends tree settings chain b c) :
    Extends tree settings chain a c := by
  induction hbc with
  | refl => exact hab
  | snoc _ hnew hchain hcanonical hcontents ih => exact ih.snoc hnew hchain hcanonical hcontents

theorem Extends.pop (h : Extends tree settings (chain ++ [loc]) a b) :
    Extends tree settings chain a b := by
  induction h with
  | refl => exact .refl
  | snoc _ hnew hchain hcanonical hcontents ih =>
      exact ih.snoc hnew (fun hmem => hchain (List.mem_append_left _ hmem)) hcanonical hcontents

/-- No file of the chain is added. -/
theorem Extends.notMem (h : Extends tree settings chain a b) (hloc : loc ∈ chain)
    (hnew : loc ∉ a.map Prod.fst) : loc ∉ b.map Prod.fst := by
  induction h with
  | refl => exact hnew
  | snoc _ _ hchain _ _ ih =>
      rw [List.map_append, List.mem_append, not_or]
      refine ⟨ih, fun hmem => hchain ?_⟩
      cases List.mem_singleton.mp hmem
      exact hloc

/-- What was loaded stays loaded. -/
theorem Extends.lookup (h : Extends tree settings chain a b) (hloc : a.lookup loc = some f) :
    b.lookup loc = some f := by
  induction h with
  | refl => exact hloc
  | snoc _ _ _ _ _ ih => rw [List.lookup_append, ih]; rfl

/-- What is loaded and was not is what the file at its location reads as. -/
theorem Extends.added (h : Extends tree settings chain a b) (hnone : a.lookup loc = none)
    (hloc : b.lookup loc = some f) :
    (∃ path, tree.canonical? (.ofText path) = some loc) ∧ contents tree settings loc = some f := by
  induction h with
  | refl =>
      rw [hnone] at hloc
      cases hloc
  | @snoc cache path loc' f' _ _ _ hcanonical hcontents ih =>
      rw [List.lookup_append] at hloc
      cases hbefore : cache.lookup loc with
      | some g =>
          rw [hbefore] at hloc ih
          exact ih hloc
      | none =>
          rw [hbefore, Option.none_or] at hloc
          obtain ⟨front, back, hsplit, -⟩ := List.lookup_eq_some_iff.mp hloc
          have hmem : (loc, f) ∈ [(loc', f')] := by rw [hsplit]; simp
          cases List.mem_singleton.mp hmem
          exact ⟨⟨path, hcanonical⟩, hcontents⟩

theorem lookup_eq_none (hnew : loc ∉ a.map Prod.fst) : a.lookup loc = none := by
  rw [List.lookup_eq_none_iff]
  intro entry hentry
  have differs : loc ≠ entry.1 := fun heq => hnew (heq ▸ List.mem_map_of_mem hentry)
  simpa using differs

theorem Grown.of_alike (h : Alike s t) : Grown tree settings chain s t :=
  ⟨h.cache ▸ .refl, by rw [h.warnings]⟩

theorem Grown.refl (s : Session) : Grown tree settings chain s s :=
  .of_alike ⟨rfl, rfl⟩

theorem Grown.pop (h : Grown tree settings (chain ++ [loc]) s t) : Grown tree settings chain s t :=
  ⟨h.cache.pop, h.warnings⟩

theorem Grown.store {path : String} (h : Grown tree settings chain s t)
    (hnew : loc ∉ t.cache.map Prod.fst)
    (hchain : loc ∉ chain) (hcanonical : tree.canonical? (.ofText path) = some loc)
    (hcontents : contents tree settings loc = some f) :
    Grown tree settings chain s { t with cache := t.cache ++ [(loc, f)] } :=
  ⟨h.cache.snoc hnew hchain hcanonical hcontents, h.warnings⟩

theorem Grown.trans (hst : Grown tree settings chain s t) (htu : Grown tree settings chain t u) :
    Grown tree settings chain s u :=
  ⟨hst.cache.trans htu.cache, hst.warnings.trans htu.warnings⟩

end Extends

/-- What a run comes to that adds to a session, and what is true if it succeeds. -/
inductive Grows (tree : Tree) (settings : ParserSettings) {α : Type} (chain : List Location)
    (s : Session) (post : α → Session → Prop) : EStateM.Result Failure Session α → Prop where
  | ok {a : α} {t : Session} (hst : Grown tree settings chain s t) (hpost : post a t) :
      Grows tree settings chain s post (.ok a t)
  | error {e : Failure} {t : Session} (hst : Grown tree settings chain s t) :
      Grows tree settings chain s post (.error e t)

/-- The file of a path is loaded, and is this one. -/
def Keeps (tree : Tree) (path : String) (f : SchemaFile) (s : Session) : Prop :=
  ∃ loc, tree.canonical? (.ofText path) = some loc ∧ s.cache.lookup loc = some f

section Grows

variable {tree : Tree} {settings : ParserSettings} {α : Type} {chain : List Location}
  {l : String → Action SchemaFile} (current : Option Location) {s t : Session}

theorem Grows.left {post : α → Session → Prop} {r : EStateM.Result Failure Session α}
    (h : Grows tree settings chain s post r) : Grown tree settings chain s (left r) := by
  cases h with
  | ok hst _ => exact hst
  | error hst => exact hst

/-- What was read from a path is what the file at its canonical location reads as. -/
theorem contents_of_opened {path : String} {loc : Location} {f : SchemaFile}
    (hcanonical : tree.canonical? (.ofText path) = some loc)
    (hopening : opening tree settings path = .ok f) : contents tree settings loc = some f := by
  unfold opening readText at hopening
  simp only [hcanonical] at hopening
  cases hfollow : tree.follow (tree.startOf (.ofText path)) (Path.ofText path).parts with
  | error e =>
      rw [hfollow] at hopening
      cases e <;> cases hopening
  | ok dest =>
      cases tree.canonicalFrom_of_follow (by simp [Path.ofText]) hfollow hcanonical
      rw [hfollow] at hopening
      simp only [Except.map] at hopening
      unfold contents
      cases hentry : tree.find? loc with
      | none =>
          rw [hentry] at hopening
          cases hopening
      | some entry =>
          cases entry with
          | directory =>
              rw [hentry] at hopening
              cases hopening
          | file bytes =>
              simp only [hentry] at hopening ⊢
              cases htext : Files.sourceText? bytes with
              | none =>
                  rw [htext] at hopening
                  cases hopening
              | some text =>
                  rw [htext] at hopening
                  show (Grammar.read (mode settings) text).outcome.toOption = some f
                  rw [show (Grammar.read (mode settings) text).outcome = .ok f from hopening]
                  rfl

theorem resolveImport_grows
    (hl : ∀ path s, Grows tree settings chain s (Keeps tree path) (l path s)) (d : String) :
    Grows tree settings chain s (fun _ _ => True) (resolveImport tree settings l current d s) := by
  have fetched : ∀ {e : Failure} {t : Session}, fetch tree settings l current d s = .error e t →
      Grown tree settings chain s t := by
    intro e t hfetch
    rcases fetch_error tree settings hfetch with ⟨-, rfl⟩ | ⟨path, -, hload⟩
    · exact .refl t
    · have loaded := (hl path s).left
      rw [hload] at loaded
      exact loaded
  have step := resolveImport_cases tree settings l current d s
  generalize resolveImport tree settings l current d s = r at step
  cases step with
  | skipped _ halike => exact .ok (.of_alike halike) trivial
  | @loaded path f t _ _ hload =>
      have loaded := (hl path s).left
      rw [hload] at loaded
      exact .ok loaded trivial
  | passed _ hfetch _ =>
      exact .ok ((fetched hfetch).trans ⟨.refl, List.prefix_append _ _⟩) trivial
  | failed _ hfetch _ => exact .error (fetched hfetch)

theorem resolveImports_grows
    (hl : ∀ path s, Grows tree settings chain s (Keeps tree path) (l path s)) (f : SchemaFile)
    (s : Session) :
    Grows tree settings chain s (fun _ _ => True) (resolveImports tree settings l current f s) := by
  unfold resolveImports
  split
  · generalize f.dependencies = ds
    induction ds generalizing s with
    | nil => exact .ok (.refl s) trivial
    | cons d ds ih =>
        rw [run_forM_cons]
        have first := resolveImport_grows current (s := s) hl d
        generalize resolveImport tree settings l current d s = r at first
        cases first with
        | error hst => exact .error hst
        | @ok _ t hst _ =>
            have others := ih t
            simp only
            generalize ds.forM (resolveImport tree settings l current) t = r at others
            cases others with
            | error htu => exact .error (hst.trans htu)
            | ok htu _ => exact .ok (hst.trans htu) trivial
  · exact .ok (.refl s) trivial

/-- Loading adds to a session, also where it fails, and keeps the file that it hands out. -/
theorem load_grows (room : Nat) (chain : List Location) (path : String) (s : Session) :
    Grows tree settings chain s (Keeps tree path) (load tree settings room chain path s) := by
  -- On the room for the chain: the imports of a file are loaded with less of it.
  induction room using Nat.strongRecOn generalizing chain path s with
  | ind room ih =>
      cases hcanonical : tree.canonical? (.ofText path) with
      | none =>
          rw [load_of_missing hcanonical]
          exact .error (.refl s)
      | some loc =>
          by_cases hchain : loc ∈ chain
          · rw [load_of_cycle hcanonical hchain]
            exact .error (.refl s)
          cases hcached : s.cache.lookup loc with
          | some f =>
              obtain ⟨t, halike, hrun⟩ := load_of_cached room hcanonical hchain hcached
              rw [hrun]
              exact .ok (.of_alike halike) ⟨loc, hcanonical, halike.cache ▸ hcached⟩
          | none =>
              cases room with
              | zero =>
                  rw [load_of_full hcanonical hchain hcached]
                  exact .error (.refl s)
              | succ n =>
                  obtain ⟨t, halike, hrun⟩ := load_of_room n hcanonical hchain hcached
                  rw [hrun]
                  cases hopening : opening tree settings path with
                  | error e => exact .error (.of_alike halike)
                  | ok f =>
                      have started : Grown tree settings chain s t := .of_alike halike
                      have resolved :=
                        resolveImports_grows (some loc) (ih n (by omega) (chain ++ [loc])) f t
                      simp only
                      generalize resolveImports tree settings
                        (load tree settings n (chain ++ [loc]))
                        (some loc) f t = r at resolved
                      cases resolved with
                      | error htu => exact .error (started.trans htu.pop)
                      | @ok _ u htu _ =>
                          -- The file was on the chain all the time, so none of its imports brought
                          -- it in.
                          have hnew : loc ∉ u.cache.map Prod.fst := by
                            refine htu.cache.notMem (by simp) ?_
                            rw [halike.cache]
                            exact notMem_of_lookup hcached
                          have added := (started.trans htu.pop).store hnew hchain hcanonical
                            (contents_of_opened hcanonical hopening)
                          refine .ok added ⟨loc, hcanonical, ?_⟩
                          rw [List.lookup_append, lookup_eq_none hnew]
                          simp

end Grows

/-! ### Operations -/

section Operations

variable (tree : Tree) (settings : ParserSettings)

theorem parseFile_grows (path : String) (s : Session) :
    Grows tree settings [] s (Keeps tree path) (parseFile tree settings path s) :=
  load_grows settings.maxImportDepth.toNat [] path s

theorem parseContent_grows (text : String) (s : Session) :
    Grown tree settings [] s (left (parseContent tree settings text s)) := by
  obtain ⟨t, halike, hrun⟩ := run_parseText settings text s
  have started : Grown tree settings [] s t := .of_alike halike
  unfold parseContent
  rw [run_bind, hrun]
  cases (Grammar.read (mode settings) text).outcome with
  | error e => exact started
  | ok f =>
      simp only [ending]
      rw [run_bind]
      have resolved : Grows tree settings [] t (fun _ _ => True)
          (resolveImports tree settings (loadFresh tree settings) none f t) :=
        resolveImports_grows none (parseFile_grows tree settings) f t
      generalize resolveImports tree settings (loadFresh tree settings) none f t = r at resolved
      cases resolved with
      | ok htu _ => exact started.trans htu
      | error htu => exact started.trans htu

theorem parseWithImports_grows (path : String) (further : List String) (s : Session) :
    Grown tree settings [] s (left (parseWithImports tree settings path further s)) := by
  refine ⟨?_, ?_⟩
  · rw [parseWithImports_cache]
    exact .refl
  · unfold parseWithImports
    simp only
    split
    · exact List.prefix_append _ _
    · exact List.prefix_refl _

/-- Every operation but `clear` adds to a session. -/
theorem perform_grows (operation : Operation) (hclear : operation ≠ .clear) (s : Session) :
    Grown tree settings [] s (perform tree settings s operation) := by
  cases operation with
  | parseFile path => exact (parseFile_grows tree settings path s).left
  | parseContent text => exact parseContent_grows tree settings text s
  | parseWithImports path further => exact parseWithImports_grows tree settings path further s
  | clear => exact absurd rfl hclear

end Operations

/-- The session after operations, each on files of its own. -/
def through (settings : ParserSettings) (steps : List (Tree × Operation)) (s : Session) : Session :=
  steps.foldl (fun s step => perform step.1 settings s step.2) s

/-- What is loaded stays loaded until the session is cleared, however the files change. -/
theorem lookup_through {settings : ParserSettings} {steps : List (Tree × Operation)}
    (hclear : ∀ step ∈ steps, step.2 ≠ .clear) {s : Session} {loc : Location} {f : SchemaFile}
    (hloc : s.cache.lookup loc = some f) :
      (through settings steps s).cache.lookup loc = some f := by
  induction steps generalizing s with
  | nil => exact hloc
  | cons step steps ih =>
      have grown := perform_grows step.1 settings step.2 (hclear step List.mem_cons_self) s
      exact ih (fun other hother => hclear other (List.mem_cons_of_mem _ hother))
        (grown.cache.lookup hloc)

/-- **Every operation leaves a session consistent, whatever it comes to.** The files are those of a
tree, which has no symbolic links. With the chain as a stack that starts empty, loading a file,
reading a text and loading in a session of its own come to what they come to without it, and the
stack is empty again. What was loaded stays loaded, what is loaded besides is what the file at its
canonical location reads as, warnings are added behind the others, and loading in a session of its
own leaves the loaded files alone.

So once a file is loaded, all paths to its location lead to the same tree until the session is
cleared, whatever is done and however the files change meanwhile. -/
theorem operations_leave_session_consistent (settings : ParserSettings) :
    (∀ (tree : Tree) (otherwise : DeskAction SchemaFile) (fuel : Nat),
      settings.maxImportDepth.toNat ≤ fuel →
      (∀ path, Mirrors [] (parseFileOn tree settings otherwise fuel path)
        (parseFile tree settings path)) ∧
      (∀ text, Mirrors [] (parseContentOn tree settings otherwise fuel text)
        (parseContent tree settings text)) ∧
      ∀ path further, Mirrors [] (parseWithImportsOn tree settings otherwise fuel path further)
        (parseWithImports tree settings path further)) ∧
    (∀ (tree : Tree) (s : Session) (operation : Operation), operation ≠ .clear →
      let t := perform tree settings s operation
      (∀ loc f, s.cache.lookup loc = some f → t.cache.lookup loc = some f) ∧
      (∀ loc f, s.cache.lookup loc = none → t.cache.lookup loc = some f →
        (∃ path, tree.canonical? (.ofText path) = some loc) ∧ contents tree settings loc = some f) ∧
      s.warnings <+: t.warnings ∧
      ∀ path further, operation = .parseWithImports path further → t.cache = s.cache) ∧
    ∀ (tree tree' : Tree) (s t : Session) (path path' : String) (loc : Location) (f : SchemaFile)
      (steps : List (Tree × Operation)), parseFile tree settings path s = .ok f t →
      tree.canonical? (.ofText path) = some loc → tree'.canonical? (.ofText path') = some loc →
      (∀ step ∈ steps, step.2 ≠ .clear) →
      outcome (parseFile tree' settings path' (through settings steps t)) = .ok f := by
  refine ⟨?_, ?_, ?_⟩
  · intro tree otherwise fuel hfuel
    exact ⟨parseFileOn_mirrors tree settings otherwise hfuel,
      parseContentOn_mirrors tree settings otherwise hfuel,
      parseWithImportsOn_mirrors tree settings otherwise hfuel⟩
  · intro tree s operation hclear
    have grown := perform_grows tree settings operation hclear s
    refine ⟨fun loc f => grown.cache.lookup, fun loc f => grown.cache.added, grown.warnings, ?_⟩
    rintro path further rfl
    exact parseWithImports_cache path further s
  · intro tree tree' s t path path' loc f steps hrun hcanonical hcanonical' hclear
    have loaded := parseFile_grows tree settings path s
    rw [hrun] at loaded
    cases loaded with
    | ok _ hkeeps =>
        obtain ⟨loc', hloc', hlookup⟩ := hkeeps
        rw [hcanonical] at hloc'
        cases hloc'
        exact parseFile_of_cached hcanonical' (lookup_through hclear hlookup)

/-- The files of `neighbours`, with a package where there was an empty file. -/
def renamed : Tree where
  cwd := ["work"]
  entries := [(["work"], .directory),
    (["work", "a.proto"], .file "import \"a.proto\";".toUTF8),
    (["work", "b.proto"], .file "package p;".toUTF8)]

/-- A file is written anew after it was loaded. The session hands out what it has loaded, also after
a cycle and by another path; a new session reads the package. -/
theorem operations_leave_session_consistent_renamed :
    ∃ t, parseFile neighbours {} "b.proto" empty = .ok .empty t ∧
      outcome (parseFile renamed {} "../work/b.proto"
        (through {} [(renamed, .parseFile "a.proto"),
          (renamed, .parseContent "import \"b.proto\";")] t)) =
        .ok .empty ∧
      ∃ f, outcome (parseFile renamed {} "../work/b.proto" empty) = .ok f ∧
        f.package = some "p" := by
  have canonical : neighbours.canonical? (.ofText "b.proto") = some ["work", "b.proto"] := by decide
  have canonical' : renamed.canonical? (.ofText "../work/b.proto") = some ["work", "b.proto"] := by
    decide
  obtain ⟨t, -, hrun⟩ :=
    parseFile_of_opening canonical (opening_neighbours canonical rfl) rfl (by decide)
  obtain ⟨f, hread, hpackage, hnone⟩ : ∃ f, (Grammar.read (mode {}) "package p;").outcome = .ok f ∧
      f.package = some "p" ∧ f.dependencies = [] := by
    have known : (Grammar.read (mode {}) "package p;").outcome.toOption.map
        (fun f => (f.package, f.dependencies)) = some (some "p", []) := by decide +kernel
    cases hread : (Grammar.read (mode {}) "package p;").outcome with
    | error e =>
        rw [hread] at known
        cases known
    | ok f =>
        rw [hread] at known
        injection known with known
        injection known with hpackage hnone
        exact ⟨f, rfl, hpackage, hnone⟩
  have hopening : opening renamed {} "../work/b.proto" = .ok f := by
    unfold opening
    rw [canonical']
    exact hread
  obtain ⟨u, -, hfresh⟩ := parseFile_of_opening canonical' hopening hnone (by decide)
  refine ⟨t, hrun, ?_, f, by rw [hfresh]; rfl, hpackage⟩
  refine (operations_leave_session_consistent {}).2.2 neighbours renamed empty t "b.proto"
    "../work/b.proto" ["work", "b.proto"] .empty _ hrun canonical canonical' ?_
  simp

end Session

end ProtoRoutes
