import Mathlib.Logic.Relation
import ProtoRoutes.Proofs.Import.Transparency

/-!
# ProtoRoutes.Proofs.Import.Closure

**The loaded files of a session are closed under their imports, and no import leads round in a
circle.** For every import of a loaded file, its file is loaded as well or a warning tells why it is
not.

The two halves rest on different facts. That every import is accounted for is a fact about files
*and* warnings (`Complete`): both only ever grow, and a file is kept after all of its imports were
looked at. That there is no circle is a fact about the order of loading alone (`Loaded`): an import
leads to a file that was kept before, so its place in the list of loaded files is smaller.
-/

namespace ProtoRoutes.Session

open Files (Tree Path Location)

variable (tree : Tree) (settings : ParserSettings)

/-! ### Where imports lead -/

/-- The file that an import leads to: among the places where it may be, the first that is a file. -/
def target? (current : Option Location) (d : String) : Option Location :=
  ((candidates settings current d).find? tree.isFile).bind fun p => tree.canonical? (.ofText p.text)

/-- Among loaded files, `a` imports `b`. Imports that are not looked up do not count. -/
def Imports (cache : Cache) (a b : Location) : Prop :=
  ∃ f d, (a, f) ∈ cache ∧ d ∈ f.dependencies ∧ isSkipped d = false ∧
    target? tree settings (some a) d = some b ∧ b ∈ cache.map Prod.fst

section Target

variable {tree settings} {current : Option Location} {d : String}

theorem target?_of_sought {path : String} (h : sought tree settings current d = .ok path) :
    target? tree settings current d = tree.canonical? (.ofText path) := by
  have step := sought_cases tree settings current d
  rw [h] at step
  cases step with
  | found hfind =>
      rw [target?, hfind]
      rfl

theorem target?_of_unsought {e : Failure} {w : SchemaError}
    (h : sought tree settings current d = .error e) (htolerable : isTolerable settings e = some w) :
    target? tree settings current d = none := by
  have step := sought_cases tree settings current d
  rw [h] at step
  cases step with
  | unnamed => cases htolerable
  | missing hfind =>
      rw [target?, hfind]
      rfl

/-- What a settled import leads to is loaded or can never be. -/
theorem Settled.target (hstanding : tree.Standing) {cache : Cache} {loc : Location}
    (h : Settled tree settings cache current d) (hskipped : isSkipped d = false)
    (htarget : target? tree settings current d = some loc) :
    loc ∈ cache.map Prod.fst ∨ contents tree settings loc = none := by
  cases h with
  | skipped hskipped' =>
      rw [hskipped] at hskipped'
      cases hskipped'
  | loaded hsought hcanonical hloaded =>
      rw [target?_of_sought hsought, hcanonical] at htarget
      cases htarget
      exact .inl hloaded
  | unsought hsought htolerable =>
      rw [target?_of_unsought hsought htolerable] at htarget
      cases htarget
  | unread hsought hopening htolerable =>
      right
      rw [target?_of_sought hsought] at htarget
      exact contents_of_opening_error settings hstanding htarget hopening htolerable

end Target

/-! ### No circles -/

section Order

variable {tree settings} {cache : Cache}

/-- The place of a file in the order of loading. -/
def rank (cache : Cache) (loc : Location) : Nat :=
  (cache.map Prod.fst).idxOf loc

theorem Loaded.settled (h : Loaded tree settings cache) (hresolve : settings.resolveImports = true)
    {loc : Location} {f : SchemaFile} (hmem : (loc, f) ∈ cache) {d : String}
    (hd : d ∈ f.dependencies) : Settled tree settings cache (some loc) d := by
  induction h with
  | nil => cases hmem
  | snoc _ _ _ hsettled ih =>
      rcases List.mem_append.mp hmem with hmem | hmem
      · exact (ih hmem).mono (List.subset_append_left _ _)
      · cases List.mem_singleton.mp hmem
        exact (hsettled hresolve d hd).mono (List.subset_append_left _ _)

/-- An import leads to a file that was loaded before. -/
theorem Loaded.rank_lt (hstanding : tree.Standing) (hresolve : settings.resolveImports = true)
    (h : Loaded tree settings cache) {a b : Location} (himports : Imports tree settings cache a b) :
    rank cache b < rank cache a := by
  induction h with
  | nil =>
      obtain ⟨f, d, hmem, -⟩ := himports
      cases hmem
  | @snoc cache last g hbefore hnew hcontents hsettled ih =>
      obtain ⟨f, d, hmem, hd, hskipped, htarget, hloaded⟩ := himports
      have hread : contents tree settings b ≠ none := by
        obtain ⟨⟨loc, f'⟩, hmem', rfl⟩ := List.mem_map.mp hloaded
        rw [(hbefore.snoc hnew hcontents hsettled).contents_eq hmem']
        simp
      -- Whichever file imports `b`, the older files settled that import, so `b` is one of them.
      have older : Settled tree settings cache (some a) d → b ∈ cache.map Prod.fst := by
        intro hsettled'
        rcases hsettled'.target hstanding hskipped htarget with hold | hnone
        · exact hold
        · exact absurd hnone hread
      unfold rank at ih ⊢
      rw [List.map_append]
      rcases List.mem_append.mp hmem with hmem | hmem
      · have ha : a ∈ cache.map Prod.fst := List.mem_map_of_mem hmem
        have hb := older (hbefore.settled hresolve hmem hd)
        rw [List.idxOf_append_of_mem ha, List.idxOf_append_of_mem hb]
        exact ih ⟨f, d, hmem, hd, hskipped, htarget, hb⟩
      · cases List.mem_singleton.mp hmem
        have hb := older (hsettled hresolve d hd)
        rw [List.idxOf_append_of_mem hb, List.idxOf_append_of_notMem hnew]
        have hplace := List.idxOf_lt_length_of_mem hb
        omega

/-- No loaded file reaches itself through imports. -/
theorem Loaded.acyclic (hstanding : tree.Standing) (hresolve : settings.resolveImports = true)
    (h : Loaded tree settings cache) (loc : Location) :
    ¬ Relation.TransGen (Imports tree settings cache) loc loc := by
  intro circle
  have falls : ∀ {a b}, Relation.TransGen (Imports tree settings cache) a b →
      rank cache b < rank cache a := by
    intro a b path
    induction path with
    | single himports => exact h.rank_lt hstanding hresolve himports
    | tail _ himports ih => exact Nat.lt_trans (h.rank_lt hstanding hresolve himports) ih
  exact Nat.lt_irrefl _ (falls circle)

end Order

/-! ### Every import is accounted for -/

/-- Why an import is no open question for a session: it is not looked up, its file is loaded, or
there is a warning about it. -/
def Accounted (s : Session) (current : Option Location) (d : String) : Prop :=
  isSkipped d = true ∨ (∃ loc ∈ s.cache.map Prod.fst, target? tree settings current d = some loc) ∨
    ∃ e, importWarning current d e ∈ s.warnings

/-- A session that accounts for all imports of all its files. -/
def Complete (s : Session) : Prop :=
  ∀ loc f, (loc, f) ∈ s.cache → ∀ d ∈ f.dependencies, Accounted tree settings s (some loc) d

/-- What every step does to a session: files and warnings are added behind those that are there, and
a session that accounts for all imports goes on doing so. -/
structure Advance (s t : Session) : Prop where
  cache : s.cache <+: t.cache
  warnings : s.warnings <+: t.warnings
  complete : Complete tree settings s → Complete tree settings t

/-- The file of a path is loaded. -/
def Holds (path : String) (s : Session) : Prop :=
  ∃ loc ∈ s.cache.map Prod.fst, tree.canonical? (.ofText path) = some loc

/-- What a run comes to that advances a session, and what is true if it succeeds. -/
inductive Advances {α : Type} (s : Session) (post : α → Session → Prop) :
    EStateM.Result Failure Session α → Prop where
  | ok {a : α} {t : Session} (hst : Advance tree settings s t) (hpost : post a t) :
      Advances s post (.ok a t)
  | error {e : Failure} {t : Session} (hst : Advance tree settings s t) :
      Advances s post (.error e t)

section Advance

variable {tree settings} {s t u : Session} {current : Option Location}

/-- What is accounted for stays so when files and warnings are added. -/
theorem Accounted.mono {d : String} (h : Accounted tree settings s current d)
    (hcache : s.cache <+: t.cache) (hwarnings : s.warnings <+: t.warnings) :
    Accounted tree settings t current d := by
  rcases h with hskipped | ⟨loc, hloaded, htarget⟩ | ⟨e, hwarned⟩
  · exact .inl hskipped
  · exact .inr (.inl ⟨loc, List.map_subset Prod.fst hcache.subset hloaded, htarget⟩)
  · exact .inr (.inr ⟨e, hwarnings.subset hwarned⟩)

/-- Files aside, nothing but a warning may be added. -/
theorem Advance.of_cache_eq (hcache : t.cache = s.cache) (hwarnings : s.warnings <+: t.warnings) :
    Advance tree settings s t := by
  have grown : s.cache <+: t.cache := by rw [hcache]
  refine ⟨grown, hwarnings, ?_⟩
  intro h loc f hmem d hd
  rw [hcache] at hmem
  exact (h loc f hmem d hd).mono grown hwarnings

theorem Advance.of_alike (h : Alike s t) : Advance tree settings s t :=
  .of_cache_eq h.cache (by rw [h.warnings])

theorem Advance.refl (s : Session) : Advance tree settings s s :=
  .of_alike ⟨rfl, rfl⟩

theorem Advance.trans (hst : Advance tree settings s t) (htu : Advance tree settings t u) :
    Advance tree settings s u :=
  ⟨hst.cache.trans htu.cache, hst.warnings.trans htu.warnings,
    fun h => htu.complete (hst.complete h)⟩

/-- A file is kept when all its imports are accounted for. -/
theorem Advance.store {loc : Location} {f : SchemaFile}
    (hall : ∀ d ∈ f.dependencies, Accounted tree settings s (some loc) d) :
    Advance tree settings s { s with cache := s.cache ++ [(loc, f)] } := by
  refine ⟨List.prefix_append _ _, List.prefix_refl _, ?_⟩
  intro h loc' f' hmem d hd
  have before : Accounted tree settings s (some loc') d := by
    rcases List.mem_append.mp hmem with hmem | hmem
    · exact h loc' f' hmem d hd
    · cases List.mem_singleton.mp hmem
      exact hall d hd
  exact before.mono (List.prefix_append _ _) (List.prefix_refl _)

end Advance

section Advances

variable {tree settings} {l : String → Action SchemaFile} (current : Option Location) {s : Session}

/-- An import that is resolved is accounted for: it is skipped, its file is cached, or a warning
says why not. -/
theorem resolveImport_advances
    (hl : ∀ path s, Advances tree settings s (fun _ => Holds tree path) (l path s)) (d : String) :
    Advances tree settings s (fun _ t => Accounted tree settings t current d)
      (resolveImport tree settings l current d s) := by
  have step := resolveImport_cases tree settings l current d s
  generalize resolveImport tree settings l current d s = r at step
  cases step with
  | skipped hskipped halike => exact .ok (.of_alike halike) (.inl hskipped)
  | @loaded path f t hskipped hsought hload =>
      have fetched := hl path s
      rw [hload] at fetched
      cases fetched with
      | ok hst hholds =>
          obtain ⟨loc, hloaded, hcanonical⟩ := hholds
          refine .ok hst (.inr (.inl ⟨loc, hloaded, ?_⟩))
          rw [target?_of_sought hsought, hcanonical]
  | @passed e w t hskipped hfetch htolerable =>
      have hst : Advance tree settings s t := by
        rcases fetch_error tree settings hfetch with ⟨-, rfl⟩ | ⟨path, -, hload⟩
        · exact .refl t
        · have fetched := hl path s
          rw [hload] at fetched
          cases fetched with
          | error hst => exact hst
      have warned : Advance tree settings t
          { t with log := t.log ++ [.importFailed (importWarning current d w)],
                   warnings := t.warnings ++ [importWarning current d w] } :=
        .of_cache_eq rfl (List.prefix_append _ _)
      exact .ok (hst.trans warned) (.inr (.inr ⟨w, by simp⟩))
  | @failed e t hskipped hfetch hfatal =>
      rcases fetch_error tree settings hfetch with ⟨-, rfl⟩ | ⟨path, -, hload⟩
      · exact .error (.refl t)
      · have fetched := hl path s
        rw [hload] at fetched
        cases fetched with
        | error hst => exact .error hst

theorem forM_advances
    (hl : ∀ path s, Advances tree settings s (fun _ => Holds tree path) (l path s))
    (ds : List String) :
    Advances tree settings s (fun _ t => ∀ d ∈ ds, Accounted tree settings t current d)
      (ds.forM (resolveImport tree settings l current) s) := by
  induction ds generalizing s with
  | nil => exact .ok (.refl s) (fun d hd => nomatch hd)
  | cons d ds ih =>
      rw [run_forM_cons]
      have first := resolveImport_advances current (s := s) hl d
      generalize resolveImport tree settings l current d s = r at first
      cases first with
      | error hst => exact .error hst
      | @ok _ t hst hfirst =>
          have others := ih (s := t)
          simp only
          generalize ds.forM (resolveImport tree settings l current) t = r at others
          cases others with
          | error htu => exact .error (hst.trans htu)
          | ok htu hothers =>
              refine .ok (hst.trans htu) ?_
              intro d' hd'
              rcases List.mem_cons.mp hd' with rfl | hd'
              · exact hfirst.mono htu.cache htu.warnings
              · exact hothers d' hd'

theorem resolveImports_advances (hresolve : settings.resolveImports = true)
    (hl : ∀ path s, Advances tree settings s (fun _ => Holds tree path) (l path s))
    (f : SchemaFile) :
    Advances tree settings s (fun _ t => ∀ d ∈ f.dependencies, Accounted tree settings t current d)
      (resolveImports tree settings l current f s) := by
  unfold resolveImports
  rw [if_pos hresolve]
  exact forM_advances current hl f.dependencies

/-- Loading advances a session, also where it fails. -/
theorem load_advances (hresolve : settings.resolveImports = true) (room : Nat)
    (chain : List Location) (path : String) (s : Session) :
    Advances tree settings s (fun _ => Holds tree path) (load tree settings room chain path s) := by
  -- On the room for the chain: the imports of a file are loaded with less of it.
  induction room using Nat.strongRecOn generalizing chain path s with
  | ind room ih =>
      have step := load_cases tree settings room chain path s
      generalize load tree settings room chain path s = r at step
      cases step with
      | missing _ => exact .error (.refl s)
      | cycle _ _ => exact .error (.refl s)
      | full _ => exact .error (.refl s)
      | unread _ halike => exact .error (.of_alike halike)
      | cached hcanonical hmem halike =>
          refine .ok (.of_alike halike) ⟨_, ?_, hcanonical⟩
          rw [halike.cache]
          exact List.mem_map_of_mem hmem
      | @unresolved n loc f e s' t hroom _ _ _ halike himports =>
          have resolved := resolveImports_advances (some loc) (s := s') hresolve
            (ih n (by omega) (chain ++ [loc])) f
          rw [himports] at resolved
          cases resolved with
          | error hst => exact .error ((Advance.of_alike halike).trans hst)
      | @loaded n loc f s' t hroom hcanonical _ _ halike himports =>
          have resolved := resolveImports_advances (some loc) (s := s') hresolve
            (ih n (by omega) (chain ++ [loc])) f
          rw [himports] at resolved
          cases resolved with
          | ok hst hall =>
              refine .ok (((Advance.of_alike halike).trans hst).trans (.store hall)) ?_
              exact ⟨loc, by simp, hcanonical⟩

/-! ### Histories -/

theorem Advances.left {α : Type} {post : α → Session → Prop}
    {r : EStateM.Result Failure Session α} (h : Advances tree settings s post r) :
    Advance tree settings s (left r) := by
  cases h with
  | ok hst _ => exact hst
  | error hst => exact hst

theorem parseContent_advances (hresolve : settings.resolveImports = true) (text : String)
    (s : Session) :
    Advance tree settings s (left (parseContent tree settings text s)) := by
  obtain ⟨t, halike, hrun⟩ := run_parseText settings text s
  have hst : Advance tree settings s t := .of_alike halike
  unfold parseContent
  rw [run_bind, hrun]
  cases (Grammar.read (mode settings) text).outcome with
  | error e => exact hst
  | ok f =>
      simp only [ending]
      rw [run_bind]
      have resolved : Advances tree settings t
          (fun _ u => ∀ d ∈ f.dependencies, Accounted tree settings u none d)
          (resolveImports tree settings (loadFresh tree settings) none f t) :=
        resolveImports_advances none hresolve (load_advances hresolve _ []) f
      generalize resolveImports tree settings (loadFresh tree settings) none f t = r at resolved
      cases resolved with
      | ok htu _ => exact hst.trans htu
      | error htu => exact hst.trans htu

theorem parseWithImports_advances (path : String) (further : List String) (s : Session) :
    Advance tree settings s (left (parseWithImports tree settings path further s)) := by
  unfold parseWithImports
  simp only
  split
  · exact .of_cache_eq rfl (List.prefix_append _ _)
  · exact .of_cache_eq rfl (List.prefix_refl _)

/-- Every operation leaves a session in which all imports are accounted for. -/
theorem perform_complete (hresolve : settings.resolveImports = true) (operation : Operation)
    {s : Session} (hs : Complete tree settings s) :
    Complete tree settings (perform tree settings s operation) := by
  cases operation with
  | parseFile path =>
      exact (load_advances hresolve settings.maxImportDepth.toNat [] path s).left.complete hs
  | parseContent text => exact (parseContent_advances hresolve text s).complete hs
  | parseWithImports path further => exact (parseWithImports_advances path further s).complete hs
  | clear =>
      intro loc f hmem
      cases hmem

/-- Every history leaves a session that accounts for all imports of its files. -/
theorem after_complete (hresolve : settings.resolveImports = true) (history : List Operation) :
    Complete tree settings (after tree settings history) := by
  have run : ∀ s : Session, Complete tree settings s →
      Complete tree settings (history.foldl (perform tree settings) s) := by
    induction history with
    | nil => exact fun s hs => hs
    | cons operation history ih => exact fun s hs => ih _ (perform_complete hresolve operation hs)
  refine run empty ?_
  intro loc f hmem
  cases hmem

/-- **The loaded files are closed under imports, without circles.** Whatever was done with a session
that resolves imports, with whatever success: an import of a loaded file is one that is not looked
up, or it leads to a loaded file, or a warning from the name of the importing file is about it. And
no loaded file reaches itself through imports between loaded files. -/
theorem after_closed_and_acyclic (hstanding : tree.Standing)
    (hresolve : settings.resolveImports = true) (history : List Operation) :
    (∀ loc f, (loc, f) ∈ (after tree settings history).cache → ∀ d ∈ f.dependencies,
      isSkipped d = true ∨
      (∃ dest ∈ (after tree settings history).cache.map Prod.fst,
        target? tree settings (some loc) d = some dest) ∨
      ∃ e, importWarning (some loc) d e ∈ (after tree settings history).warnings) ∧
    ∀ loc, ¬ Relation.TransGen (Imports tree settings (after tree settings history).cache)
      loc loc :=
  ⟨after_complete hresolve history, (after_loaded hstanding history).acyclic hstanding hresolve⟩

/-- A file with one import is loaded in two steps: the import is looked up, and what comes of that
decides. -/
theorem parseFile_of_single (hresolve : settings.resolveImports = true) {path : String}
    {loc : Location} {f : SchemaFile} {d : String}
    (hcanonical : tree.canonical? (.ofText path) = some loc)
    (hopening : opening tree settings path = .ok f) (hsingle : f.dependencies = [d])
    (hskipped : isSkipped d = false) {room : Nat} (hroom : settings.maxImportDepth = room + 1) :
    ∃ s, Alike empty s ∧ parseFile tree settings path empty =
      match fetch tree settings (load tree settings room [loc]) (some loc) d s with
      | .ok _ t => .ok f { t with cache := t.cache ++ [(loc, f)] }
      | .error e t =>
        match isTolerable settings e with
        | some w =>
          .ok f ⟨t.cache ++ [(loc, f)], t.warnings ++ [importWarning (some loc) d w],
            t.log ++ [.importFailed (importWarning (some loc) d w)]⟩
        | none => .error e t := by
  obtain ⟨s, halike, hrun⟩ :=
    @load_of_room tree settings [] path loc empty room hcanonical List.not_mem_nil rfl
  refine ⟨s, halike, ?_⟩
  have room_eq : settings.maxImportDepth.toNat = room + 1 := by omega
  unfold parseFile loadFresh
  rw [room_eq, hrun, hopening]
  unfold resolveImports
  simp only [hresolve, if_true, hsingle, run_forM_cons]
  rw [resolveImport_of_fetch tree settings hskipped]
  simp only [List.nil_append]
  cases fetch tree settings (load tree settings room [loc]) (some loc) d s with
  | ok f' t => rfl
  | error e t =>
      simp only
      cases isTolerable settings e with
      | some w => rfl
      | none => rfl

theorem opening_of_text {path text : String} {loc : Location} {ds : List String}
    (hcanonical : tree.canonical? (.ofText path) = some loc)
    (htext : outcome (readText tree (.ofText path) empty) = .ok text)
    (hread : (Grammar.read (mode settings) text).outcome.toOption.map SchemaFile.dependencies =
      some ds) :
    ∃ f, opening tree settings path = .ok f ∧ f.dependencies = ds := by
  unfold opening
  simp only [hcanonical, htext]
  cases houtcome : (Grammar.read (mode settings) text).outcome with
  | error e =>
      rw [houtcome] at hread
      cases hread
  | ok f =>
      rw [houtcome] at hread
      cases hread
      exact ⟨f, rfl, rfl⟩

/-- A file with an import that is not there. -/
def gap : Tree where
  cwd := ["work"]
  entries := [(["work"], .directory), (["work", "a.proto"], .file "import \"c.proto\";".toUTF8)]

theorem gap_standing : gap.Standing :=
  Tree.standing_of_cwd rfl rfl

/-- The import that is not there is accounted for by a warning. -/
theorem after_closed_and_acyclic_gap :
    gap.Standing ∧ (∃ f, (["work", "a.proto"], f) ∈ (after gap {} [.parseFile "a.proto"]).cache) ∧
      (∃ e, importWarning (some ["work", "a.proto"]) "c.proto" e ∈
        (after gap {} [.parseFile "a.proto"]).warnings) ∧
      ∀ loc, ¬ Relation.TransGen (Imports gap {} (after gap {} [.parseFile "a.proto"]).cache)
        loc loc := by
  have hcanonical : gap.canonical? (.ofText "a.proto") = some ["work", "a.proto"] := by decide
  obtain ⟨f, hopening, hsingle⟩ :=
    @opening_of_text gap {} "a.proto" "import \"c.proto\";" _ ["c.proto"]
    hcanonical rfl (by decide +kernel)
  have hsought : sought gap {} (some ["work", "a.proto"]) "c.proto" =
      .error (.error (.importNotFound "c.proto" ["/work/c.proto", "c.proto"])) := by rfl
  have hread : isSkipped "c.proto" = false := by decide
  obtain ⟨s, -, hrun⟩ := @parseFile_of_single gap {} rfl "a.proto" _ f "c.proto" hcanonical hopening
    hsingle hread 9 rfl
  have hmem : (["work", "a.proto"], f) ∈ (after gap {} [.parseFile "a.proto"]).cache := by
    unfold after
    rw [List.foldl_cons, perform, hrun, fetch, hsought]
    simp [isTolerable, left]
  obtain ⟨hclosed, hacyclic⟩ :=
    @after_closed_and_acyclic gap {} gap_standing rfl [.parseFile "a.proto"]
  refine ⟨gap_standing, ⟨f, hmem⟩, ?_, hacyclic⟩
  rcases hclosed _ f hmem "c.proto" (by simp [hsingle]) with hskipped | ⟨dest, -, htarget⟩ | hwarned
  · rw [hread] at hskipped
    cases hskipped
  · rw [target?_of_unsought hsought rfl] at htarget
    cases htarget
  · exact hwarned

end Advances

end ProtoRoutes.Session
