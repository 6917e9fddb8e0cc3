import ProtoRoutes.Proofs.Import.Loading

/-!
# ProtoRoutes.Proofs.Import.Transparency

**The loaded files of a session never show.** A file that is loaded already is handed out without a
look at its imports, at the chain or at the depth, so a session takes shortcuts that a new one
cannot take. They are sound: loading a file comes to the same in both.

The two searches are run against each other. As long as neither finds a file among the loaded ones
they do the same (`load_agrees`). Where only the session with the longer history finds it, the new
one loads it from its text, and that succeeds with the same tree (`load_again`): by `Loaded` the
imports of such a file are loaded files in front of it, so they are on no cycle with it.

Two failures of the new session are no part of this. It may need more room for the chain than the
other one. And a path such as `a.proto/../b.proto` has a canonical location although it goes on
behind a file, so it is found among the loaded files but cannot be opened.
-/

namespace ProtoRoutes.Session

open Files (Tree Path Location)

/-- Failures of a session that has loaded little: the chain is too long, or the path of the file
goes on behind a file. -/
def IsStranded : Failure → Prop
  | .error (.importTooDeep _ _ _) => True
  | .breakdown .notDirectory => True
  | _ => False

theorem isTolerable_of_stranded (settings : ParserSettings) {e : Failure} (h : IsStranded e) :
    isTolerable settings e = none := by
  unfold IsStranded at h
  split at h
  · rfl
  · rfl
  · cases h

variable {tree : Tree} {settings : ParserSettings}

/-! ### Loading a file again -/

/-- What a session comes to that has nothing but files of `known` and does a step that would find
them all: it succeeds and has no other files then, or it is stranded. -/
inductive Repeated {α : Type} (known : Cache) (a : α) :
    EStateM.Result Failure Session α → Prop where
  | ok {s : Session} (hknown : s.cache ⊆ known) : Repeated known a (.ok a s)
  | stranded {e : Failure} {s : Session} (hstranded : IsStranded e) : Repeated known a (.error e s)

section Again

variable {known cache : Cache} {chain : List Location} {l : String → Action SchemaFile}
  {current : Option Location} {s : Session}

theorem forM_again {g : String → Action Unit} {ds : List String}
    (hg : ∀ d ∈ ds, ∀ s : Session, s.cache ⊆ known → Repeated known () (g d s))
    (hs : s.cache ⊆ known) : Repeated known () (ds.forM g s) := by
  induction ds generalizing s with
  | nil => exact .ok hs
  | cons d ds ih =>
      rw [run_forM_cons]
      have first := hg d List.mem_cons_self s hs
      generalize g d s = r at first
      cases first with
      | stranded hstranded => exact .stranded hstranded
      | ok hknown => exact ih (fun d' hd' => hg d' (List.mem_cons_of_mem d hd')) hknown

/-- A settled import is resolved again, if the files that settle it are loaded again. -/
theorem resolveImport_again {d : String} (hsettled : Settled tree settings cache current d)
    (hl : ∀ path loc f, tree.canonical? (.ofText path) = some loc → (loc, f) ∈ cache →
      ∀ s : Session, s.cache ⊆ known → Repeated known f (l path s))
    (hunread : ∀ path e w, opening tree settings path = .error e → isTolerable settings e = some w →
      ∀ s : Session, s.cache ⊆ known →
        ∃ e' t, l path s = .error e' t ∧ t.cache ⊆ known ∧ (e' = e ∨ IsStranded e'))
    (hs : s.cache ⊆ known) :
    Repeated known () (resolveImport tree settings l current d s) := by
  cases hskipped : isSkipped d with
  | true =>
      obtain ⟨t, ⟨hcache, -⟩, hrun⟩ := resolveImport_of_skipped tree settings hskipped s
      rw [hrun]
      exact .ok (hcache ▸ hs)
  | false =>
      rw [resolveImport_of_fetch tree settings hskipped]
      unfold fetch
      cases hsettled with
      | skipped h => rw [h] at hskipped; cases hskipped
      | unsought hsought htolerable =>
          rw [hsought]
          simp only [htolerable]
          exact .ok hs
      | loaded hsought hcanonical hloaded =>
          rw [hsought]
          obtain ⟨⟨loc, f⟩, hmem, rfl⟩ := List.mem_map.mp hloaded
          have again := hl _ loc f hcanonical hmem s hs
          simp only
          generalize l _ s = r at again
          cases again with
          | ok hknown => exact .ok hknown
          | stranded hstranded =>
              simp only [isTolerable_of_stranded settings hstranded]
              exact .stranded hstranded
      | unread hsought hopening htolerable =>
          rw [hsought]
          obtain ⟨e', t, hrun, hknown, rfl | hstranded⟩ := hunread _ _ _ hopening htolerable s hs
          · simp only [hrun, htolerable]
            exact .ok hknown
          · simp only [hrun, isTolerable_of_stranded settings hstranded]
            exact .stranded hstranded

/-- A file that cannot be read is read in vain again. -/
theorem load_unread (hstanding : tree.Standing)
    (hcontents : ∀ loc f, (loc, f) ∈ known → contents tree settings loc = some f)
    (hread : ∀ loc ∈ chain, (contents tree settings loc).isSome) (room : Nat) {path : String}
    {e : Failure} {w : SchemaError} (hopening : opening tree settings path = .error e)
    (htolerable : isTolerable settings e = some w) (hs : s.cache ⊆ known) :
    ∃ e' t, load tree settings room chain path s = .error e' t ∧ t.cache ⊆ known ∧
      (e' = e ∨ IsStranded e') := by
  cases hcanonical : tree.canonical? (.ofText path) with
  | none =>
      refine ⟨e, s, ?_, hs, .inl rfl⟩
      rw [opening, hcanonical] at hopening
      cases hopening
      exact load_of_missing hcanonical
  | some loc =>
      have hnone := contents_of_opening_error settings hstanding hcanonical hopening htolerable
      have hchain : loc ∉ chain := by
        intro hmem
        have there := hread loc hmem
        rw [hnone] at there
        cases there
      cases hcached : s.cache.lookup loc with
      | some f =>
          have there := hcontents loc f (hs (mem_of_lookup hcached))
          rw [hnone] at there
          cases there
      | none =>
          cases room with
          | zero => exact ⟨_, s, load_of_full hcanonical hchain hcached, hs, .inr trivial⟩
          | succ n =>
              obtain ⟨t, ⟨hcache, -⟩, hrun⟩ := load_of_room n hcanonical hchain hcached
              rw [hopening] at hrun
              exact ⟨e, t, hrun, hcache ▸ hs, .inl rfl⟩

/-- One step of `load_again`, given that the files are loaded again that settle the imports. -/
theorem load_again_step (hstanding : tree.Standing)
    (hcontents : ∀ loc f, (loc, f) ∈ known → contents tree settings loc = some f)
    {loc : Location} {f : SchemaFile} (hmem : (loc, f) ∈ known)
    (hsettled : settings.resolveImports = true →
      ∀ d ∈ f.dependencies, Settled tree settings cache (some loc) d)
    (hread : ∀ l ∈ chain, (contents tree settings l).isSome) {room : Nat}
    (hrec : ∀ n path loc' f', room = n + 1 → tree.canonical? (.ofText path) = some loc' →
      (loc', f') ∈ cache → ∀ s : Session, s.cache ⊆ known →
        Repeated known f' (load tree settings n (chain ++ [loc]) path s))
    (hchain : loc ∉ chain) {path : String}
    (hcanonical : tree.canonical? (.ofText path) = some loc) (hs : s.cache ⊆ known) :
    Repeated known f (load tree settings room chain path s) := by
  have hthis := hcontents loc f hmem
  cases hcached : s.cache.lookup loc with
  | some g =>
      obtain ⟨t, ⟨hsame, -⟩, hrun⟩ := load_of_cached room hcanonical hchain hcached
      have again := hcontents loc g (hs (mem_of_lookup hcached))
      rw [hthis, Option.some.injEq] at again
      rw [hrun, ← again]
      exact .ok (hsame ▸ hs)
  | none =>
      cases room with
      | zero =>
          rw [load_of_full hcanonical hchain hcached]
          exact .stranded trivial
      | succ n =>
          obtain ⟨t, ⟨hsame, -⟩, hrun⟩ := load_of_room n hcanonical hchain hcached
          rw [hrun]
          rcases opening_of_canonical? settings hstanding hcanonical with hopening | hopening
          · rw [hopening]
            exact .stranded trivial
          · rw [hthis] at hopening
            cases hread' : opening tree settings path with
            | error e => rw [hread'] at hopening; cases hopening
            | ok f' =>
                rw [hread'] at hopening
                cases hopening
                have again : Repeated known () (resolveImports tree settings
                    (load tree settings n (chain ++ [loc])) (some loc) f t) := by
                  unfold resolveImports
                  by_cases hresolve : settings.resolveImports = true
                  · rw [if_pos hresolve]
                    refine forM_again (fun d hd s hs => ?_) (hsame ▸ hs)
                    refine resolveImport_again (hsettled hresolve d hd)
                      (fun path loc' f' hcanonical' hmem' =>
                      hrec n path loc' f' rfl hcanonical' hmem')
                      (fun path e w hopening htolerable s hs => ?_) hs
                    have hread'' : ∀ l ∈ chain ++ [loc], (contents tree settings l).isSome :=
                      List.forall_mem_append.mpr ⟨hread, by simp [hthis]⟩
                    exact load_unread hstanding hcontents hread'' n hopening htolerable hs
                  · rw [if_neg hresolve]
                    exact .ok (hsame ▸ hs)
                simp only
                generalize resolveImports tree settings (load tree settings n (chain ++ [loc]))
                  (some loc) f t = r at again
                cases again with
                | stranded hstranded => exact .stranded hstranded
                | ok hknown =>
                    exact .ok (List.append_subset.mpr ⟨hknown, by simpa using hmem⟩)

/-- A loaded file is loaded again from its text, on behalf of every chain without it and without the
files that were loaded before it. -/
theorem load_again (hstanding : tree.Standing)
    (hcontents : ∀ loc f, (loc, f) ∈ known → contents tree settings loc = some f)
    (hcache : Loaded tree settings cache) (hsub : cache ⊆ known) {loc : Location} {f : SchemaFile}
    (hmem : (loc, f) ∈ cache) (room : Nat) (hapart : ∀ l ∈ chain, l ∉ cache.map Prod.fst)
    (hread : ∀ l ∈ chain, (contents tree settings l).isSome) {path : String}
    (hcanonical : tree.canonical? (.ofText path) = some loc) (hs : s.cache ⊆ known) :
    Repeated known f (load tree settings room chain path s) := by
  -- On the order of loading: the imports of a file are found among the files before it.
  induction hcache generalizing loc f room chain path s with
  | nil => cases hmem
  | @snoc cache last g hbefore hnew hlast hsettled ih =>
      have hsub' : cache ⊆ known := List.Subset.trans (List.subset_append_left _ _) hsub
      have hapart' : ∀ l ∈ chain, l ∉ cache.map Prod.fst ∧ l ≠ last := by
        intro l hl
        have hnone := hapart l hl
        rw [List.map_append, List.mem_append, not_or] at hnone
        exact ⟨hnone.1, by simpa using hnone.2⟩
      rcases List.mem_append.mp hmem with hmem | hmem
      · exact ih hsub' hmem room (fun l hl => (hapart' l hl).1) hread hcanonical hs
      · cases List.mem_singleton.mp hmem
        refine load_again_step hstanding hcontents (hsub (by simp)) hsettled hread
          (fun n path loc' f' hroom hcanonical' hmem' s hs => ?_)
          (fun hin => (hapart' last hin).2 rfl) hcanonical hs
        refine ih hsub' hmem' n ?_ ?_ hcanonical' hs
        · exact List.forall_mem_append.mpr ⟨fun l hl => (hapart' l hl).1, by simpa using hnew⟩
        · exact List.forall_mem_append.mpr ⟨hread, by simp [hlast]⟩

end Again

/-! ### Two sessions side by side -/

/-- The runs of two sessions agree, where the second has loaded less: they come to the same, and the
second still has loaded less. Or the second is stranded. -/
inductive Agree {α : Type} : EStateM.Result Failure Session α → EStateM.Result Failure Session α →
    Prop where
  | ok {a : α} {s s₀ : Session} (hless : s₀.cache ⊆ s.cache) : Agree (.ok a s) (.ok a s₀)
  | error {e : Failure} {s s₀ : Session} (hless : s₀.cache ⊆ s.cache) :
      Agree (.error e s) (.error e s₀)
  | stranded {e : Failure} {r : EStateM.Result Failure Session α} {s₀ : Session}
      (hstranded : IsStranded e) : Agree r (.error e s₀)

section Agree

variable {chain : List Location} {l : String → Action SchemaFile} (current : Option Location)
  {s s₀ : Session}

theorem resolveImport_agrees
    (hagree : ∀ path s s₀, Ready tree settings chain s → s₀.cache ⊆ s.cache →
      Agree (l path s) (l path s₀))
    (hs : Ready tree settings chain s) (hless : s₀.cache ⊆ s.cache) (d : String) :
    Agree (resolveImport tree settings l current d s)
      (resolveImport tree settings l current d s₀) := by
  cases hskipped : isSkipped d with
  | true =>
      obtain ⟨t, ⟨hcache, -⟩, hrun⟩ := resolveImport_of_skipped tree settings hskipped s
      obtain ⟨t₀, ⟨hcache₀, -⟩, hrun₀⟩ := resolveImport_of_skipped tree settings hskipped s₀
      rw [hrun, hrun₀]
      exact .ok (by rw [hcache, hcache₀]; exact hless)
  | false =>
      rw [resolveImport_of_fetch tree settings hskipped,
        resolveImport_of_fetch tree settings hskipped]
      unfold fetch
      cases sought tree settings current d with
      | error e =>
          simp only
          cases isTolerable settings e with
          | none => exact .error hless
          | some w => exact .ok hless
      | ok path =>
          have both := hagree path s s₀ hs hless
          simp only
          generalize l path s = r, l path s₀ = r₀ at both
          cases both with
          | ok hless' => exact .ok hless'
          | @error e _ _ hless' =>
              simp only
              cases isTolerable settings e with
              | none => exact .error hless'
              | some w => exact .ok hless'
          | stranded hstranded =>
              simp only [isTolerable_of_stranded settings hstranded]
              exact .stranded hstranded

theorem resolveImports_agrees
    (hkeep : ∀ path s, Ready tree settings chain s → Fetched tree settings chain path s (l path s))
    (hagree : ∀ path s s₀, Ready tree settings chain s → s₀.cache ⊆ s.cache →
      Agree (l path s) (l path s₀))
    (hs : Ready tree settings chain s) (hless : s₀.cache ⊆ s.cache) (f : SchemaFile) :
    Agree (resolveImports tree settings l current f s)
      (resolveImports tree settings l current f s₀) := by
  unfold resolveImports
  by_cases hresolve : settings.resolveImports = true
  · rw [if_pos hresolve]
    generalize f.dependencies = ds
    induction ds generalizing s s₀ with
    | nil => exact .ok hless
    | cons d ds ih =>
        rw [run_forM_cons, run_forM_cons]
        have both := resolveImport_agrees current hagree hs hless d
        have kept := resolveImport_keeps current hkeep hs d
        generalize resolveImport tree settings l current d s = r,
          resolveImport tree settings l current d s₀ = r₀ at both kept
        cases both with
        | stranded hstranded => exact .stranded hstranded
        | error hless' => exact .error hless'
        | ok hless' =>
            cases kept with
            | ok hkept _ => exact ih hkept.ready hless'
  · rw [if_neg hresolve]
    exact .ok hless

/-- One step of `load_agrees`, given that the sessions agree on the files behind this one. -/
theorem load_agrees_step (hstanding : tree.Standing) {room : Nat}
    (hrec : ∀ n, room = n + 1 → ∀ chain path s s₀, Ready tree settings chain s →
      s₀.cache ⊆ s.cache →
      Agree (load tree settings n chain path s) (load tree settings n chain path s₀))
    (hs : Ready tree settings chain s) (hless : s₀.cache ⊆ s.cache) (path : String) :
    Agree (load tree settings room chain path s) (load tree settings room chain path s₀) := by
  cases hcanonical : tree.canonical? (.ofText path) with
  | none =>
      rw [load_of_missing hcanonical, load_of_missing hcanonical]
      exact .error hless
  | some loc =>
      by_cases hchain : loc ∈ chain
      · rw [load_of_cycle hcanonical hchain, load_of_cycle hcanonical hchain]
        exact .error hless
      cases hcached : s.cache.lookup loc with
      | some f =>
          -- A shortcut of the first session, unless the second has loaded the file as well.
          obtain ⟨t, ⟨hcache, -⟩, hrun⟩ := load_of_cached room hcanonical hchain hcached
          have again := load_again hstanding (fun loc f => hs.loaded.contents_eq) hs.loaded
            (List.Subset.refl s.cache) (mem_of_lookup hcached)
            room hs.apart hs.read hcanonical hless
          rw [hrun]
          generalize load tree settings room chain path s₀ = r₀ at again
          cases again with
          | ok hknown => exact .ok (hcache ▸ hknown)
          | stranded hstranded => exact .stranded hstranded
      | none =>
          have hcached₀ : s₀.cache.lookup loc = none := by
            cases h : s₀.cache.lookup loc with
            | none => rfl
            | some f =>
                have there := List.mem_map_of_mem (f := Prod.fst) (hless (mem_of_lookup h))
                exact absurd there (notMem_of_lookup hcached)
          cases room with
          | zero =>
              rw [load_of_full hcanonical hchain hcached₀]
              exact .stranded trivial
          | succ n =>
              obtain ⟨t, ⟨hcache, -⟩, hrun⟩ := load_of_room n hcanonical hchain hcached
              obtain ⟨t₀, ⟨hcache₀, -⟩, hrun₀⟩ := load_of_room n hcanonical hchain hcached₀
              rw [hrun, hrun₀]
              have hless' : t₀.cache ⊆ t.cache := by
                rw [hcache, hcache₀]
                exact hless
              cases hopening : opening tree settings path with
              | error e => exact .error hless'
              | ok f =>
                  have hcontents := contents_of_opening settings hstanding hcanonical hopening
                  have pushed : Ready tree settings (chain ++ [loc]) t :=
                    (hs.push (notMem_of_lookup hcached) hcontents).congr hcache
                  have both := resolveImports_agrees (some loc)
                    (load_keeps settings hstanding n (chain ++ [loc])) (hrec n rfl (chain ++ [loc]))
                    pushed hless' f
                  simp only
                  generalize resolveImports tree settings (load tree settings n (chain ++ [loc]))
                    (some loc) f t = r, resolveImports tree settings
                    (load tree settings n (chain ++ [loc])) (some loc) f t₀ = r₀ at both
                  cases both with
                  | stranded hstranded => exact .stranded hstranded
                  | error hless'' => exact .error hless''
                  | ok hless'' =>
                      refine .ok (List.append_subset.mpr ⟨?_, List.subset_append_right _ _⟩)
                      exact List.Subset.trans hless'' (List.subset_append_left _ _)

/-- Loading on behalf of one chain comes to the same in a session with a history and in one that has
loaded less. -/
theorem load_agrees (hstanding : tree.Standing) (room : Nat) (chain : List Location) (path : String)
    (s s₀ : Session) (hs : Ready tree settings chain s) (hless : s₀.cache ⊆ s.cache) :
    Agree (load tree settings room chain path s) (load tree settings room chain path s₀) := by
  induction room generalizing chain path s s₀ with
  | zero => exact load_agrees_step hstanding (fun n hn => absurd hn (by omega)) hs hless path
  | succ room ih =>
      refine load_agrees_step hstanding (fun n hn => ?_) hs hless path
      cases hn
      exact ih

end Agree

/-! ### Histories -/

/-- What can be done with a session. -/
inductive Operation where
  | parseFile (path : String)
  | parseContent (text : String)
  | parseWithImports (path : String) (further : List String)
  | clear

/-- The session that a run leaves, whatever it comes to. -/
def left {α : Type} : EStateM.Result Failure Session α → Session
  | .ok _ s => s
  | .error _ s => s

/-- The session after an operation, whatever the operation comes to. -/
def perform (tree : Tree) (settings : ParserSettings) (s : Session) : Operation → Session
  | .parseFile path => left (parseFile tree settings path s)
  | .parseContent text => left (parseContent tree settings text s)
  | .parseWithImports path further => left (parseWithImports tree settings path further s)
  | .clear => s.clear

/-- A session with a history. -/
def after (tree : Tree) (settings : ParserSettings) (history : List Operation) : Session :=
  history.foldl (perform tree settings) empty

theorem parseFile_loaded (hstanding : tree.Standing) (path : String) {s : Session}
    (hs : Loaded tree settings s.cache) :
    Loaded tree settings (left (parseFile tree settings path s)).cache := by
  have fetched := load_keeps settings hstanding settings.maxImportDepth.toNat [] path s
    ⟨hs, by simp, by simp⟩
  unfold parseFile loadFresh
  generalize load tree settings settings.maxImportDepth.toNat [] path s = r at fetched
  cases fetched with
  | ok hkept _ _ => exact hkept.ready.loaded
  | error hkept _ => exact hkept.ready.loaded

theorem parseContent_loaded (hstanding : tree.Standing) (text : String) {s : Session}
    (hs : Loaded tree settings s.cache) :
    Loaded tree settings (left (parseContent tree settings text s)).cache := by
  obtain ⟨t, ⟨hcache, -⟩, hrun⟩ := run_parseText settings text s
  unfold parseContent
  rw [run_bind, hrun]
  cases (Grammar.read (mode settings) text).outcome with
  | error e => exact hcache ▸ hs
  | ok f =>
      simp only [ending]
      rw [run_bind]
      have ready : Ready tree settings [] t := ⟨hcache ▸ hs, by simp, by simp⟩
      have resolved := resolveImports_keeps none
        (load_keeps settings hstanding settings.maxImportDepth.toNat []) f ready
      unfold loadFresh
      generalize resolveImports tree settings
        (load tree settings settings.maxImportDepth.toNat []) none f t = r at resolved
      cases resolved with
      | ok hkept _ => exact hkept.ready.loaded
      | error hkept _ => exact hkept.ready.loaded

theorem parseWithImports_cache (path : String) (further : List String) (s : Session) :
    (left (parseWithImports tree settings path further s)).cache = s.cache := by
  unfold parseWithImports
  simp only
  split
  · rfl
  · rfl

theorem perform_loaded (hstanding : tree.Standing) (operation : Operation) {s : Session}
    (hs : Loaded tree settings s.cache) :
    Loaded tree settings (perform tree settings s operation).cache := by
  cases operation with
  | parseFile path => exact parseFile_loaded hstanding path hs
  | parseContent text => exact parseContent_loaded hstanding text hs
  | parseWithImports path further =>
      show Loaded tree settings (left (parseWithImports tree settings path further s)).cache
      rw [parseWithImports_cache]
      exact hs
  | clear => exact .nil

/-- Every history leaves files that were loaded one after the other. -/
theorem after_loaded (hstanding : tree.Standing) (history : List Operation) :
    Loaded tree settings (after tree settings history).cache := by
  have run : ∀ s : Session, Loaded tree settings s.cache →
      Loaded tree settings (history.foldl (perform tree settings) s).cache := by
    induction history with
    | nil => exact fun s hs => hs
    | cons operation history ih => exact fun s hs => ih _ (perform_loaded hstanding operation hs)
  exact run empty .nil

/-- **The loaded files of a session never show.** Whatever was done with a session before, loading a
file comes to the tree or to the failure that a new session comes to, unless the new one lacks room
for the chain or the path goes on behind a file. -/
theorem parseFile_after_eq_fresh (hstanding : tree.Standing) (settings : ParserSettings)
    (history : List Operation) (path : String)
    (hroom : ∀ file depth limit, outcome (parseFile tree settings path empty) ≠
      .error (.error (.importTooDeep file depth limit)))
    (hdirect : outcome (parseFile tree settings path empty) ≠ .error (.breakdown .notDirectory)) :
    outcome (parseFile tree settings path (after tree settings history)) =
      outcome (parseFile tree settings path empty) := by
  have both := load_agrees hstanding settings.maxImportDepth.toNat [] path
    (after tree settings history) empty ⟨after_loaded hstanding history, by simp, by simp⟩
    (List.nil_subset _)
  unfold parseFile loadFresh at hroom hdirect ⊢
  generalize load tree settings settings.maxImportDepth.toNat [] path
    (after tree settings history) = r,
    load tree settings settings.maxImportDepth.toNat [] path empty = r₀ at both hroom hdirect
  cases both with
  | ok _ => rfl
  | error _ => rfl
  | @stranded e r s₀ hstranded =>
      unfold IsStranded at hstranded
      split at hstranded
      · exact absurd rfl (hroom _ _ _)
      · exact absurd rfl hdirect
      · cases hstranded

/-- A file without imports is loaded in one step. -/
theorem parseFile_of_opening {path : String} {loc : Location} {f : SchemaFile}
    (hcanonical : tree.canonical? (.ofText path) = some loc)
    (hopening : opening tree settings path = .ok f) (hnone : f.dependencies = [])
    (hroom : 0 < settings.maxImportDepth) :
    ∃ t, t.cache = [(loc, f)] ∧ parseFile tree settings path empty = .ok f t := by
  obtain ⟨n, hn⟩ : ∃ n, settings.maxImportDepth.toNat = n + 1 :=
    ⟨settings.maxImportDepth.toNat - 1, by omega⟩
  obtain ⟨s, ⟨hcache, -⟩, hrun⟩ :=
    @load_of_room tree settings [] path loc empty n hcanonical List.not_mem_nil rfl
  have resolved : resolveImports tree settings (load tree settings n ([] ++ [loc])) (some loc) f s =
      .ok () s := by
    unfold resolveImports
    rw [hnone]
    split
    · rfl
    · rfl
  unfold parseFile loadFresh
  rw [hn, hrun, hopening]
  simp only [resolved]
  exact ⟨_, by rw [hcache]; rfl, rfl⟩

/-- A loaded file is handed out by every path with its canonical location. -/
theorem parseFile_of_cached {path : String} {loc : Location} {f : SchemaFile} {s : Session}
    (hcanonical : tree.canonical? (.ofText path) = some loc)
    (hcached : s.cache.lookup loc = some f) :
    outcome (parseFile tree settings path s) = .ok f := by
  obtain ⟨t, -, hrun⟩ := @load_of_cached tree settings [] path loc s settings.maxImportDepth.toNat
    hcanonical List.not_mem_nil f hcached
  unfold parseFile loadFresh
  rw [hrun]
  rfl

/-- A new session opens the file by its path. -/
theorem parseFile_of_unopened {path : String} {loc : Location} {e : Failure}
    (hcanonical : tree.canonical? (.ofText path) = some loc)
    (hopening : opening tree settings path = .error e) (hroom : 0 < settings.maxImportDepth) :
    outcome (parseFile tree settings path empty) = .error e := by
  obtain ⟨n, hn⟩ : ∃ n, settings.maxImportDepth.toNat = n + 1 :=
    ⟨settings.maxImportDepth.toNat - 1, by omega⟩
  obtain ⟨s, -, hrun⟩ :=
    @load_of_room tree settings [] path loc empty n hcanonical List.not_mem_nil rfl
  unfold parseFile loadFresh
  rw [hn, hrun, hopening]
  rfl

/-- A file that imports itself, and an empty file beside it. -/
def neighbours : Tree where
  cwd := ["work"]
  entries := [(["work"], .directory),
    (["work", "a.proto"], .file "import \"a.proto\";".toUTF8), (["work", "b.proto"], .file ⟨#[]⟩)]

theorem neighbours_standing : neighbours.Standing :=
  Tree.standing_of_cwd rfl rfl

theorem opening_neighbours {path : String}
    (hcanonical : neighbours.canonical? (.ofText path) = some ["work", "b.proto"])
    (hread : outcome (readText neighbours (.ofText path) empty) = .ok "") :
    opening neighbours {} path = .ok .empty := by
  have nothing : (Grammar.read (mode {}) "").outcome = .ok .empty := by cbv
  unfold opening
  simp only [hcanonical, hread, nothing]

/-- A cycle, an import in a text and the file itself: none of them shows when the file is loaded by
another path. -/
theorem parseFile_after_eq_fresh_neighbours :
    outcome (parseFile neighbours {} "../work/b.proto" empty) = .ok .empty ∧
      outcome (parseFile neighbours {} "../work/b.proto" (after neighbours {}
        [.parseFile "a.proto", .parseContent "import \"b.proto\";", .parseFile "b.proto"])) =
        outcome (parseFile neighbours {} "../work/b.proto" empty) := by
  have canonical : neighbours.canonical? (.ofText "../work/b.proto") =
      some ["work", "b.proto"] := by
    decide
  obtain ⟨t, -, hrun⟩ := parseFile_of_opening canonical (opening_neighbours canonical rfl) rfl
    (by decide)
  have fresh : outcome (parseFile neighbours {} "../work/b.proto" empty) = .ok .empty := by
    rw [hrun]
    rfl
  refine ⟨fresh, parseFile_after_eq_fresh neighbours_standing {} _ _ ?_ ?_⟩
  · intro file depth limit h
    rw [fresh] at h
    cases h
  · intro h
    rw [fresh] at h
    cases h

/-- A path that goes on behind a file shows what is loaded: a new session has room for it and cannot
open it, a session that has loaded the file at its canonical location hands that out. -/
theorem parseFile_after_ne_fresh_neighbours :
    neighbours.Standing ∧
      outcome (parseFile neighbours {} "a.proto/../b.proto" empty) =
        .error (.breakdown .notDirectory) ∧
      outcome (parseFile neighbours {} "a.proto/../b.proto"
        (after neighbours {} [.parseFile "b.proto"])) = .ok .empty := by
  have canonical : neighbours.canonical? (.ofText "b.proto") = some ["work", "b.proto"] := by decide
  have behind : neighbours.canonical? (.ofText "a.proto/../b.proto") =
      some ["work", "b.proto"] := by
    decide
  have unopened : opening neighbours {} "a.proto/../b.proto" =
      .error (.breakdown .notDirectory) := by
    rw [opening, behind]
    rfl
  obtain ⟨t, hcache, hrun⟩ := parseFile_of_opening canonical (opening_neighbours canonical rfl) rfl
    (by decide)
  have history : after neighbours {} [.parseFile "b.proto"] = t := by
    unfold after
    rw [List.foldl_cons, perform, hrun]
    rfl
  refine ⟨neighbours_standing, parseFile_of_unopened behind unopened (by decide), ?_⟩
  rw [history]
  refine parseFile_of_cached behind ?_
  rw [hcache]
  rfl

end ProtoRoutes.Session
