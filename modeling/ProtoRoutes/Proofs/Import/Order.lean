import ProtoRoutes.Proofs.Grammar.HeaderOrder
import ProtoRoutes.Proofs.Import.Reports

/-!
# ProtoRoutes.Proofs.Import.Order

**The order of import statements does not decide whether a file can be loaded.** Two trees are
compared whose files differ in the order of their import statements only. Paths lead to the same
places in both of them, and what can be read in one can be read in the other, with the same imports
in some order.

The two searches visit the files in different orders, so they are not run against each other. What a
search leaves is: files that were loaded one after the other, each with its imports settled by those
before it (`Loaded`). Whether imports are settled is no matter of their order, so the same locations
are `Loaded` in the other tree (`Loaded.rearranged`), and files that are can be loaded there from
their texts (`load_again`).

One thing is left to the order. A file that is loaded already is handed out whatever the depth, so a
search may have room for its chain because of the file that it came to first.
-/

namespace ProtoRoutes

open Files (Tree Path Location Entry)

/-! ### Trees -/

namespace Files

/-- What two trees have at a location: the same, or files whose texts differ only in the order
of their import statements. -/
inductive Entry.Rearranged (strict : Bool) : Option Entry → Option Entry → Prop where
  | same (entry : Option Entry) : Entry.Rearranged strict entry entry
  | file {bytes bytes' : ByteArray} {text text' : String} (htext : sourceText? bytes = some text)
      (htext' : sourceText? bytes' = some text') (h : Grammar.Rearranged strict text text') :
      Entry.Rearranged strict (some (.file bytes)) (some (.file bytes'))

/-- Two trees that differ in the order of the import statements in their files only. -/
structure Tree.Rearranged (strict : Bool) (t t' : Tree) : Prop where
  cwd : t'.cwd = t.cwd
  entries : ∀ loc, Entry.Rearranged strict (t.find? loc) (t'.find? loc)

namespace Tree.Rearranged

variable {strict : Bool} {t t' : Tree}

theorem symm (h : Tree.Rearranged strict t t') : Tree.Rearranged strict t' t where
  cwd := h.cwd.symm
  entries loc := by
    have there := h.entries loc
    generalize t.find? loc = x, t'.find? loc = y at there
    cases there with
    | same => exact .same x
    | file htext htext' h => exact .file htext' htext h.symm

theorem isSome_eq (h : Tree.Rearranged strict t t') (loc : Location) :
    (t'.find? loc).isSome = (t.find? loc).isSome := by
  have there := h.entries loc
  generalize t.find? loc = x, t'.find? loc = y at there
  cases there with
  | same => rfl
  | file => rfl

theorem isDirectory_eq (h : Tree.Rearranged strict t t') (loc : Location) :
    t'.isDirectory loc = t.isDirectory loc := by
  have there := h.entries loc
  unfold isDirectory
  generalize t.find? loc = x, t'.find? loc = y at there
  cases there with
  | same => rfl
  | file => rfl

theorem standing (h : Tree.Rearranged strict t t') (hstanding : t.Standing) : t'.Standing := by
  intro above habove
  rw [h.isDirectory_eq]
  exact hstanding above (h.cwd ▸ habove)

theorem named (h : Tree.Rearranged strict t t') (hnamed : t.Named) : t'.Named := by
  intro name hname
  exact hnamed name (h.cwd ▸ hname)

theorem startOf_eq (h : Tree.Rearranged strict t t') (p : Path) : t'.startOf p = t.startOf p := by
  rw [startOf, startOf, h.cwd]

/-- Paths lead to the same places, since only the contents of files differ. -/
theorem follow_eq (h : Tree.Rearranged strict t t') (loc : Location) (parts : List String) :
    t'.follow loc parts = t.follow loc parts := by
  induction parts generalizing loc with
  | nil => rw [follow, follow, h.isSome_eq]
  | cons part rest ih =>
      rw [follow, follow, ih, ih, ih]
      have there := h.entries loc
      generalize t.find? loc = x, t'.find? loc = y at there
      cases there with
      | same => rfl
      | file => rfl

theorem canonicalFrom_eq (h : Tree.Rearranged strict t t') (loc : Location) (parts : List String) :
    t'.canonicalFrom loc parts = t.canonicalFrom loc parts := by
  induction parts generalizing loc with
  | nil => rfl
  | cons part rest ih => rw [canonicalFrom, canonicalFrom, ih, ih, h.isSome_eq]

theorem canonical?_eq (h : Tree.Rearranged strict t t') (p : Path) :
    t'.canonical? p = t.canonical? p := by
  rw [canonical?, canonical?, h.startOf_eq, h.canonicalFrom_eq]

theorem isFile_eq (h : Tree.Rearranged strict t t') : t'.isFile = t.isFile := by
  funext p
  unfold isFile bytes? resolve?
  rw [h.startOf_eq, h.follow_eq]
  cases (t.follow (t.startOf p) p.parts).toOption with
  | none => rfl
  | some loc =>
      have there := h.entries loc
      simp only [Option.bind_some]
      generalize t.find? loc = x, t'.find? loc = y at there
      cases there with
      | same => rfl
      | file => rfl

end Tree.Rearranged

end Files

namespace Session

/-! ### Paths of imports -/

section Paths

variable {tree : Tree} {settings : ParserSettings}

/-- The paths at which an import of a file is looked for can be written. -/
theorem candidates_isWritable {current : Option Location} {d : String} {p : Path}
    (hnames : ∀ loc ∈ current, ∀ name ∈ loc, Files.IsName name)
    (hp : p ∈ candidates settings current d) : p.IsWritable := by
  unfold candidates at hp
  rcases List.mem_append.mp hp with hp | hp
  · obtain ⟨loc, hloc, rfl⟩ := List.mem_map.mp hp
    have above : Path.IsWritable ⟨"/", loc.dropLast⟩ :=
      ⟨⟨1, rfl⟩, fun name hname =>
        hnames loc (Option.mem_toList.mp hloc) name ((List.dropLast_sublist loc).subset hname)⟩
    exact above.join (Path.ofText_isWritable d)
  · obtain ⟨text, -, rfl⟩ := List.mem_map.mp hp
    exact (Path.ofText_isWritable text).join (Path.ofText_isWritable d)

/-- A path that leads to a file is not one that goes on behind a file, also when it was written. -/
theorem opening_of_isFile {p : Path} (hp : p.IsWritable) (hfile : tree.isFile p = true) :
    opening tree settings p.text ≠ .error (.breakdown .notDirectory) := by
  obtain ⟨loc, hfollow⟩ : ∃ loc, tree.follow (tree.startOf p) p.parts = .ok loc := by
    unfold Tree.isFile Tree.bytes? Tree.resolve? at hfile
    cases hfollow : tree.follow (tree.startOf p) p.parts with
    | ok loc => exact ⟨loc, rfl⟩
    | error e =>
        rw [hfollow] at hfile
        cases hfile
  intro hopening
  unfold opening at hopening
  split at hopening
  · cases hopening
  · split at hopening
    · next heq =>
        cases hopening
        have dotless := tree.follow_dotless hfollow
        unfold readText at heq
        rw [Path.ofText_text hp] at heq
        have start : tree.startOf ⟨p.root, p.parts.filter (· ≠ ".")⟩ = tree.startOf p := rfl
        rw [start, dotless] at heq
        simp only [Except.map] at heq
        generalize tree.find? loc = found at heq
        rcases found with _ | bytes | _
        · cases heq
        · simp only at heq
          generalize Files.sourceText? bytes = decoded at heq
          cases decoded with
          | none => cases heq
          | some text => cases heq
        · cases heq
    · have ofText := read_isOfText settings hopening
      cases ofText

/-- A new session opens what it loads. -/
theorem opening_of_load {room : Nat} {chain : List Location} {path : String} {f : SchemaFile}
    {t : Session} (h : load tree settings room chain path empty = .ok f t) :
      opening tree settings path = .ok f := by
  have step := load_cases tree settings room chain path empty
  rw [h] at step
  cases step with
  | cached _ hmem _ => cases hmem
  | loaded _ _ _ hopening _ _ => exact hopening

/-- Only the path that was asked for can go on behind a file. -/
theorem load_notDirectory (hnamed : tree.Named) {room : Nat} {chain : List Location} {path : String}
    {s t : Session}
    (h : load tree settings room chain path s = .error (.breakdown .notDirectory) t) :
    opening tree settings path = .error (.breakdown .notDirectory) := by
  -- On the room for the chain: imports are loaded by paths that lead to files, so none of them is
  -- to blame.
  induction room using Nat.strongRecOn generalizing chain path s with
  | ind room ih =>
      have step := load_cases tree settings room chain path s
      rw [h] at step
      cases step with
      | unread hopening _ => exact hopening
      | @unresolved n loc f _ s' _ hroom hcanonical _ _ _ himports =>
          exfalso
          obtain ⟨d, -, -, hsought | ⟨path', s'', hsought, hload⟩⟩ :=
            resolveImports_error tree settings himports
          · have sought := sought_cases tree settings (some loc) d
            rw [hsought] at sought
            cases sought
          · have sought := sought_cases tree settings (some loc) d
            rw [hsought] at sought
            cases sought with
            | @found p hfind =>
                have writable : p.IsWritable := by
                  refine candidates_isWritable ?_ (List.mem_of_find?_eq_some hfind)
                  intro l hl
                  cases hl
                  exact Tree.canonical?_names hnamed hcanonical
                exact opening_of_isFile writable (List.find?_some hfind) (ih n (by omega) hload)

end Paths

/-! ### Files that are loaded in both trees -/

/-- What may be passed over: an error, if the settings say so. -/
theorem isTolerable_isSome {settings : ParserSettings} {e : Failure} (h : isOfChain e = false) :
    (isTolerable settings e).isSome = (e.isError && !settings.failOnImportErrors) := by
  unfold isTolerable
  split
  · cases h
  · cases h
  · cases settings.failOnImportErrors <;> rfl
  · rfl

section Both

variable {tree tree' : Tree} {settings : ParserSettings}
  (h : tree.Rearranged settings.strictValidation tree')

include h

/-- An import is found at the same place in both trees. -/
theorem sought_rearranged (current : Option Location) (d : String) :
    sought tree' settings current d = sought tree settings current d := by
  unfold sought findImport
  rw [h.isFile_eq]

/-- A file comes to the same in both trees, up to the order of its imports. -/
theorem opening_rearranged (path : String) :
    Grammar.SameFate (opening tree settings path) (opening tree' settings path) := by
  unfold opening readText
  rw [h.canonical?_eq, h.startOf_eq, h.follow_eq]
  cases tree.canonical? (.ofText path) with
  | none => exact .refl _
  | some _ =>
      cases tree.follow (tree.startOf (.ofText path)) (Path.ofText path).parts with
      | error e => exact .refl _
      | ok loc =>
          have there := h.entries loc
          simp only [Except.map]
          generalize tree.find? loc = x, tree'.find? loc = y at there
          cases there with
          | same => exact .refl _
          | file htext htext' hread =>
              simp only [htext, htext']
              exact hread.sameFate settings.preserveComments

theorem contents_rearranged {loc : Location} {f : SchemaFile}
    (hcontents : contents tree settings loc = some f) :
    ∃ g, contents tree' settings loc = some g ∧ f.imports.Perm g.imports := by
  have there := h.entries loc
  unfold contents at hcontents ⊢
  generalize tree.find? loc = x, tree'.find? loc = y at there hcontents
  cases there with
  | same => exact ⟨f, hcontents, .refl _⟩
  | @file _ _ text text' htext htext' hread =>
      have both : Grammar.SameFate (Grammar.read (mode settings) text).outcome
          (Grammar.read (mode settings) text').outcome := hread.sameFate settings.preserveComments
      simp only [htext, htext', Option.bind_some] at hcontents ⊢
      generalize (Grammar.read (mode settings) text).outcome = x,
        (Grammar.read (mode settings) text').outcome = y at both hcontents
      cases both with
      | error _ => cases hcontents
      | ok hperm =>
          cases hcontents
          exact ⟨_, rfl, hperm⟩

/-- A failure that may be passed over in one tree may be passed over in the other. -/
theorem opening_error_rearranged {path : String} {e : Failure} {w : SchemaError}
    (hopening : opening tree settings path = .error e)
    (htolerable : isTolerable settings e = some w) :
    ∃ e' w', opening tree' settings path = .error e' ∧ isTolerable settings e' = some w' := by
  have both := opening_rearranged h path
  rw [hopening] at both
  generalize hopening' : opening tree' settings path = x at both
  cases both with
  | @error _ e' hkind =>
      have tolerable : (isTolerable settings e').isSome = true := by
        rw [isTolerable_isSome (opening_isOfChain tree' settings hopening'), ← hkind,
          ← isTolerable_isSome (opening_isOfChain tree settings hopening), htolerable]
        rfl
      obtain ⟨w', hw'⟩ := Option.isSome_iff_exists.mp tolerable
      exact ⟨e', w', rfl, hw'⟩

/-- Whether an import is settled depends on which files are loaded, and on nothing in them. -/
theorem Settled.rearranged {cache cache' : Cache} (hsame : cache'.map Prod.fst = cache.map Prod.fst)
    {current : Option Location} {d : String} (hsettled : Settled tree settings cache current d) :
    Settled tree' settings cache' current d := by
  cases hsettled with
  | skipped hskipped => exact .skipped hskipped
  | loaded hsought hcanonical hloaded =>
      exact .loaded (sought_rearranged h current d ▸ hsought) (h.canonical?_eq _ ▸ hcanonical)
        (hsame ▸ hloaded)
  | unsought hsought htolerable =>
      exact .unsought (sought_rearranged h current d ▸ hsought) htolerable
  | unread hsought hopening htolerable =>
      obtain ⟨e', w', hopening', htolerable'⟩ := opening_error_rearranged h hopening htolerable
      exact .unread (sought_rearranged h current d ▸ hsought) hopening' htolerable'

/-- Files that were loaded one after the other in one tree could have been loaded like that in the
other. -/
theorem Loaded.rearranged {cache : Cache} (hloaded : Loaded tree settings cache) :
    ∃ cache', Loaded tree' settings cache' ∧ cache'.map Prod.fst = cache.map Prod.fst := by
  induction hloaded with
  | nil => exact ⟨[], .nil, rfl⟩
  | @snoc cache loc f _ hnew hcontents hsettled ih =>
      obtain ⟨cache', hloaded', hsame⟩ := ih
      -- The file reads as one with the same imports, and those were settled by the files before it.
      obtain ⟨g, hcontents', hperm⟩ := contents_rearranged h hcontents
      refine ⟨cache' ++ [(loc, g)], .snoc hloaded' (hsame ▸ hnew) hcontents' ?_, by simp [hsame]⟩
      intro hresolve d hd
      exact (hsettled hresolve d ((hperm.map _).mem_iff.mpr hd)).rearranged h hsame

/-- A path that a new session loads in one tree does not go on behind a file in the other. -/
theorem load_notDirectory_rearranged (hnamed : tree.Named) {room : Nat} {path : String}
    {f : SchemaFile} {t t' : Session} (hok : load tree settings room [] path empty = .ok f t) :
    load tree' settings room [] path empty ≠ .error (.breakdown .notDirectory) t' := by
  intro herror
  have both := opening_rearranged h path
  rw [opening_of_load hok, load_notDirectory (h.named hnamed) herror] at both
  cases both

/-- What can be loaded in one tree can be loaded in the other, if there is room for the chain. -/
theorem parseFile_ok_rearranged (hstanding : tree.Standing) (hnamed : tree.Named) {path : String}
    {f : SchemaFile} (hok : outcome (parseFile tree settings path empty) = .ok f) :
    (∃ g, outcome (parseFile tree' settings path empty) = .ok g) ∨
      ∃ file depth limit, outcome (parseFile tree' settings path empty) =
        .error (.error (.importTooDeep file depth limit)) := by
  unfold parseFile loadFresh at hok ⊢
  have fetched := load_keeps settings hstanding settings.maxImportDepth.toNat [] path empty
    ⟨.nil, by simp, by simp⟩
  generalize hload : load tree settings settings.maxImportDepth.toNat [] path empty =
    r at hok fetched
  cases fetched with
  | error _ _ => cases hok
  | @ok f t loc hkept hcanonical hmem =>
      obtain ⟨cache', hloaded', hsame⟩ := hkept.ready.loaded.rearranged h
      obtain ⟨⟨_, g⟩, hmem', rfl⟩ : ∃ entry ∈ cache', entry.1 = loc :=
        List.mem_map.mp (hsame ▸ List.mem_map_of_mem hmem)
      -- The file is one of those that are `Loaded` in the other tree, so a new session loads it
      -- from its text.
      have again :
          Repeated cache' g (load tree' settings settings.maxImportDepth.toNat [] path empty) :=
        load_again (h.standing hstanding) (fun loc f => hloaded'.contents_eq) hloaded'
          (List.Subset.refl cache') hmem' _ (by simp) (by simp)
          ((h.canonical?_eq _).trans hcanonical)
          (List.nil_subset _)
      generalize hload' : load tree' settings settings.maxImportDepth.toNat [] path empty =
        r at again
      cases again with
      | ok _ => exact .inl ⟨g, rfl⟩
      | @stranded e s hstranded =>
          unfold IsStranded at hstranded
          split at hstranded
          · exact .inr ⟨_, _, _, rfl⟩
          · exact absurd hload' (load_notDirectory_rearranged h hnamed hload)
          · cases hstranded

end Both

/-- **The order of import statements does not decide success.** In two trees whose files differ in
the order of their import statements only, a new session loads a path in the one if and only if a
new session loads it in the other, unless one of them reports that the chain became too long. -/
theorem parseFile_ok_iff_of_rearranged {tree tree' : Tree} (settings : ParserSettings)
    (path : String) (hstanding : tree.Standing) (hnamed : tree.Named)
    (h : tree.Rearranged settings.strictValidation tree')
    (hroom : ∀ file depth limit, outcome (parseFile tree settings path empty) ≠
      .error (.error (.importTooDeep file depth limit)))
    (hroom' : ∀ file depth limit, outcome (parseFile tree' settings path empty) ≠
      .error (.error (.importTooDeep file depth limit))) :
    (∃ f, outcome (parseFile tree settings path empty) = .ok f) ↔
      ∃ f, outcome (parseFile tree' settings path empty) = .ok f := by
  constructor
  · rintro ⟨f, hok⟩
    rcases parseFile_ok_rearranged h hstanding hnamed hok with hok' | ⟨file, depth, limit, hdeep⟩
    · exact hok'
    · exact absurd hdeep (hroom' file depth limit)
  · rintro ⟨f, hok⟩
    rcases parseFile_ok_rearranged h.symm (h.standing hstanding) (h.named hnamed) hok with
      hok' | ⟨file, depth, limit, hdeep⟩
    · exact hok'
    · exact absurd hdeep (hroom file depth limit)

/-! ### Two ways to one file -/

/-- Three files, where `a.proto` has a given text and `b.proto` imports `c.proto`. -/
def diamond (text : String) : Tree where
  cwd := ["work"]
  entries := [(["work"], .directory), (["work", "a.proto"], .file text.toUTF8),
    (["work", "b.proto"], .file "import \"c.proto\";".toUTF8), (["work", "c.proto"], .file ⟨#[]⟩)]

theorem diamond_standing (text : String) : (diamond text).Standing :=
  Tree.standing_of_cwd rfl rfl

theorem diamond_named (text : String) : (diamond text).Named := by
  intro name hname
  cases List.mem_singleton.mp hname
  exact ⟨by decide, by decide⟩

theorem diamond_rearranged {strict : Bool} {text text' : String}
    (htext : Files.sourceText? text.toUTF8 = some text)
    (htext' : Files.sourceText? text'.toUTF8 = some text')
    (h : Grammar.Rearranged strict text text') :
      (diamond text).Rearranged strict (diamond text') where
  cwd := rfl
  entries loc := by
    by_cases hloc : loc = ["work", "a.proto"]
    · subst hloc
      exact .file htext htext' h
    · have others : (diamond text').find? loc = (diamond text).find? loc := by
        have hne : (loc == ["work", "a.proto"]) = false := by simpa using hloc
        simp [Tree.find?, diamond, List.lookup_cons, hne]
      rw [others]
      exact .same _

/-- `b.proto` first, and then `c.proto`. -/
def longFirst : String := "import \"b.proto\"; import \"c.proto\";"

/-- `c.proto` first, and then `b.proto`. -/
def shortFirst : String := "import \"c.proto\"; import \"b.proto\";"

theorem diamond_turned (strict : Bool) :
    (diamond longFirst).Rearranged strict (diamond shortFirst) := by
  have turned : Grammar.Rearranged strict longFirst shortFirst :=
    @Grammar.Rearranged.of_imports strict longFirst shortFirst "b.proto" "c.proto" []
      (by decide +kernel)
      (by decide +kernel)
  exact diamond_rearranged rfl rfl turned

/-- With room for three files both orders lead to all of them. -/
theorem parseFile_ok_iff_of_rearranged_diamond :
    (diamond longFirst).Rearranged true (diamond shortFirst) ∧
      (∃ f, outcome (parseFile (diamond longFirst) { maxImportDepth := 3 } "a.proto" empty) =
        .ok f) ∧
      ((∃ f, outcome (parseFile (diamond longFirst) { maxImportDepth := 3 } "a.proto" empty) =
        .ok f) ↔
        ∃ f, outcome (parseFile (diamond shortFirst) { maxImportDepth := 3 } "a.proto" empty) =
          .ok f) := by
  have read :
      (outcome (parseFile (diamond longFirst) { maxImportDepth := 3 } "a.proto" empty)).toOption.map
      SchemaFile.dependencies = some ["b.proto", "c.proto"] := by decide +kernel
  have read' :
      (outcome
      (parseFile (diamond shortFirst) { maxImportDepth := 3 } "a.proto" empty)).toOption.map
      SchemaFile.dependencies = some ["c.proto", "b.proto"] := by decide +kernel
  obtain ⟨f, hok, -⟩ := Grammar.exists_ok_of_toOption read
  obtain ⟨g, hok', -⟩ := Grammar.exists_ok_of_toOption read'
  refine ⟨diamond_turned true, ⟨f, hok⟩, ?_⟩
  refine parseFile_ok_iff_of_rearranged _ _ (diamond_standing _) (diamond_named _)
    (diamond_turned true) ?_ ?_
  · intro file depth limit hdeep
    rw [hok] at hdeep
    cases hdeep
  · intro file depth limit hdeep
    rw [hok'] at hdeep
    cases hdeep

/-- With room for two files the order decides: `c.proto` is one too many behind `b.proto`, unless it
was loaded before. -/
theorem parseFile_ok_not_iff_of_rearranged_diamond :
    (diamond longFirst).Standing ∧ (diamond longFirst).Named ∧
      (diamond longFirst).Rearranged true (diamond shortFirst) ∧
      outcome (parseFile (diamond longFirst) { maxImportDepth := 2 } "a.proto" empty) =
        .error (.error (.importTooDeep "/work/c.proto" 3 2)) ∧
      ∃ f, outcome (parseFile (diamond shortFirst) { maxImportDepth := 2 } "a.proto" empty) =
        .ok f := by
  have read : (outcome (parseFile (diamond longFirst) { maxImportDepth := 2 } "a.proto" empty)).map
      SchemaFile.dependencies = .error (.error (.importTooDeep "/work/c.proto" 3 2)) := by
        decide +kernel
  have read' :
      (outcome
      (parseFile (diamond shortFirst) { maxImportDepth := 2 } "a.proto" empty)).toOption.map
      SchemaFile.dependencies = some ["c.proto", "b.proto"] := by decide +kernel
  obtain ⟨f, hok, -⟩ := Grammar.exists_ok_of_toOption read'
  refine ⟨diamond_standing _, diamond_named _, diamond_turned true, ?_, f, hok⟩
  generalize outcome (parseFile (diamond longFirst) { maxImportDepth := 2 } "a.proto" empty) =
    x at read
  cases x with
  | ok f => cases read
  | error e =>
      cases read
      rfl

end Session

end ProtoRoutes
