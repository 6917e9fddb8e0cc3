import Mathlib.Data.List.Chain
import Mathlib.Data.List.Nodup
import ProtoRoutes.Proofs.Files.Names
import ProtoRoutes.Proofs.Grammar.Rules
import ProtoRoutes.Proofs.Import.ChainStack
import ProtoRoutes.Proofs.Import.Closure

/-!
# ProtoRoutes.Proofs.Import.Reports

**Loading ends, and its reports about the chain are true.** While a file is loaded, the files on
whose behalf that happens are pairwise different and no more than the settings allow. A report that
the chain is too long tells the first length that is not allowed, and a report of a cycle lists a
way through the imports that comes back to one of its files.

That the chain is fit is seen where it is a stack (`ChainStack`), which is looked at each time a
file was pushed. What the reports say is proved of `load` here.
-/

namespace ProtoRoutes.Session

open Files (Tree Path Location IsName)

variable (tree : Tree) (settings : ParserSettings)

/-! ### Failures that are not about the chain -/

/-- Whether a failure is a report about the chain. -/
def isOfChain : Failure → Bool
  | .error (.importCycle _) | .error (.importTooDeep _ _ _) => true
  | _ => false

theorem isOfChain_of_text {e : Failure} (h : e.isOfText = true) : isOfChain e = false := by
  unfold isOfChain
  split
  · cases h
  · cases h
  · rfl

/-- Reading a text fails with a fault of that text. -/
theorem read_isOfText {text : String} {e : Failure}
    (h : (Grammar.read (mode settings) text).outcome = .error e) : e.isOfText = true := by
  unfold Grammar.read at h
  cases htokens : Source.tokens text with
  | error e' =>
      rw [htokens] at h
      cases h
      have plain : Grammar.Blamed Grammar.Anywhere false (.report e') :=
        .plain (Source.tokensFrom_isPlain htokens)
      exact plain.isOfText
  | ok stream =>
      rw [htokens] at h
      exact (Grammar.readTokens_blamed _ h).isOfText

theorem readText_isOfChain {p : Path} {e : Failure}
    (h : outcome (readText tree p empty) = .error e) :
    isOfChain e = false := by
  unfold readText at h
  generalize (tree.follow (tree.startOf p) p.parts).map tree.find? = found at h
  rcases found with e' | _ | bytes | _
  · cases e' <;> cases h <;> rfl
  · cases h
    rfl
  · simp only at h
    cases htext : Files.sourceText? bytes with
    | none =>
        rw [htext] at h
        cases h
        rfl
    | some text =>
        rw [htext] at h
        cases h
  · cases h
    rfl

theorem opening_isOfChain {path : String} {e : Failure}
    (h : opening tree settings path = .error e) :
    isOfChain e = false := by
  unfold opening at h
  split at h
  · cases h
    rfl
  · split at h
    · next heq =>
        cases h
        exact readText_isOfChain tree heq
    · exact isOfChain_of_text (read_isOfText settings h)

theorem sought_isOfChain {current : Option Location} {d : String} {e : Failure}
    (h : sought tree settings current d = .error e) : isOfChain e = false := by
  have step := sought_cases tree settings current d
  rw [h] at step
  cases step with
  | unnamed => rfl
  | missing => rfl

/-- A failure of resolving imports is one of looking an import up or of loading it. -/
theorem resolveImports_error {l : String → Action SchemaFile} {current : Option Location}
    {f : SchemaFile} {s t : Session} {e : Failure}
    (h : resolveImports tree settings l current f s = .error e t) :
    ∃ d ∈ f.dependencies, isSkipped d = false ∧ (sought tree settings current d = .error e ∨
      ∃ path s', sought tree settings current d = .ok path ∧ l path s' = .error e t) := by
  unfold resolveImports at h
  split at h
  · generalize f.dependencies = ds at h ⊢
    induction ds generalizing s with
    | nil => cases h
    | cons d ds ih =>
        rw [run_forM_cons] at h
        have step := resolveImport_cases tree settings l current d s
        generalize resolveImport tree settings l current d s = r at step h
        have later : ∀ {u : Session},
            ds.forM (resolveImport tree settings l current) u = .error e t →
            ∃ d' ∈ d :: ds, isSkipped d' = false ∧ (sought tree settings current d' = .error e ∨
              ∃ path s', sought tree settings current d' = .ok path ∧ l path s' = .error e t) := by
          intro u hu
          obtain ⟨d', hd', hfound⟩ := ih hu
          exact ⟨d', List.mem_cons_of_mem d hd', hfound⟩
        cases step with
        | skipped _ _ => exact later h
        | loaded _ _ _ => exact later h
        | passed _ _ _ => exact later h
        | failed hskipped hfetch _ =>
            cases h
            refine ⟨d, List.mem_cons_self, hskipped, ?_⟩
            rcases fetch_error tree settings hfetch with ⟨hsought, -⟩ | ⟨path, hsought, hload⟩
            · exact .inl hsought
            · exact .inr ⟨path, s, hsought, hload⟩
  · cases h

/-! ### Reports about the chain -/

/-- The file at `a` has an import that leads to `b`. -/
def Leads (a b : Location) : Prop :=
  ∃ f d, contents tree settings a = some f ∧ d ∈ f.dependencies ∧ isSkipped d = false ∧
    target? tree settings (some a) d = some b

/-- A list of files as a report of a cycle gives it: different files, each of which an import of the
one before leads to, and then one of them again. -/
structure IsCycle (cycle : List String) : Prop where
  distinct : cycle.dropLast.Nodup
  returns : ∃ last ∈ cycle.getLast?, last ∈ cycle.dropLast
  leads : ∃ files : List Location, cycle = files.map Location.text ∧
    files.IsChain (Leads tree settings)

/-- Reports about the chain that are true: too long by one, or a cycle. -/
def IsTrue : Failure → Prop
  | .error (.importTooDeep _ depth limit) =>
    (depth : Int) = settings.maxImportDepth + 1 ∧ limit = settings.maxImportDepth
  | .error (.importCycle cycle) => IsCycle tree settings cycle
  | _ => True

/-- A file is wanted on behalf of a chain: each file of the chain imports the next one, and the last
one imports this one. -/
structure Wanted (chain : List Location) (path : String) : Prop where
  distinct : chain.Nodup
  names : ∀ loc ∈ chain, ∀ name ∈ loc, IsName name
  leads : chain.IsChain (Leads tree settings)
  imported : ∀ last ∈ chain.getLast?, ∃ f d, contents tree settings last = some f ∧
    d ∈ f.dependencies ∧ isSkipped d = false ∧ sought tree settings (some last) d = .ok path

section Reports

variable {tree settings} {chain : List Location} {path : String} {loc : Location}

theorem Wanted.leads_to (h : Wanted tree settings chain path)
    (hcanonical : tree.canonical? (.ofText path) = some loc) :
    (chain ++ [loc]).IsChain (Leads tree settings) := by
  refine List.isChain_append.mpr ⟨h.leads, List.isChain_singleton loc, ?_⟩
  intro last hlast next hnext
  cases hnext
  obtain ⟨f, d, hcontents, hd, hskipped, hsought⟩ := h.imported last hlast
  exact ⟨f, d, hcontents, hd, hskipped, by rw [target?_of_sought hsought, hcanonical]⟩

theorem Wanted.isCycle (h : Wanted tree settings chain path)
    (hcanonical : tree.canonical? (.ofText path) = some loc) (hchain : loc ∈ chain) :
    IsCycle tree settings ((chain ++ [loc]).map Location.text) := by
  have front : ((chain ++ [loc]).map Location.text).dropLast = chain.map Location.text := by simp
  refine ⟨?_, ⟨loc.text, by simp, ?_⟩, ⟨chain ++ [loc], rfl, h.leads_to hcanonical⟩⟩
  · rw [front]
    refine List.Nodup.map_on (fun a ha b hb htext => ?_) h.distinct
    exact Files.text_inj (h.names a ha) (h.names b hb) htext
  · rw [front]
    exact List.mem_map_of_mem hchain

/-- The file joins the chain, and one of its imports is wanted next. -/
theorem Wanted.push (h : Wanted tree settings chain path) (hnamed : tree.Named)
    (hcanonical : tree.canonical? (.ofText path) = some loc) (hchain : loc ∉ chain) {f : SchemaFile}
    (hcontents : contents tree settings loc = some f) {d path' : String} (hd : d ∈ f.dependencies)
    (hskipped : isSkipped d = false) (hsought : sought tree settings (some loc) d = .ok path') :
    Wanted tree settings (chain ++ [loc]) path' where
  distinct := List.concat_eq_append ▸ h.distinct.concat hchain
  names := List.forall_mem_append.mpr ⟨h.names, by
    simpa using Tree.canonical?_names hnamed hcanonical⟩
  leads := h.leads_to hcanonical
  imported := by
    intro last hlast
    rw [List.getLast?_concat] at hlast
    cases hlast
    exact ⟨f, d, hcontents, hd, hskipped, hsought⟩

/-- What a failure of loading the file of a path on behalf of a chain says: if it is about the chain
it is true, and a cycle starts with the chain and that file. -/
def Faithful (tree : Tree) (settings : ParserSettings) (chain : List Location) (path : String)
    (e : Failure) : Prop :=
  IsTrue tree settings e ∧ ∀ cycle, e = .error (.importCycle cycle) →
    (chain ++ (tree.canonical? (.ofText path)).toList).map Location.text <+: cycle

theorem isTrue_of_isOfChain {e : Failure} (h : isOfChain e = false) : IsTrue tree settings e := by
  unfold IsTrue
  split
  · cases h
  · cases h
  · trivial

theorem faithful_of_isOfChain {e : Failure} (h : isOfChain e = false) :
    Faithful tree settings chain path e := by
  refine ⟨isTrue_of_isOfChain h, fun cycle heq => ?_⟩
  rw [heq] at h
  cases h

/-- What loading reports about the chain is true. -/
theorem load_faithful (hstanding : tree.Standing) (hnamed : tree.Named) {room : Nat} {s t : Session}
    {e : Failure} (hroom : (chain.length : Int) + room = settings.maxImportDepth)
    (hwanted : Wanted tree settings chain path)
    (h : load tree settings room chain path s = .error e t) :
      Faithful tree settings chain path e := by
  induction room using Nat.strongRecOn generalizing chain path s with
  | ind room ih =>
      have step := load_cases tree settings room chain path s
      rw [h] at step
      cases step with
      | missing _ => exact faithful_of_isOfChain rfl
      | unread hopening _ => exact faithful_of_isOfChain (opening_isOfChain tree settings hopening)
      | full hfull =>
          refine ⟨⟨?_, rfl⟩, fun cycle heq => by cases heq⟩
          omega
      | cycle hcanonical hchain =>
          refine ⟨hwanted.isCycle hcanonical hchain, ?_⟩
          intro cycle heq
          cases heq
          rw [hcanonical]
          exact List.prefix_refl _
      | @unresolved n loc f _ s' _ hroom' hcanonical hchain hopening _ himports =>
          have hcontents := contents_of_opening settings hstanding hcanonical hopening
          obtain ⟨d, hd, hskipped, hsought | ⟨path', s'', hsought, hload⟩⟩ :=
            resolveImports_error tree settings himports
          · exact faithful_of_isOfChain (sought_isOfChain tree settings hsought)
          · -- The failure of an import: what it says of the longer chain holds of this one.
            have longer := hwanted.push hnamed hcanonical hchain hcontents hd hskipped hsought
            obtain ⟨htrue, hfront⟩ := ih n (by omega) (by simp; omega) longer hload
            refine ⟨htrue, fun cycle heq => ?_⟩
            have hbefore := hfront cycle heq
            rw [List.map_append] at hbefore
            rw [hcanonical]
            exact (List.prefix_append _ _).trans hbefore

theorem wanted_nil (path : String) : Wanted tree settings [] path :=
  ⟨List.nodup_nil, by simp, List.isChain_nil, by simp⟩

theorem parseContent_isTrue (hstanding : tree.Standing) (hnamed : tree.Named)
    (hlimit : 0 ≤ settings.maxImportDepth) {text : String} {s : Session} {e : Failure}
    (h : outcome (parseContent tree settings text s) = .error e) : IsTrue tree settings e := by
  obtain ⟨t, -, hrun⟩ := run_parseText settings text s
  unfold parseContent at h
  rw [run_bind, hrun] at h
  cases hread : (Grammar.read (mode settings) text).outcome with
  | error e' =>
      rw [hread] at h
      cases h
      exact isTrue_of_isOfChain (isOfChain_of_text (read_isOfText settings hread))
  | ok f =>
      rw [hread] at h
      simp only [ending] at h
      rw [run_bind] at h
      cases himports : resolveImports tree settings (loadFresh tree settings) none f t with
      | ok _ u =>
          rw [himports] at h
          cases h
      | error e' u =>
          rw [himports] at h
          cases h
          obtain ⟨d, -, -, hsought | ⟨path, s', -, hload⟩⟩ :=
            resolveImports_error tree settings himports
          · exact isTrue_of_isOfChain (sought_isOfChain tree settings hsought)
          · exact (load_faithful hstanding hnamed (by simp; omega) (wanted_nil path) hload).1

theorem parseFile_isTrue (hstanding : tree.Standing) (hnamed : tree.Named)
    (hlimit : 0 ≤ settings.maxImportDepth) {path : String} {s : Session} {e : Failure}
    (h : outcome (parseFile tree settings path s) = .error e) :
    IsTrue tree settings e ∧ ∀ cycle, e = .error (.importCycle cycle) →
      cycle.head? = (tree.canonical? (.ofText path)).map Location.text := by
  unfold parseFile loadFresh at h
  cases hload : load tree settings settings.maxImportDepth.toNat [] path s with
  | ok f t =>
      rw [hload] at h
      cases h
  | error e' t =>
      rw [hload] at h
      cases h
      obtain ⟨htrue, hfront⟩ :=
        load_faithful hstanding hnamed (by simp; omega) (wanted_nil path) hload
      refine ⟨htrue, fun cycle heq => ?_⟩
      cases hcanonical : tree.canonical? (.ofText path) with
      | none =>
          -- Without a file there is no cycle to report.
          rw [load_of_missing hcanonical] at hload
          cases hload
          cases heq
      | some loc =>
          have hbefore := hfront cycle heq
          rw [hcanonical] at hbefore
          obtain ⟨others, hcycle⟩ := hbefore
          rw [← hcycle]
          rfl

/-- **Loading ends, and its reports about the chain are true.** In every session and whatever the
imports of the files are, in a tree that may have several names for a file but no symbolic links:
with the chain as a stack that is looked at, and with at least as much fuel as the chain may be
long, loading a file or the imports of a text never runs out of fuel and never puts a chain to work
with a file twice or with more files than allowed. A chain that is too long is reported with the
first length that is not allowed, a cycle is reported as one, and it starts with the file that was
asked for. -/
theorem loading_ends_and_reports_truly (hstanding : tree.Standing) (hnamed : tree.Named)
    (hlimit : 0 ≤ settings.maxImportDepth) :
    (∀ otherwise fuel, settings.maxImportDepth.toNat ≤ fuel →
      (∀ path, Mirrors [] (parseFileOn tree settings otherwise fuel path)
        (parseFile tree settings path)) ∧
      ∀ text, Mirrors [] (parseContentOn tree settings otherwise fuel text)
        (parseContent tree settings text)) ∧
    (∀ path s e, outcome (parseFile tree settings path s) = .error e →
      IsTrue tree settings e ∧ ∀ cycle, e = .error (.importCycle cycle) →
        cycle.head? = (tree.canonical? (.ofText path)).map Location.text) ∧
    ∀ text s e, outcome (parseContent tree settings text s) = .error e →
      IsTrue tree settings e := by
  refine ⟨fun otherwise fuel hfuel => ?_, fun path s e h => ?_, fun text s e h => ?_⟩
  · exact ⟨parseFileOn_mirrors tree settings otherwise hfuel,
      parseContentOn_mirrors tree settings otherwise hfuel⟩
  · exact parseFile_isTrue hstanding hnamed hlimit h
  · exact parseContent_isTrue hstanding hnamed hlimit h

/-- The file that imports itself is reported as a cycle, and a chain of ten is enough to find out.
-/
theorem loading_ends_and_reports_truly_neighbours :
    neighbours.Standing ∧ neighbours.Named ∧
      outcome (parseFile neighbours {} "a.proto" empty) =
        .error (.error (.importCycle ["/work/a.proto", "/work/a.proto"])) ∧
      IsCycle neighbours {} ["/work/a.proto", "/work/a.proto"] ∧
      ∀ otherwise, Mirrors [] (parseFileOn neighbours {} otherwise 10 "a.proto")
        (parseFile neighbours {} "a.proto") := by
  have named : neighbours.Named := by
    intro name hname
    cases List.mem_singleton.mp (show name ∈ ["work"] from hname)
    exact ⟨by decide, by decide⟩
  have hcanonical : neighbours.canonical? (.ofText "a.proto") = some ["work", "a.proto"] := by
    decide
  have hagain : neighbours.canonical? (.ofText "/work/a.proto") = some ["work", "a.proto"] := by
    decide
  have hsought : sought neighbours {} (some ["work", "a.proto"]) "a.proto" =
      .ok "/work/a.proto" := by rfl
  have hread : isSkipped "a.proto" = false := by decide
  obtain ⟨f, hopening, hsingle⟩ := @opening_of_text neighbours {} "a.proto" "import \"a.proto\";" _
    ["a.proto"] hcanonical rfl (by decide +kernel)
  obtain ⟨s, -, hrun⟩ := @parseFile_of_single neighbours {} rfl "a.proto" _ f "a.proto" hcanonical
    hopening hsingle hread 9 rfl
  have cycle : outcome (parseFile neighbours {} "a.proto" empty) =
      .error (.error (.importCycle ["/work/a.proto", "/work/a.proto"])) := by
    rw [hrun, fetch, hsought]
    simp only
    rw [load_of_cycle hagain (by simp)]
    rfl
  obtain ⟨hstack, hfile, -⟩ :=
    @loading_ends_and_reports_truly neighbours {} neighbours_standing named (by decide)
  refine ⟨neighbours_standing, named, cycle, (hfile "a.proto" empty _ cycle).1, ?_⟩
  exact fun otherwise => (hstack otherwise 10 (by decide)).1 "a.proto"

end Reports

end ProtoRoutes.Session
