import ProtoRoutes.Proofs.Grammar.Runs
import ProtoRoutes.Proofs.Http.Templates
import ProtoRoutes.Proofs.Settings.Fields
import ProtoRoutes.Proofs.Toml.DistinctKeys

/-!
# ProtoRoutes.Proofs.Settings.Layers

Settings by layers. A document is a row of assignments, one for each entry of its sections, and so
is the environment. Neither gives a field two values, so each field holds what its own variable
stands for, else what its own entry holds, else its default value; no other field has a part in it,
and neither has the order of the entries.

Loading fails for a reason in one of three places: an entry that is no setting or holds no value of
its kind, a variable that stands for none, or an outcome that is out of range.
-/

namespace ProtoRoutes

namespace SettingKind

/-- The values of a kind as they stand in a document. -/
def Holds : (kind : SettingKind) → Toml.Value → kind.Value → Prop
  | flag, w, b => w = .boolean b
  | number, w, n => w = .integer n
  | paths, w, ps => w = .array (ps.map .string)
  | names, w, ns => w = .array (ns.map .string)

theorem texts?_eq_some_iff {w : Toml.Value} {ts : List String} :
    texts? w = some ts ↔ w = .array (ts.map .string) := by
  cases w with
  | array items =>
      simp only [texts?, Toml.Value.array.injEq]
      induction items generalizing ts with
      | nil => cases ts <;> simp
      | cons item items ih =>
          cases item <;> cases ts <;> simp [Option.bind_eq_some_iff, ih, and_comm]
  | _ => simp [texts?]

/-- A value is accepted for a field exactly if it holds one of its kind. -/
theorem ofToml?_eq_some_iff {kind : SettingKind} {w : Toml.Value} {v : kind.Value} :
    kind.ofToml? w = some v ↔ kind.Holds w v := by
  cases kind with
  | flag => cases w <;> simp [ofToml?, Holds]
  | number => cases w <;> simp [ofToml?, Holds]
  | paths => exact texts?_eq_some_iff
  | names => exact texts?_eq_some_iff

end SettingKind

namespace Settings

open Files (Tree Path)

/-! ### Documents as rows of assignments -/

/-- The entries of a value that is a table. -/
def tableOf : Toml.Value → Toml.Table
  | .table entries => entries
  | _ => []

/-- What an entry of a section assigns. -/
def entryRow (sectionName : String) (entry : String × Toml.Value) : List Assignment :=
  ((Setting.all.find? fun f => f.sectionName = sectionName && f.key = entry.1).bind fun f =>
    (f.kind.ofToml? entry.2).map (Assignment.mk f)).toList

/-- What a section assigns. -/
def sectionRow (entry : String × Toml.Value) : List Assignment :=
  (tableOf entry.2).flatMap (entryRow entry.1)

/-- What a document assigns. -/
def rows (document : Toml.Table) : List Assignment :=
  document.flatMap sectionRow

/-- An entry of a section is a setting of it with a value of its kind. -/
def EntryFits (sectionName : String) (entry : String × Toml.Value) : Prop :=
  ∃ f ∈ Setting.all, f.sectionName = sectionName ∧ f.key = entry.1 ∧ ∃ v, f.kind.Holds entry.2 v

/-- A section has one of the three names and is a table of such entries. -/
def SectionFits (entry : String × Toml.Value) : Prop :=
  entry.1 ∈ ["parser", "extractor", "generator"] ∧
    ∃ entries, entry.2 = .table entries ∧ ∀ e ∈ entries, EntryFits entry.1 e

/-- All sections of a document are of that form. -/
def Fits (document : Toml.Table) : Prop :=
  ∀ entry ∈ document, SectionFits entry

/-- Steps that assign something if they succeed, one after the other. -/
theorem foldlM_eq_ok_iff {α : Type} {step : Settings → α → Except SettingsError Settings}
    {good : α → Prop} {row : α → List Assignment}
    (hstep : ∀ s e s', step s e = .ok s' ↔ good e ∧ s' = (row e).foldl assign s) {es : List α}
    {s s' : Settings} :
    es.foldlM step s = .ok s' ↔ (∀ e ∈ es, good e) ∧ s' = (es.flatMap row).foldl assign s := by
  induction es generalizing s with
  | nil =>
      show Except.ok s = .ok s' ↔ _
      simp [eq_comm]
  | cons e es ih =>
      have both : (e :: es).foldlM step s = .ok s' ↔
          ∃ t, step s e = .ok t ∧ es.foldlM step t = .ok s' := by
        rw [List.foldlM_cons]
        cases h : step s e <;> simp [bind, Except.bind]
      rw [both, List.forall_mem_cons, List.flatMap_cons, List.foldl_append]
      constructor
      · rintro ⟨t, hfirst, hrest⟩
        obtain ⟨he, rfl⟩ := (hstep s e t).mp hfirst
        obtain ⟨hes, rfl⟩ := ih.mp hrest
        exact ⟨⟨he, hes⟩, rfl⟩
      · rintro ⟨⟨he, hes⟩, rfl⟩
        exact ⟨_, (hstep _ _ _).mpr ⟨he, rfl⟩, ih.mpr ⟨hes, rfl⟩⟩

/-- The setting with a key is found. -/
theorem find?_setting {sectionName key : String} {f : Setting} :
    (Setting.all.find? fun f => f.sectionName = sectionName && f.key = key) = some f ↔
      f ∈ Setting.all ∧ f.sectionName = sectionName ∧ f.key = key := by
  constructor
  · intro h
    have hnames := List.find?_some h
    simp only [Bool.and_eq_true, decide_eq_true_eq] at hnames
    exact ⟨List.mem_of_find?_eq_some h, hnames⟩
  · rintro ⟨hf, rfl, rfl⟩
    cases h : Setting.all.find? fun g => g.sectionName = f.sectionName && g.key = f.key with
    | none => simpa using List.find?_eq_none.mp h f hf
    | some g =>
        have hnames := List.find?_some h
        simp only [Bool.and_eq_true, decide_eq_true_eq] at hnames
        rw [Setting.eq_of_key (List.mem_of_find?_eq_some h) hf hnames.2]

theorem mem_entryRow_iff {sectionName : String} {entry : String × Toml.Value} {a : Assignment} :
    a ∈ entryRow sectionName entry ↔
      a.setting ∈ Setting.all ∧ a.setting.sectionName = sectionName ∧ a.setting.key = entry.1 ∧
        a.setting.kind.Holds entry.2 a.value := by
  simp only [entryRow, Option.mem_toList, Option.bind_eq_some_iff, Option.map_eq_some_iff,
    find?_setting, SettingKind.ofToml?_eq_some_iff]
  constructor
  · rintro ⟨f, ⟨hf, hsection, hkey⟩, v, hv, rfl⟩
    exact ⟨hf, hsection, hkey, hv⟩
  · rintro ⟨hf, hsection, hkey, hv⟩
    exact ⟨a.setting, ⟨hf, hsection, hkey⟩, a.value, hv, rfl⟩

/-- An entry is accepted exactly if it fits, and then its assignments are made. -/
theorem applyEntry_eq_ok_iff {sectionName : String} (s : Settings) (entry : String × Toml.Value)
    (s' : Settings) :
    applyEntry sectionName s entry = .ok s' ↔
      EntryFits sectionName entry ∧ s' = (entryRow sectionName entry).foldl assign s := by
  unfold applyEntry
  simp only
  split
  · next hnone =>
      simp only [reduceCtorEq, false_iff]
      rintro ⟨⟨f, hf, hsection, hkey, -⟩, -⟩
      rw [find?_setting.mpr ⟨hf, hsection, hkey⟩] at hnone
      cases hnone
  · next f hfound =>
      have hf := find?_setting.mp hfound
      split
      · next hkind =>
          simp only [reduceCtorEq, false_iff]
          rintro ⟨⟨g, hg, hsection, hkey, v, hv⟩, -⟩
          obtain rfl := Setting.eq_of_key hf.1 hg (hf.2.2.trans hkey.symm)
          rw [SettingKind.ofToml?_eq_some_iff.mpr hv] at hkind
          cases hkind
      · next v hv =>
          have fits : EntryFits sectionName entry :=
            ⟨f, hf.1, hf.2.1, hf.2.2, v, SettingKind.ofToml?_eq_some_iff.mp hv⟩
          have row : entryRow sectionName entry = [⟨f, v⟩] := by simp [entryRow, hfound, hv]
          rw [row, Except.ok.injEq, eq_comm]
          exact (and_iff_right fits).symm

/-- A section is accepted exactly if all its entries are. -/
theorem applySection_eq_ok_iff (s : Settings) (entry : String × Toml.Value) (s' : Settings) :
    applySection s entry = .ok s' ↔ SectionFits entry ∧ s' = (sectionRow entry).foldl assign s := by
  obtain ⟨name, v⟩ := entry
  unfold applySection
  split
  · next hname =>
      have known : name ∈ ["parser", "extractor", "generator"] := by
        simpa [sectionNames] using hname
      split
      · next entries heq =>
          simp only at heq
          subst heq
          rw [foldlM_eq_ok_iff applyEntry_eq_ok_iff]
          refine and_congr_left fun _ => ⟨fun h => ⟨known, entries, rfl, h⟩, ?_⟩
          rintro ⟨-, entries', heq, h⟩
          cases heq
          exact h
      · next hother =>
          simp only [reduceCtorEq, false_iff]
          rintro ⟨⟨-, entries, heq, -⟩, -⟩
          exact hother entries heq
  · next hname =>
      simp only [reduceCtorEq, false_iff]
      rintro ⟨⟨hmem, -⟩, -⟩
      exact hname (by simpa [sectionNames] using hmem)

/-- **A document as a row of assignments.** -/
theorem ofToml_eq_ok_iff {document : Toml.Table} {s : Settings} :
    ofToml document = .ok s ↔ Fits document ∧ s = (rows document).foldl assign {} :=
  foldlM_eq_ok_iff applySection_eq_ok_iff

/-! ### What a document says about a field -/

/-- What stands in a document for a setting. -/
def stored? (document : Toml.Table) (f : Setting) : Option Toml.Value :=
  (document.lookup f.sectionName).bind fun v => (tableOf v).lookup f.key

theorem tableOf_distinct {v : Toml.Value} (h : v.Distinct) : (tableOf v).Distinct := by
  cases v with
  | table entries => exact Toml.Value.distinct_table_iff.mp h
  | _ => exact .nil

section Rows

variable {document : Toml.Table} (h : document.Distinct)

include h

/-- What a document stores for a field is found by membership, since its keys are distinct. -/
theorem stored?_eq_some_iff {f : Setting} {w : Toml.Value} :
    stored? document f = some w ↔ ∃ v, (f.sectionName, v) ∈ document ∧ (f.key, w) ∈ tableOf v := by
  simp only [stored?, Option.bind_eq_some_iff, lookup_eq_some_iff_mem h.keys]
  refine exists_congr fun v => and_congr_right fun hv => ?_
  exact lookup_eq_some_iff_mem (tableOf_distinct (h.values _ hv)).keys

theorem mem_rows_iff {a : Assignment} :
    a ∈ rows document ↔
      a.setting ∈ Setting.all ∧ ∃ w, stored? document a.setting = some w ∧
        a.setting.kind.Holds w a.value := by
  simp only [rows, sectionRow, List.mem_flatMap, mem_entryRow_iff, stored?_eq_some_iff h]
  constructor
  · rintro ⟨⟨name, v⟩, hsection, ⟨key, w⟩, hentry, hf, rfl, rfl, hv⟩
    exact ⟨hf, w, ⟨v, hsection, hentry⟩, hv⟩
  · rintro ⟨hf, w, ⟨v, hsection, hentry⟩, hv⟩
    exact ⟨_, hsection, _, hentry, hf, rfl, rfl, hv⟩

/-- A document assigns each field one value at most. -/
theorem rows_consistent : Consistent (rows document) where
  known a ha := ((mem_rows_iff h).mp ha).1
  single := by
    rintro ⟨f, v⟩ ha ⟨g, w⟩ hb (rfl : f = g)
    obtain ⟨-, x, hx, hv⟩ := (mem_rows_iff h).mp ha
    obtain ⟨-, y, hy, hw⟩ := (mem_rows_iff h).mp hb
    simp only [← SettingKind.ofToml?_eq_some_iff] at hx hy hv hw
    rw [hx, Option.some.injEq] at hy
    rw [← hy, hv, Option.some.injEq] at hw
    rw [hw]

/-- An entry of a document that fits holds a value of its kind. -/
theorem Fits.exists_holds (hfits : Fits document) {f : Setting} (hf : f ∈ Setting.all)
    {w : Toml.Value} (hw : stored? document f = some w) : ∃ v, f.kind.Holds w v := by
  obtain ⟨v, hsection, hentry⟩ := (stored?_eq_some_iff h).mp hw
  obtain ⟨-, entries, rfl, hall⟩ := hfits _ hsection
  obtain ⟨g, hg, -, hkey, hvalue⟩ := hall _ hentry
  obtain rfl := Setting.eq_of_key hg hf hkey
  exact hvalue

end Rows

/-! ### All layers -/

/-- The value of a setting: that of its variable if it is there, else that of its entry if there is
one, else the default one. -/
def Layered (document : Toml.Table) (env : Environment) (f : Setting) (v : f.kind.Value) : Prop :=
  match env.lookup f.variableName with
  | some raw => f.kind.ofText? raw = some v
  | none =>
    match stored? document f with
    | some w => f.kind.Holds w v
    | none => v = f.get {}

/-- The layers leave one value for a field. -/
theorem Layered.unique {document : Toml.Table} {env : Environment} {f : Setting}
    {v v' : f.kind.Value}
    (h : Layered document env f v) (h' : Layered document env f v') : v = v' := by
  unfold Layered at h h'
  cases hraw : env.lookup f.variableName with
  | some raw =>
      simp only [hraw] at h h'
      exact Option.some.inj (h.symm.trans h')
  | none =>
      cases hw : stored? document f with
      | some w =>
          simp only [hraw, hw, ← SettingKind.ofToml?_eq_some_iff] at h h'
          exact Option.some.inj (h.symm.trans h')
      | none =>
          simp only [hraw, hw] at h h'
          rw [h, h']

/-- Settings in which every field has its value. -/
structure Combined (document : Toml.Table) (env : Environment) (s : Settings) : Prop where
  fields : ∀ f ∈ Setting.all, Layered document env f (f.get s)
  named : s.parser.unnamedInclude = false

theorem Combined.unique {document : Toml.Table} {env : Environment} {s s' : Settings}
    (h : Combined document env s) (h' : Combined document env s') : s = s' :=
  eq_of_get (fun f hf => (h.fields f hf).unique (h'.fields f hf)) (h.named.trans h'.named.symm)

/-- The two rows of assignments give every field its value. -/
theorem combined_of_rows {document : Toml.Table} {env : Environment} (h : document.Distinct)
    (hfits : Fits document) (henv : ∀ f ∈ Setting.all, Coerces env f) :
    Combined document env ((overrides env).foldl assign ((rows document).foldl assign {})) where
  fields f hf := by
    unfold Layered
    cases hraw : env.lookup f.variableName with
    | some raw =>
        obtain ⟨v, hv⟩ := henv f hf raw hraw
        have hmem : ⟨f, v⟩ ∈ overrides env := mem_overrides_iff.mpr ⟨hf, raw, hraw, hv⟩
        exact hv.trans (congrArg some (get_foldl_of_mem (overrides_consistent env) hmem _).symm)
    | none =>
        have hfree : ∀ a ∈ overrides env, a.setting ≠ f := by
          rintro a ha rfl
          obtain ⟨-, raw, hsome, -⟩ := mem_overrides_iff.mp ha
          rw [hraw] at hsome
          cases hsome
        simp only [get_foldl_of_notMem (overrides_consistent env) hf hfree]
        cases hw : stored? document f with
        | some w =>
            obtain ⟨v, hv⟩ := hfits.exists_holds h hf hw
            have hmem : ⟨f, v⟩ ∈ rows document := (mem_rows_iff h).mpr ⟨hf, w, hw, hv⟩
            have hget : f.get ((rows document).foldl assign {}) = v :=
              get_foldl_of_mem (rows_consistent h) hmem {}
            rw [hget]
            exact hv
        | none =>
            have hfree : ∀ a ∈ rows document, a.setting ≠ f := by
              rintro a ha rfl
              obtain ⟨-, w, hsome, -⟩ := (mem_rows_iff h).mp ha
              rw [hw] at hsome
              cases hsome
            exact get_foldl_of_notMem (rows_consistent h) hf hfree _
  named :=
    unnamedInclude_foldl (overrides_consistent env)
      (.inl (unnamedInclude_foldl (rows_consistent h) (.inl rfl)))

/-! ### The check -/

/-- Settings that have a meaning. -/
structure Sound (s : Settings) : Prop where
  depth : 1 ≤ s.parser.maxImportDepth ∧ s.parser.maxImportDepth ≤ 100
  names : ∀ name ∈ s.extractor.commonQueryParams, Text.isName name.toList = true

theorem check_eq_ok_iff {s : Settings} : check s = .ok () ↔ Sound s := by
  have limit : maxDepthLimit = 100 := rfl
  simp only [check]
  by_cases hdepth : s.parser.maxImportDepth < 1 ∨ maxDepthLimit < s.parser.maxImportDepth
  · have unsound : ¬ Sound s := fun h => by
      have := h.depth
      omega
    rw [if_pos hdepth, iff_false_right unsound]
    split <;> simp
  · rw [if_neg hdepth]
    split
    · next name hname =>
        have unsound : ¬ Sound s := fun h => by
          have hbad := List.find?_some hname
          rw [h.names name (List.mem_of_find?_eq_some hname)] at hbad
          cases hbad
        simp [unsound]
    · next hnone =>
        have names : ∀ name ∈ s.extractor.commonQueryParams, Text.isName name.toList = true := by
          simpa using List.find?_eq_none.mp hnone
        simp only [true_iff]
        exact ⟨by omega, names⟩

/-! ### Loading -/

/-- The file that a path leads to holds a document. -/
def Stands (tree : Tree) (p : Path) (document : Toml.Table) : Prop :=
  ∃ bytes text, tree.bytes? p = some bytes ∧ String.fromUTF8? bytes = some text ∧
    Toml.parse text = .ok document

/-- The document that settings are loaded from: the one in a named file, else the one in the file
that is found, else an empty one. -/
inductive Configured (tree : Tree) : String → Toml.Table → Prop
  | named {path : String} {document : Toml.Table} (hpath : path ≠ "")
      (h : Stands tree (.ofText path) document) : Configured tree path document
  | found {p : Path} {document : Toml.Table} (hfind : find? tree (workingDirectory tree) = some p)
      (h : Stands tree p document) : Configured tree "" document
  | absent (hfind : find? tree (workingDirectory tree) = none) : Configured tree "" []

theorem Configured.distinct {tree : Tree} {path : String} {document : Toml.Table}
    (h : Configured tree path document) : document.Distinct := by
  cases h with
  | named _ h =>
      obtain ⟨-, text, -, -, hparse⟩ := h
      exact Toml.parse_distinct hparse
  | found _ h =>
      obtain ⟨-, text, -, -, hparse⟩ := h
      exact Toml.parse_distinct hparse
  | absent => exact .nil

theorem ofFile_of_stands {tree : Tree} {p : Path} {document : Toml.Table}
    (h : Stands tree p document) :
    ofFile tree p = (ofToml document).mapError .error := by
  obtain ⟨bytes, text, hbytes, htext, hparse⟩ := h
  simp [ofFile, hbytes, htext, hparse]

theorem base_of_configured {tree : Tree} {path : String} {document : Toml.Table}
    (h : Configured tree path document) : base tree path = (ofToml document).mapError .error := by
  cases h with
  | named hpath h =>
      have given : path.isEmpty = false := by simpa using hpath
      simp only [base, given, ofFile_of_stands h, Bool.false_eq_true, if_false]
  | found hfind h =>
      simp [base, hfind, ofFile_of_stands h]
  | absent hfind =>
      simp only [base, hfind]
      rfl

/-- Loading succeeds exactly if the document fits, all variables can be read and the settings are
sound. -/
theorem load_eq_ok_iff {tree : Tree} {path : String} {document : Toml.Table}
    (h : Configured tree path document) {env : Environment} {s : Settings} :
    load tree path env = .ok s ↔
      Fits document ∧ (∀ f ∈ Setting.all, Coerces env f) ∧ Combined document env s ∧ Sound s := by
  have layers : load tree path env = .ok s ↔
      ∃ t, ofToml document = .ok t ∧ mergeEnvironment env t = .ok () s ∧ check s = .ok () := by
    unfold load
    rw [base_of_configured h]
    cases hdocument : ofToml document with
    | error e => simp [Except.mapError, bind, Except.bind]
    | ok t =>
        simp only [Except.mapError, bind, Except.bind, Except.ok.injEq, exists_eq_left']
        cases hmerge : mergeEnvironment env t with
        | error e t' => simp
        | ok _ t' =>
            simp only [EStateM.Result.ok.injEq, true_and]
            cases hcheck : check t' with
            | error e =>
                refine ⟨(nomatch ·), ?_⟩
                rintro ⟨rfl, hok⟩
                rw [hcheck] at hok
                cases hok
            | ok _ =>
                refine ⟨fun hok => ?_, fun hok => congrArg Except.ok hok.1⟩
                cases hok
                exact ⟨rfl, hcheck⟩
  rw [layers]
  constructor
  · rintro ⟨t, hdocument, hmerge, hcheck⟩
    obtain ⟨hfits, rfl⟩ := ofToml_eq_ok_iff.mp hdocument
    obtain ⟨henv, rfl⟩ := mergeEnvironment_eq_ok_iff.mp hmerge
    exact ⟨hfits, henv, combined_of_rows h.distinct hfits henv, check_eq_ok_iff.mp hcheck⟩
  · rintro ⟨hfits, henv, hcombined, hsound⟩
    obtain rfl := hcombined.unique (combined_of_rows h.distinct hfits henv)
    exact ⟨_, ofToml_eq_ok_iff.mpr ⟨hfits, rfl⟩, mergeEnvironment_eq_ok_iff.mpr ⟨henv, rfl⟩,
      check_eq_ok_iff.mpr hsound⟩

/-! ### The order of entries -/

/-- Two sections that differ at most in the order of their entries. -/
inductive SameSection : String × Toml.Value → String × Toml.Value → Prop
  | refl (entry : String × Toml.Value) : SameSection entry entry
  | table {name : String} {entries entries' : Toml.Table} (h : entries.Perm entries') :
      SameSection (name, .table entries) (name, .table entries')

theorem SameSection.symm {entry entry' : String × Toml.Value} (h : SameSection entry entry') :
    SameSection entry' entry := by
  cases h with
  | refl => exact .refl _
  | table h => exact .table h.symm

theorem SameSection.name_eq {entry entry' : String × Toml.Value} (h : SameSection entry entry') :
    entry.1 = entry'.1 := by
  cases h <;> rfl

theorem SameSection.mem_tableOf {entry entry' : String × Toml.Value} (h : SameSection entry entry')
    {e : String × Toml.Value} (he : e ∈ tableOf entry.2) : e ∈ tableOf entry'.2 := by
  cases h with
  | refl => exact he
  | table h => exact h.mem_iff.mp he

/-- Whether a section fits does not depend on the order of its entries. -/
theorem SameSection.fits {entry entry' : String × Toml.Value} (h : SameSection entry entry')
    (hfits : SectionFits entry) : SectionFits entry' := by
  cases h with
  | refl => exact hfits
  | table h =>
      obtain ⟨hname, entries, heq, hall⟩ := hfits
      cases heq
      exact ⟨hname, _, rfl, fun e he => hall e (h.mem_iff.mpr he)⟩

/-- Every section of a document is one of the other, up to the order of its entries. -/
def Covers (document' document : Toml.Table) : Prop :=
  ∀ entry ∈ document, ∃ entry' ∈ document', SameSection entry entry'

theorem Covers.fits {document document' : Toml.Table} (h : Covers document' document)
    (hfits : Fits document') :
    Fits document := by
  intro entry hentry
  obtain ⟨entry', hentry', hsame⟩ := h entry hentry
  exact hsame.symm.fits (hfits entry' hentry')

/-- Documents with the same entries store the same for every field. -/
theorem Covers.stored? {document document' : Toml.Table} (h : Covers document' document)
    (hdistinct : document.Distinct) (hdistinct' : document'.Distinct) {f : Setting} {w : Toml.Value}
    (hw : stored? document f = some w) : stored? document' f = some w := by
  obtain ⟨v, hsection, hentry⟩ := (stored?_eq_some_iff hdistinct).mp hw
  obtain ⟨⟨name, v'⟩, hsection', hsame⟩ := h _ hsection
  obtain rfl : f.sectionName = name := hsame.name_eq
  exact (stored?_eq_some_iff hdistinct').mpr ⟨v', hsection', hsame.mem_tableOf hentry⟩

/-- Two documents that differ at most in the order of their sections and of the entries of each
section. -/
def Rearranged (document document' : Toml.Table) : Prop :=
  ∃ between, document.Perm between ∧ List.Forall₂ SameSection between document'

section Rearranged

variable {document document' : Toml.Table} (h : Rearranged document document')

include h

theorem Rearranged.covers : Covers document' document := by
  obtain ⟨between, hperm, hsame⟩ := h
  have hback : List.Forall₂ (flip SameSection) document' between := hsame.flip
  intro entry hentry
  exact exists_of_mem_forall₂ hback (hperm.mem_iff.mp hentry)

theorem Rearranged.covers_symm : Covers document document' := by
  obtain ⟨between, hperm, hsame⟩ := h
  intro entry' hentry'
  obtain ⟨entry, hentry, heq⟩ := exists_of_mem_forall₂ hsame hentry'
  exact ⟨entry, hperm.mem_iff.mpr hentry, heq.symm⟩

theorem Rearranged.fits_iff : Fits document ↔ Fits document' :=
  ⟨h.covers_symm.fits, h.covers.fits⟩

/-- The settings do not depend on the order of sections and entries. -/
theorem Rearranged.combined_iff (hdistinct : document.Distinct) (hdistinct' : document'.Distinct)
    {env : Environment} {s : Settings} : Combined document env s ↔ Combined document' env s := by
  have entries : ∀ f, stored? document f = stored? document' f := by
    intro f
    ext w
    exact ⟨h.covers.stored? hdistinct hdistinct', h.covers_symm.stored? hdistinct' hdistinct⟩
  have layered : ∀ f v, Layered document env f v ↔ Layered document' env f v := by
    intro f v
    simp only [Layered, entries]
  constructor
  · intro hs
    exact ⟨fun f hf => (layered f _).mp (hs.fields f hf), hs.named⟩
  · intro hs
    exact ⟨fun f hf => (layered f _).mpr (hs.fields f hf), hs.named⟩

end Rearranged

/-- **Settings are layered field by field.** They are loaded if the document fits, every variable
stands for a value and the outcome has a meaning. Each field then holds the value of its own layers,
which is one and the same in whatever order the document has its entries. -/
theorem load_layers_fields {tree : Tree} {path : String} {document : Toml.Table}
    (h : Configured tree path document) (env : Environment) :
    (∀ s, load tree path env = .ok s ↔
      Fits document ∧ (∀ f ∈ Setting.all, Coerces env f) ∧ Combined document env s ∧ Sound s) ∧
    (Fits document → (∀ f ∈ Setting.all, Coerces env f) → ∃! s, Combined document env s) ∧
    ∀ (tree' : Tree) (path' : String) (document' : Toml.Table), Configured tree' path' document' →
      Rearranged document document' → ∀ s, load tree path env = .ok s ↔
        load tree' path' env = .ok s := by
  refine ⟨fun s => load_eq_ok_iff h, ?_, ?_⟩
  · intro hfits henv
    exact ⟨_, combined_of_rows h.distinct hfits henv,
      fun s hs => hs.unique (combined_of_rows h.distinct hfits henv)⟩
  · intro tree' path' document' h' hsame s
    rw [load_eq_ok_iff h, load_eq_ok_iff h', hsame.fits_iff,
      hsame.combined_iff h.distinct h'.distinct]

/-- A working directory with one file. -/
def oneFile (text : String) : Tree where
  cwd := ["work"]
  entries := [(["work"], .directory), (["work", "settings.toml"], .file text.toUTF8)]

theorem configured_oneFile {text : String} {document : Toml.Table}
    (hbytes : String.fromUTF8? text.toUTF8 = some text) (h : Toml.parse text = .ok document) :
    Configured (oneFile text) "settings.toml" document :=
  .named (by decide) ⟨text.toUTF8, text, rfl, hbytes, h⟩

/-- Two flags in one section. -/
def twoFlags (k k' : String) (b b' : Bool) : Toml.Table :=
  [("parser", .table [(k, .boolean b), (k', .boolean b')])]

theorem parse_of_flags {text k k' : String} {b b' : Bool}
    (h : (Toml.parse text).toOption.map (fun document => document.map fun part =>
      (part.1, (tableOf part.2).map fun e => (e.1, SettingKind.flag.ofToml? e.2))) =
        some [("parser", [(k, some b), (k', some b')])]) :
    Toml.parse text = .ok (twoFlags k k' b b') := by
  obtain ⟨document, hparse, hshape⟩ := Grammar.exists_ok_of_toOption h
  simp only [List.map_eq_cons_iff, List.map_eq_nil_iff, Prod.mk.injEq] at hshape
  obtain ⟨⟨_, v⟩, _, rfl, ⟨rfl, ⟨l, w⟩, _, htable, ⟨rfl, hw⟩, ⟨l', w'⟩, _, rfl, ⟨rfl, hw'⟩, rfl⟩,
    rfl⟩ := hshape
  obtain rfl : w = .boolean b := SettingKind.ofToml?_eq_some_iff.mp hw
  obtain rfl : w' = .boolean b' := SettingKind.ofToml?_eq_some_iff.mp hw'
  have hv : v = .table [(l, .boolean b), (l', .boolean b')] := by
    cases v with
    | table entries => exact congrArg Toml.Value.table htable
    | _ => cases htable
  rw [hparse, hv]
  rfl

/-- A flag of the document, a flag of the environment over one of the document, and the others by
default. The document has its entries in one order or the other. -/
theorem load_layers_fields_reordered :
    let env := [("PROTOC_REST_STRICT_VALIDATION", " Yes ")]
    let tree := oneFile "[parser]\nresolve_imports=false\nstrict_validation=false"
    let tree' := oneFile "[parser]\nstrict_validation=false\nresolve_imports=false"
    ∃ document document' s, Configured tree "settings.toml" document ∧
      Configured tree' "settings.toml" document' ∧ document ≠ document' ∧
        Rearranged document document' ∧
      Combined document env s ∧ s.parser.resolveImports = false ∧ s.parser.strictValidation = true ∧
      load tree "settings.toml" env = .ok s ∧ load tree' "settings.toml" env = .ok s := by
  intro env tree tree'
  have h :
      Configured tree "settings.toml"
      (twoFlags "resolve_imports" "strict_validation" false false) :=
    configured_oneFile rfl (parse_of_flags (by decide +kernel))
  have h' :
      Configured tree' "settings.toml"
      (twoFlags "strict_validation" "resolve_imports" false false) :=
    configured_oneFile rfl (parse_of_flags (by decide +kernel))
  have hsame : Rearranged (twoFlags "resolve_imports" "strict_validation" false false)
      (twoFlags "strict_validation" "resolve_imports" false false) :=
    ⟨_, .refl _, .cons (.table (.swap _ _ _)) .nil⟩
  have hload : load tree "settings.toml" env = .ok { parser := { resolveImports := false } } := by
    decide +kernel
  have layers := load_layers_fields h env
  obtain ⟨-, -, hcombined, -⟩ := (layers.1 _).mp hload
  exact ⟨_, _, _, h, h', by simp [twoFlags], hsame, hcombined, rfl, rfl, hload,
    (layers.2.2 _ _ _ h' hsame _).mp hload⟩

end Settings

end ProtoRoutes
