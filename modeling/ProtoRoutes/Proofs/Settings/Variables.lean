import ProtoRoutes.Proofs.Files.Names
import ProtoRoutes.Proofs.Http.Templates
import ProtoRoutes.Proofs.Settings.Fields
import ProtoRoutes.Proofs.Text.Ascii
import ProtoRoutes.Proofs.Text.Trimming
import ProtoRoutes.Proofs.Toml.DistinctKeys

/-!
# ProtoRoutes.Proofs.Settings.Variables

Settings as environment variables. `SettingKind.Writes` says which texts are written for a value,
and each of them stands for it (`SettingKind.ofText?_of_writes`). An environment that has such a
text for every setting leaves nothing of the settings that it overrides.
-/

namespace ProtoRoutes

namespace Text

/-! ### Letters and digits -/

/-- The part of ASCII that has the digits and all letters. -/
def isPlain (c : Char) : Bool :=
  0x30 ≤ c.toNat && c.toNat < 0x80

theorem isPlain_iff {c : Char} : isPlain c = true ↔ 0x30 ≤ c.toNat ∧ c.toNat < 0x80 := by
  simp [isPlain]

theorem isBlank_of_isPlain {c : Char} (h : isPlain c = true) : isBlank c = false := by
  have codes := isPlain_iff.mp h
  simp [isBlank, blankRanges, CodeRanges.contains]
  omega

theorem isPlain_of_toLower {c : Char} (h : isPlain c.toLower = true) : isPlain c = true := by
  unfold Char.toLower at h
  split at h
  · next hupper =>
      obtain ⟨low, high⟩ := hupper
      rw [ge_iff_le, UInt32.le_iff_toNat_le] at low
      rw [UInt32.le_iff_toNat_le] at high
      have low : 65 ≤ c.toNat := low
      have high : c.toNat ≤ 90 := high
      exact isPlain_iff.mpr (by omega)
  · exact h

theorem isPlain_of_isDigit {c : Char} (h : c.isDigit = true) : isPlain c = true := by
  have codes : 48 ≤ c.toNat ∧ c.toNat ≤ 57 := Char.isDigit_iff_toNat.mp h
  exact isPlain_iff.mpr (by omega)

theorem digitValue?_of_isDigit {c : Char} (h : c.isDigit = true) :
    digitValue? c = some (c.toNat - '0'.toNat) := by
  have codes : 48 ≤ c.toNat ∧ c.toNat ≤ 57 := Char.isDigit_iff_toNat.mp h
  have first : c.toNat < 48 + 10 := by omega
  simp [digitValue?, digitZeros, codes.1, first]

end Text

namespace SettingKind

open Text (Padded Tight)

/-- Texts that come apart again where a separator is put between them. -/
def Separable (sep : Char) (texts : List String) : Prop :=
  ∀ t ∈ texts, t ≠ "" ∧ sep ∉ t.toList ∧ Tight t.toList

/-- The values that a text can stand for. -/
def Writable : (kind : SettingKind) → kind.Value → Prop
  | flag, _ => True
  | number, n => (Nat.toDigits 10 n.natAbs).length ≤ 4300
  | paths, ps => Separable ':' ps
  | names, ns => Separable ',' ns

/-- The words for a truth value. -/
def words (b : Bool) : List String :=
  if b then ["true", "1", "yes", "on"] else ["false", "0", "no", "off"]

/-- The texts for a value. -/
def Writes : (kind : SettingKind) → kind.Value → List Char → Prop
  | flag, b, w => String.ofList (w.map Char.toLower) ∈ words b
  | number, n, w => w = (toString n).toList
  | paths, ps, w => w = [':'].intercalate (ps.map String.toList)
  | names, ns, w => ∃ pieces, List.Forall₂ (fun n p => Padded n.toList p) ns pieces ∧
    w = [','].intercalate pieces

/-! ### Truth values -/

theorem isPlain_of_words {b : Bool} {w : List Char}
    (h : String.ofList (w.map Char.toLower) ∈ words b) :
    ∀ c ∈ w, Text.isPlain c = true := by
  have letters : ∀ b, (words b).all (fun word => word.toList.all Text.isPlain) = true := by decide
  intro c hc
  apply Text.isPlain_of_toLower
  apply List.all_eq_true.mp (List.all_eq_true.mp (letters b) _ h)
  rw [String.toList_ofList]
  exact List.mem_map_of_mem hc

/-- The words for a truth value are read in any case. -/
theorem flag?_of_words {b : Bool} {w : List Char}
    (h : String.ofList (w.map Char.toLower) ∈ words b) :
    flag? w = some b := by
  have ascii : ∀ c ∈ w, c.toNat < 0x80 := by
    intro c hc
    exact (Text.isPlain_iff.mp (isPlain_of_words h c hc)).2
  rw [flag?, Text.lower, Text.lowerFrom_ascii ascii]
  generalize String.ofList (w.map Char.toLower) = word at h
  revert h
  cases b <;> revert word <;> decide

/-! ### Numbers -/

theorem digits?_of_digits {ds : List Char} (hsome : ds ≠ []) (h : ∀ c ∈ ds, c.isDigit = true) :
    digits? ds = some (ds.map fun c => c.toNat - '0'.toNat) := by
  induction ds with
  | nil => exact absurd rfl hsome
  | cons c ds ih =>
      obtain ⟨hc, hds⟩ := List.forall_mem_cons.mp h
      cases ds with
      | nil => simp [digits?, Text.digitValue?_of_isDigit hc]
      | cons d rest =>
          have hd : d ≠ '_' := by
            rintro rfl
            exact absurd (hds '_' List.mem_cons_self) (by decide)
          rw [digits?, Text.digitValue?_of_isDigit hc, if_neg hd, ih (by simp) hds]
          rfl

theorem natural?_toDigits {n : Nat} (h : (Nat.toDigits 10 n).length ≤ 4300) :
    natural? (Nat.toDigits 10 n) = some n := by
  have hdigits : ∀ c ∈ Nat.toDigits 10 n, c.isDigit = true :=
    fun c hc => Nat.isDigit_of_mem_toDigits (by decide) (by decide) hc
  have hlength : ¬ Number.maxDecimalDigits < (Nat.toDigits 10 n).length := Nat.not_lt.mpr h
  have hvalue : (Nat.toDigits 10 n).foldl (fun m c => m * 10 + (c.toNat - '0'.toNat)) 0 = n := by
    simpa [Nat.ofDigitChars_eq_foldl, Nat.mul_comm] using @Nat.ofDigitChars_ten_toDigits n
  rw [natural?, digits?_of_digits Nat.toDigits_ne_nil hdigits, Option.bind_some, List.length_map,
    if_neg hlength, List.foldl_map, hvalue]

theorem integer?_of_digits {ds : List Char} (h : ∀ c ∈ ds, c.isDigit = true) :
    integer? ds = (natural? ds).map Int.ofNat := by
  unfold integer?
  split
  · exact absurd (h '-' List.mem_cons_self) (by decide)
  · exact absurd (h '+' List.mem_cons_self) (by decide)
  · rfl

/-- How an integer is written. -/
theorem toList_toString (n : Int) :
    (toString n).toList = (if n < 0 then ['-'] else []) ++ Nat.toDigits 10 n.natAbs := by
  cases n with
  | ofNat n =>
      show (toString n).toList = _
      simp [toString, Nat.repr]
  | negSucc n =>
      show ("-" ++ toString (n + 1)).toList = _
      simp [toString, Nat.repr]

/-- A number is read back from its digits. -/
theorem integer?_toString {n : Int} (h : (Nat.toDigits 10 n.natAbs).length ≤ 4300) :
    integer? (toString n).toList = some n := by
  have hdigits : ∀ c ∈ Nat.toDigits 10 n.natAbs, c.isDigit = true :=
    fun c hc => Nat.isDigit_of_mem_toDigits (by decide) (by decide) hc
  rw [toList_toString]
  by_cases hneg : n < 0
  · have value : -(n.natAbs : Int) = n := by omega
    simp only [if_pos hneg, List.singleton_append, integer?, natural?_toDigits h]
    exact congrArg some value
  · have value : Int.ofNat n.natAbs = n := Int.natAbs_of_nonneg (Int.not_lt.mp hneg)
    rw [if_neg hneg, List.nil_append, integer?_of_digits hdigits, natural?_toDigits h,
      Option.map_some, value]

theorem isBlank_of_mem_toString {n : Int} {c : Char} (h : c ∈ (toString n).toList) :
    Text.isBlank c = false := by
  rw [toList_toString, List.mem_append] at h
  rcases h with hsign | hdigit
  · have hminus : c = '-' := by
      split at hsign <;> simp_all
    rw [hminus]
    decide
  · have hc : c.isDigit = true := Nat.isDigit_of_mem_toDigits (by decide) (by decide) hdigit
    exact Text.isBlank_of_isPlain (Text.isPlain_of_isDigit hc)

/-! ### Lists -/

/-- Paths without colons are told apart again. -/
theorem splitPaths_intercalate {ps : List String} (h : Separable ':' ps) :
    splitPaths ([':'].intercalate (ps.map String.toList)) = ps := by
  have hpieces : ∀ p ∈ ps.map String.toList, p ≠ [] ∧ ':' ∉ p := by
    intro p hp
    obtain ⟨t, ht, rfl⟩ := List.mem_map.mp hp
    exact ⟨by simpa using (h t ht).1, (h t ht).2.1⟩
  rw [splitPaths, Files.filter_splitOn_pieces hpieces, List.map_map]
  simp

/-- Names are told apart by commas, with any blanks around them. -/
theorem splitNames_of_pieces {ns : List String} (h : Separable ',' ns) {pieces : List (List Char)}
    (hpieces : List.Forall₂ (fun n p => Padded n.toList p) ns pieces) {cs : List Char}
    (hcs : Padded ([','].intercalate pieces) cs) : splitNames (Text.trim cs) = ns := by
  have hsep : Text.isBlank ',' = false := by decide
  -- Trimming the whole text takes blanks off its first and last piece, which are trimmed
  -- themselves.
  have hsplit : ((Text.trim cs).splitOn ',').map Text.trim =
      (([','].intercalate pieces).splitOn ',').map Text.trim := by
    rw [← Text.map_trim_splitOn hsep (Text.padded_trim cs), Text.map_trim_splitOn hsep hcs]
  have hread : List.Forall₂ (fun n p => n.toList = Text.trim p ∧ ',' ∉ p) ns pieces := by
    refine ((List.forall₂_and_left ns pieces).mpr ⟨h, hpieces⟩).imp fun n p hboth => ?_
    obtain ⟨⟨-, hcomma, htight⟩, hpadded⟩ := hboth
    exact ⟨by rw [Text.trim_of_padded hpadded, Text.trim_of_tight htight],
      hpadded.notMem hsep hcomma⟩
  have hwords : pieces.map Text.trim = ns.map String.toList := by
    rw [eq_comm, ← List.forall₂_eq_eq_eq, List.forall₂_map_left_iff, List.forall₂_map_right_iff]
    exact hread.imp fun _ _ hboth => hboth.1
  have hfilled : (ns.map String.toList).filter (!·.isEmpty) = ns.map String.toList := by
    refine List.filter_eq_self.mpr fun cs hcs => ?_
    obtain ⟨n, hn, rfl⟩ := List.mem_map.mp hcs
    simpa using (h n hn).1
  rw [splitNames, hsplit]
  cases pieces with
  | nil =>
      cases hpieces
      rfl
  | cons p pieces =>
      have hcommas : ∀ q ∈ p :: pieces, ',' ∉ q := by
        intro q hq
        obtain ⟨n, -, -, hq⟩ := exists_of_mem_forall₂ hread hq
        exact hq
      rw [List.splitOn_intercalate ',' hcommas (by simp), hwords, hfilled, List.map_map]
      simp

/-! ### Values of all kinds -/

/-- **A text that is written for a value stands for it**, with blanks around it or without. -/
theorem ofText?_of_writes {kind : SettingKind} {v : kind.Value} (hv : kind.Writable v)
    {w : List Char} (hw : kind.Writes v w) {raw : String} (hraw : Padded w raw.toList) :
      kind.ofText? raw = some v := by
  have htrim := Text.trim_of_padded hraw
  cases kind with
  | flag =>
      have hvisible : ∀ c ∈ w, Text.isBlank c = false :=
        fun c hc => Text.isBlank_of_isPlain (isPlain_of_words hw c hc)
      show flag? (Text.trim raw.toList) = some v
      rw [htrim, Text.trim_of_tight (.of_visible hvisible), flag?_of_words hw]
  | number =>
      obtain rfl : w = (toString v).toList := hw
      have hvisible : ∀ c ∈ (toString v).toList, Text.isBlank c = false :=
        fun c hc => isBlank_of_mem_toString hc
      show integer? (Text.trim raw.toList) = some v
      rw [htrim, Text.trim_of_tight (.of_visible hvisible), integer?_toString hv]
  | paths =>
      obtain rfl : w = [':'].intercalate (v.map String.toList) := hw
      have hpieces : ∀ p ∈ v.map String.toList, p ≠ [] ∧ Tight p := by
        intro p hp
        obtain ⟨t, ht, rfl⟩ := List.mem_map.mp hp
        exact ⟨by simpa using (hv t ht).1, (hv t ht).2.2⟩
      show some (splitPaths (Text.trim raw.toList)) = some v
      rw [htrim, Text.trim_of_tight (Text.tight_intercalate hpieces), splitPaths_intercalate hv]
  | names =>
      obtain ⟨pieces, hpieces, rfl⟩ := hw
      exact congrArg some (splitNames_of_pieces hv hpieces hraw)

/-- The plain text for a value. -/
def write : (kind : SettingKind) → kind.Value → String
  | flag, b => toString b
  | number, n => toString n
  | paths, ps => ":".intercalate ps
  | names, ns => ",".intercalate ns

/-- Every value has a text that it is read from. -/
theorem writes_write {kind : SettingKind} (v : kind.Value) :
    kind.Writes v (kind.write v).toList := by
  cases kind with
  | flag =>
      have plain : ∀ b : Bool, String.ofList ((toString b).toList.map Char.toLower) ∈ words b := by
        decide
      exact plain v
  | number => rfl
  | paths => exact String.toList_intercalate
  | names =>
      refine ⟨v.map String.toList, ?_, String.toList_intercalate⟩
      rw [List.forall₂_map_right_iff, List.forall₂_same]
      exact fun n _ => .refl n.toList

end SettingKind

/-! ### Environments -/

theorem Setting.eq_of_variableName {f g : Setting} (hf : f ∈ Setting.all) (hg : g ∈ Setting.all)
    (h : f.variableName = g.variableName) : f = g :=
  List.inj_on_of_nodup_map Setting.variableNames_nodup hf hg h

namespace Settings

open Text (Padded)

/-- Settings whose values can all be written. -/
structure Expressible (c : Settings) : Prop where
  includePaths : SettingKind.Separable ':' c.parser.includePaths
  queryParams : SettingKind.Separable ',' c.extractor.commonQueryParams
  depth : (Nat.toDigits 10 c.parser.maxImportDepth.natAbs).length ≤ 4300
  named : c.parser.unnamedInclude = false

theorem Expressible.writable {c : Settings} (hc : Expressible c) {f : Setting}
    (hf : f ∈ Setting.all) :
    f.kind.Writable (f.get c) := by
  refine @Setting.forall_all (fun f => f.kind.Writable (f.get c)) ?_ f hf
  simp [Setting.all, Setting.parser, Setting.extractor, Setting.generator, SettingKind.Writable,
    hc.includePaths, hc.queryParams, hc.depth]

/-- An environment with a text for every value of some settings. -/
def Spells (env : Environment) (c : Settings) : Prop :=
  ∀ f ∈ Setting.all, ∃ raw w, env.lookup f.variableName = some raw ∧ f.kind.Writes (f.get c) w ∧
    Padded w raw.toList

/-- The plain environment for some settings. -/
def environment (c : Settings) : Environment :=
  Setting.all.map fun f => (f.variableName, f.kind.write (f.get c))

/-- The environment of some settings spells them. -/
theorem spells_environment (c : Settings) : Spells (environment c) c := by
  intro f hf
  have once : ((environment c).map Prod.fst).Nodup := by
    rw [environment, List.map_map]
    exact Setting.variableNames_nodup
  refine ⟨f.kind.write (f.get c), _, ?_, SettingKind.writes_write _, .refl _⟩
  exact (lookup_eq_some_iff_mem once).mpr (List.mem_map_of_mem hf)

/-- A variable in front of the others counts. -/
theorem Spells.cons {env : Environment} {c : Settings} (h : Spells env c) {f : Setting}
    (hf : f ∈ Setting.all)
    {raw : String} {w : List Char} (hw : f.kind.Writes (f.get c) w) (hraw : Padded w raw.toList) :
    Spells ((f.variableName, raw) :: env) c := by
  intro g hg
  by_cases heq : g.variableName = f.variableName
  · obtain rfl := Setting.eq_of_variableName hg hf heq
    exact ⟨raw, w, by simp, hw, hraw⟩
  · have other : (g.variableName == f.variableName) = false := by simpa using heq
    rw [List.lookup_cons, other]
    exact h g hg

theorem exists_ofText?_of_spells {env : Environment} {c : Settings} (hc : Expressible c)
    (h : Spells env c) {f : Setting} (hf : f ∈ Setting.all) :
    ∃ raw, env.lookup f.variableName = some raw ∧ f.kind.ofText? raw = some (f.get c) := by
  obtain ⟨raw, w, hlookup, hw, hraw⟩ := h f hf
  exact ⟨raw, hlookup, SettingKind.ofText?_of_writes (hc.writable hf) hw hraw⟩

/-- **The environment can express all settings.** Whatever way the values of some settings are
written, reading them makes these settings out of any others. -/
theorem environment_expresses_settings {c : Settings} (hc : Expressible c) :
    Spells (environment c) c ∧
      ∀ env, Spells env c → ∀ s : Settings, mergeEnvironment env s = .ok () c := by
  refine ⟨spells_environment c, fun env h s => ?_⟩
  have stands := fun f hf => @exists_ofText?_of_spells env c hc h f hf
  have assigned : ∀ f ∈ Setting.all, ⟨f, f.get c⟩ ∈ overrides env := by
    intro f hf
    exact mem_overrides_iff.mpr ⟨hf, stands f hf⟩
  have consistent := overrides_consistent env
  refine mergeEnvironment_eq_ok_iff.mpr ⟨?_, eq_of_get ?_ ?_⟩
  · intro f hf raw hlookup
    obtain ⟨raw', hlookup', hv⟩ := stands f hf
    rw [hlookup, Option.some.injEq] at hlookup'
    exact ⟨_, hlookup' ▸ hv⟩
  · intro f hf
    exact (get_foldl_of_mem consistent (assigned f hf) s).symm
  · -- The include paths are assigned, and with them goes a directory without a name.
    rw [hc.named]
    exact (unnamedInclude_foldl consistent (.inr ⟨_, assigned _ List.mem_cons_self, rfl⟩)).symm

/-- Settings with no directories, a negative depth and two names. -/
def sample : Settings :=
  { parser := { includePaths := [], maxImportDepth := -120, preserveComments := false },
    extractor := { commonQueryParams := ["größe", "q s"] } }

/-- Blanks, a mixture of cases and an empty list. -/
theorem environment_expresses_sample :
    Expressible sample ∧
      mergeEnvironment (("PROTOC_REST_COMMON_QUERY_PARAMS", "\tgröße ,q s  ") ::
        ("PROTOC_REST_PRESERVE_COMMENTS", " oFF\n") :: environment sample)
        { parser.unnamedInclude := true } = .ok () sample := by
  have expressible : Expressible sample := by
    refine ⟨by simp [SettingKind.Separable, sample], ?_, by decide, rfl⟩
    intro t ht
    simp only [sample, List.mem_cons, List.not_mem_nil, or_false] at ht
    rcases ht with rfl | rfl
    · exact ⟨by decide, by decide, ⟨by simp; decide, by simp; decide⟩⟩
    · exact ⟨by decide, by decide, ⟨by simp; decide, by simp; decide⟩⟩
  have blanks (cs : List Char) (h : cs.all Text.isBlank = true) : ∀ c ∈ cs, Text.isBlank c = true :=
    List.all_eq_true.mp h
  have flag : Padded "oFF".toList " oFF\n".toList :=
    ⟨[' '], ['\n'], rfl, blanks _ (by decide), blanks _ (by decide)⟩
  have names : Padded "\tgröße ,q s".toList "\tgröße ,q s  ".toList :=
    ⟨[], [' ', ' '], rfl, blanks _ (by decide), blanks _ (by decide)⟩
  have name : Padded "größe".toList "\tgröße ".toList :=
    ⟨['\t'], [' '], rfl, blanks _ (by decide), blanks _ (by decide)⟩
  have hflag : Setting.all[1] ∈ Setting.all := List.getElem_mem _
  have hnames : Setting.all[7] ∈ Setting.all := List.getElem_mem _
  obtain ⟨plain, express⟩ := environment_expresses_settings expressible
  refine ⟨expressible, express _ ((plain.cons hflag ?_ flag).cons hnames ?_ names) _⟩
  · show String.ofList ("oFF".toList.map Char.toLower) ∈ SettingKind.words false
    decide
  · exact ⟨["\tgröße ".toList, "q s".toList], .cons name (.cons (.refl _) .nil), rfl⟩

end Settings

end ProtoRoutes
