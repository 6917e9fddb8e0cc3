import Mathlib.Data.List.Nodup
import Mathlib.Data.List.Pairwise
import ProtoRoutes.Settings.Load

/-!
# ProtoRoutes.Proofs.Settings.Fields

Settings as fields that do not touch each other. Each of them gives back what it was set to, and
setting one leaves the others as they are; what all fields hold decides the settings. So the outcome
of a row of assignments can be said for each field on its own, as long as no field is assigned two
different values.

The environment makes such a row: it assigns the fields whose variable is there.
-/

namespace ProtoRoutes

namespace Setting

/-! ### Fields -/

/-- Two settings that do not touch each other. -/
structure Apart (f g : Setting) : Prop where
  left : ∀ v s, f.get (g.set v s) = f.get s
  right : ∀ v s, g.get (f.set v s) = g.get s

instance : Std.Symm Apart := ⟨fun _ _ h => ⟨h.right, h.left⟩⟩

theorem apart_all : all.Pairwise Apart := by
  simp only [all, parser, extractor, generator, List.cons_append, List.nil_append,
    List.pairwise_cons,
    List.forall_mem_cons, List.not_mem_nil, false_implies, implies_true, and_true,
    List.Pairwise.nil]
  repeat' constructor
  all_goals exact fun v s => rfl

theorem keys_nodup : (all.map key).Nodup := by decide

theorem variableNames_nodup : (all.map variableName).Nodup := by decide

/-- A property of settings holds of all of them if it holds of each. -/
theorem forall_all {p : Setting → Prop} (h : List.Forall p all) {f : Setting}
    (hf : f ∈ all) : p f :=
  List.forall_iff_forall_mem.mp h f hf

variable {f g : Setting}

/-- A setting gives back what it was set to. -/
theorem get_set (hf : f ∈ all) (v : f.kind.Value) (s : Settings) : f.get (f.set v s) = v := by
  refine @forall_all (fun f => ∀ v s, f.get (f.set v s) = v) ?_ f hf v s
  repeat' constructor
  all_goals exact fun v s => rfl

/-- Directories that are named replace one that is not. -/
theorem unnamedInclude_set (hf : f ∈ all) (v : f.kind.Value) (s : Settings) :
    (f.set v s).parser.unnamedInclude = (s.parser.unnamedInclude && f.key ≠ "include_paths") := by
  refine @forall_all
    (fun f => ∀ (v : f.kind.Value) (s : Settings), (f.set v s).parser.unnamedInclude =
    (s.parser.unnamedInclude && f.key ≠ "include_paths")) ?_ f hf v s
  repeat' constructor
  all_goals simp

theorem eq_of_key (hf : f ∈ all) (hg : g ∈ all) (h : f.key = g.key) : f = g :=
  List.inj_on_of_nodup_map keys_nodup hf hg h

theorem get_set_of_ne (hf : f ∈ all) (hg : g ∈ all) (h : f ≠ g) (v : f.kind.Value) (s : Settings) :
    g.get (f.set v s) = g.get s :=
  (apart_all.forall hf hg h).right v s

end Setting

namespace Settings

/-- What all fields hold decides the settings. -/
theorem eq_of_get {s s' : Settings} (h : ∀ f ∈ Setting.all, f.get s = f.get s')
    (hinclude : s.parser.unnamedInclude = s'.parser.unnamedInclude) : s = s' := by
  simp only [Setting.all, Setting.parser, Setting.extractor, Setting.generator, List.cons_append,
    List.nil_append, List.forall_mem_cons, List.not_mem_nil, false_implies, implies_true, and_true]
    at h
  obtain ⟨⟨_⟩, ⟨_⟩, ⟨_⟩⟩ := s
  obtain ⟨⟨_⟩, ⟨_⟩, ⟨_⟩⟩ := s'
  simp_all

/-! ### Rows of assignments -/

/-- A setting with a value for it. -/
structure Assignment where
  setting : Setting
  value : setting.kind.Value

/-- The settings with one assignment. -/
def assign (s : Settings) (a : Assignment) : Settings := a.setting.set a.value s

/-- Assignments to fields, none of which is given two values. -/
structure Consistent (as : List Assignment) : Prop where
  known : ∀ a ∈ as, a.setting ∈ Setting.all
  single : ∀ a ∈ as, ∀ b ∈ as, a.setting = b.setting → a = b

theorem Consistent.tail {a : Assignment} {as : List Assignment} (h : Consistent (a :: as)) :
    Consistent as :=
  ⟨fun b hb => h.known b (List.mem_cons_of_mem a hb),
    fun b hb c hc => h.single b (List.mem_cons_of_mem a hb) c (List.mem_cons_of_mem a hc)⟩

variable {as : List Assignment}

theorem get_foldl_of_notMem (h : Consistent as) {f : Setting} (hf : f ∈ Setting.all)
    (hfree : ∀ a ∈ as, a.setting ≠ f) (s : Settings) : f.get (as.foldl assign s) = f.get s := by
  induction as generalizing s with
  | nil => rfl
  | cons a as ih =>
      rw [List.foldl_cons, ih h.tail fun b hb => hfree b (List.mem_cons_of_mem a hb)]
      exact Setting.get_set_of_ne (h.known a List.mem_cons_self) hf (hfree a List.mem_cons_self) _ _

theorem get_foldl_of_mem (h : Consistent as) {a : Assignment} (ha : a ∈ as) (s : Settings) :
    a.setting.get (as.foldl assign s) = a.value := by
  induction as generalizing s with
  | nil => cases ha
  | cons b as ih =>
      by_cases hlater : a ∈ as
      · exact ih h.tail hlater _
      · -- Then no later assignment goes to the same field, because it would be this one.
        have hab : a = b := (List.mem_cons.mp ha).resolve_right hlater
        subst hab
        have hknown := h.known a List.mem_cons_self
        have hfree : ∀ c ∈ as, c.setting ≠ a.setting := by
          intro c hc heq
          exact hlater (h.single c (List.mem_cons_of_mem a hc) a List.mem_cons_self heq ▸ hc)
        rw [List.foldl_cons, get_foldl_of_notMem h.tail hknown hfree]
        exact Setting.get_set hknown _ _

theorem unnamedInclude_foldl (h : Consistent as) {s : Settings}
    (hnamed : s.parser.unnamedInclude = false ∨ ∃ a ∈ as, a.setting.key = "include_paths") :
    (as.foldl assign s).parser.unnamedInclude = false := by
  induction as generalizing s with
  | nil => simpa using hnamed
  | cons a as ih =>
      refine ih h.tail ?_
      have hset := Setting.unnamedInclude_set (h.known a List.mem_cons_self) a.value s
      rcases hnamed with hnamed | ⟨b, hb, hkey⟩
      · exact .inl (by rw [assign, hset, hnamed]; rfl)
      · rcases List.mem_cons.mp hb with rfl | hb
        · exact .inl (by rw [assign, hset]; simp [hkey])
        · exact .inr ⟨b, hb, hkey⟩

/-! ### The environment -/

/-- The variable of a setting, if it is there, stands for a value. -/
def Coerces (env : Environment) (f : Setting) : Prop :=
  ∀ raw, env.lookup f.variableName = some raw → ∃ v, f.kind.ofText? raw = some v

/-- What the environment assigns to a setting. -/
def override? (env : Environment) (f : Setting) : Option Assignment :=
  (env.lookup f.variableName).bind fun raw => (f.kind.ofText? raw).map (⟨f, ·⟩)

theorem override?_eq_some_iff {env : Environment} {f : Setting} {a : Assignment} :
    override? env f = some a ↔
      a.setting = f ∧ ∃ raw, env.lookup f.variableName = some raw ∧
        a.setting.kind.ofText? raw = some a.value := by
  constructor
  · intro h
    obtain ⟨raw, hraw, h⟩ := Option.bind_eq_some_iff.mp h
    obtain ⟨v, hv, rfl⟩ := Option.map_eq_some_iff.mp h
    exact ⟨rfl, raw, hraw, hv⟩
  · rintro ⟨rfl, raw, hraw, hv⟩
    simp [override?, hraw, hv]

theorem overrideBy_eq_ok_iff {env : Environment} {f : Setting} {s s' : Settings} :
    overrideBy env f s = .ok () s' ↔
      Coerces env f ∧ s' = (override? env f).toList.foldl assign s := by
  cases hraw : env.lookup f.variableName with
  | none => simp [overrideBy, Coerces, override?, hraw, eq_comm]
  | some raw =>
      cases hv : f.kind.ofText? raw with
      | none => simp [overrideBy, Coerces, hraw, hv]
      | some v => simp [overrideBy, Coerces, override?, hraw, hv, assign, eq_comm]

theorem forM_overrideBy_eq_ok_iff {env : Environment} {fs : List Setting} {s s' : Settings} :
    fs.forM (overrideBy env) s = .ok () s' ↔
      (∀ f ∈ fs, Coerces env f) ∧ s' = (fs.filterMap (override? env)).foldl assign s := by
  induction fs generalizing s with
  | nil =>
      show EStateM.Result.ok () s = .ok () s' ↔ _
      simp [eq_comm]
  | cons f fs ih =>
      have row : ((f :: fs).filterMap (override? env)).foldl assign s =
          (fs.filterMap (override? env)).foldl assign
          ((override? env f).toList.foldl assign s) := by
        cases h : override? env f <;> simp [h]
      have step : (f :: fs).forM (overrideBy env) s = .ok () s' ↔
          ∃ t, overrideBy env f s = .ok () t ∧ fs.forM (overrideBy env) t = .ok () s' := by
        show EStateM.bind (overrideBy env f) (fun _ => fs.forM (overrideBy env)) s = _ ↔ _
        cases h : overrideBy env f s <;> simp [EStateM.bind, h]
      rw [step, row, List.forall_mem_cons]
      constructor
      · rintro ⟨t, hfirst, hrest⟩
        obtain ⟨hf, rfl⟩ := overrideBy_eq_ok_iff.mp hfirst
        obtain ⟨hfs, rfl⟩ := ih.mp hrest
        exact ⟨⟨hf, hfs⟩, rfl⟩
      · rintro ⟨⟨hf, hfs⟩, rfl⟩
        exact ⟨_, overrideBy_eq_ok_iff.mpr ⟨hf, rfl⟩, ih.mpr ⟨hfs, rfl⟩⟩

/-- What the environment assigns. -/
def overrides (env : Environment) : List Assignment :=
  Setting.all.filterMap (override? env)

theorem mem_overrides_iff {env : Environment} {a : Assignment} :
    a ∈ overrides env ↔
      a.setting ∈ Setting.all ∧ ∃ raw, env.lookup a.setting.variableName = some raw ∧
        a.setting.kind.ofText? raw = some a.value := by
  simp only [overrides, List.mem_filterMap, override?_eq_some_iff]
  constructor
  · rintro ⟨f, hf, rfl, h⟩
    exact ⟨hf, h⟩
  · rintro ⟨hf, h⟩
    exact ⟨_, hf, rfl, h⟩

theorem overrides_consistent (env : Environment) : Consistent (overrides env) where
  known a ha := (mem_overrides_iff.mp ha).1
  single := by
    rintro ⟨f, v⟩ ha ⟨g, w⟩ hb (rfl : f = g)
    obtain ⟨-, raw, hraw, hv⟩ := mem_overrides_iff.mp ha
    obtain ⟨-, raw', hraw', hw⟩ := mem_overrides_iff.mp hb
    simp only at hraw hraw' hv hw
    rw [hraw, Option.some.injEq] at hraw'
    rw [← hraw', hv, Option.some.injEq] at hw
    rw [hw]

/-- **The environment as a row of assignments.** It overrides settings if every variable that is
there stands for a value, and then it assigns these values. -/
theorem mergeEnvironment_eq_ok_iff {env : Environment} {s s' : Settings} :
    mergeEnvironment env s = .ok () s' ↔
      (∀ f ∈ Setting.all, Coerces env f) ∧ s' = (overrides env).foldl assign s :=
  forM_overrideBy_eq_ok_iff

end Settings

end ProtoRoutes
