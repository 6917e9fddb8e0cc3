import Mathlib.Data.List.Nodup
import ProtoRoutes.Toml.Document

/-!
# ProtoRoutes.Proofs.Toml.DistinctKeys

In a document that was read no table has a key twice. Every change of a table keeps that: a key that
is there keeps its place and gets another value, and a new key is put behind the others. So does a
change of a table further down (`Table.Distinct.within`), and with it every statement of a document.

`Reader.Returns` says what is known of everything that a reader returns, whatever text it is given.
-/

namespace ProtoRoutes

/-- The value behind a key that is there once. -/
theorem lookup_eq_some_iff_mem {β : Type} {entries : List (String × β)}
    (h : (entries.map Prod.fst).Nodup)
    {key : String} {v : β} : entries.lookup key = some v ↔ (key, v) ∈ entries := by
  induction entries with
  | nil => simp
  | cons e entries ih =>
      obtain ⟨k, w⟩ := e
      obtain ⟨hfresh, hkeys⟩ := List.nodup_cons.mp h
      rw [List.lookup_cons]
      by_cases hkey : key = k
      · subst hkey
        have later : (key, v) ∉ entries := fun hmem => hfresh (List.mem_map.mpr ⟨_, hmem, rfl⟩)
        simp [later, eq_comm]
      · have other : (key == k) = false := by simpa using hkey
        simp [other, hkey, ih hkeys]

namespace Toml

/-- A value in which no table has a key twice. -/
inductive Value.Distinct : Value → Prop
  | plain {v : Value} (h : v.isNest = false) : Distinct v
  | array {items : List Value} (h : ∀ v ∈ items, Distinct v) : Distinct (.array items)
  | table {entries : Table} (hkeys : (entries.map Prod.fst).Nodup)
      (h : ∀ e ∈ entries, Distinct e.2) :
      Distinct (.table entries)

/-- A table without a key twice, at any depth. -/
structure Table.Distinct (t : Table) : Prop where
  keys : (t.map Prod.fst).Nodup
  values : ∀ e ∈ t, e.2.Distinct

theorem Value.distinct_table_iff {t : Table} : (Value.table t).Distinct ↔ t.Distinct := by
  constructor
  · intro h
    cases h with
    | plain h => cases h
    | table hkeys h => exact ⟨hkeys, h⟩
  · intro h
    exact .table h.keys h.values

theorem Value.distinct_array_iff {items : List Value} :
    (Value.array items).Distinct ↔ ∀ v ∈ items, v.Distinct := by
  constructor
  · intro h
    cases h with
    | plain h => cases h
    | array h => exact h
  · exact .array

/-! ### Changes of tables -/

namespace Table

theorem notMem_of_lookup {t : Table} {key : String} (h : t.lookup key = none) :
    key ∉ t.map Prod.fst := by
  intro hmem
  obtain ⟨e, he, rfl⟩ := List.mem_map.mp hmem
  simpa using List.lookup_eq_none_iff.mp h e he

namespace Distinct

theorem nil : Distinct [] := ⟨List.nodup_nil, by simp⟩

variable {t : Table} {key : String} {v : Value}

theorem of_lookup (h : Distinct t) (hlookup : t.lookup key = some v) : v.Distinct :=
  h.values (key, v) ((lookup_eq_some_iff_mem h.keys).mp hlookup)

/-- A new key keeps the keys distinct. -/
theorem concat (h : Distinct t) (hnew : t.lookup key = none) (hv : v.Distinct) :
    Distinct (t ++ [(key, v)]) := by
  constructor
  · rw [List.map_append]
    refine h.keys.append (List.nodup_singleton key) ?_
    simpa using notMem_of_lookup hnew
  · intro e he
    rcases List.mem_append.mp he with he | he
    · exact h.values e he
    · rw [List.mem_singleton.mp he]
      exact hv

/-- A value may be replaced by another one with distinct keys. -/
theorem set (h : Distinct t) (hv : v.Distinct) : Distinct (t.set key v) := by
  unfold Table.set
  split
  · constructor
    · refine (congrArg List.Nodup ?_).mpr h.keys
      rw [List.map_map]
      refine List.map_congr_left fun e _ => ?_
      simp only [Function.comp]
      split <;> rfl
    · intro e he
      obtain ⟨old, hold, rfl⟩ := List.mem_map.mp he
      simp only
      split
      · exact hv
      · exact h.values old hold
  · next hnew => exact h.concat (Option.not_isSome_iff_eq_none.mp hnew) hv

theorem add? (h : Distinct t) (hv : v.Distinct) {t' : Table} (hadd : t.add? key v = some t') :
    Distinct t' := by
  unfold Table.add? at hadd
  split at hadd
  · cases hadd
  · next hnew =>
      cases hadd
      exact h.concat (Option.not_isSome_iff_eq_none.mp hnew) hv

/-- A change further down keeps it too. -/
theorem within {throughArrays : Bool} {change : Table → Option Table}
    (hchange : ∀ t t', Distinct t → change t = some t' → Distinct t') {path : KeyPath}
    {t t' : Table}
    (h : Distinct t) (hwithin : t.within throughArrays change path = some t') : Distinct t' := by
  fun_induction Table.within throughArrays change path t generalizing t' with
  | case1 t => exact hchange t t' h hwithin
  | case2 key rest t hnone ih =>
      obtain ⟨inner, hinner, rfl⟩ := Option.map_eq_some_iff.mp hwithin
      exact h.set (Value.distinct_table_iff.mpr (ih nil hinner))
  | case3 key rest t old hold ih =>
      obtain ⟨inner, hinner, rfl⟩ := Option.map_eq_some_iff.mp hwithin
      exact h.set
        (Value.distinct_table_iff.mpr (ih (Value.distinct_table_iff.mp (h.of_lookup hold)) hinner))
  | case4 key rest t items hitems old hlast harrays ih =>
      subst harrays
      obtain ⟨inner, hinner, rfl⟩ := Option.map_eq_some_iff.mp hwithin
      have hall := Value.distinct_array_iff.mp (h.of_lookup hitems)
      have hold := Value.distinct_table_iff.mp (hall _ (List.mem_of_getLast? hlast))
      refine h.set (.array fun v hv => ?_)
      rcases List.mem_append.mp hv with hv | hv
      · exact hall v (List.dropLast_subset items hv)
      · rw [List.mem_singleton.mp hv]
        exact Value.distinct_table_iff.mpr (ih hold hinner)
  | case5 => cases hwithin
  | case6 => cases hwithin

end Distinct

end Table

/-! ### Readers -/

namespace Reader

variable {α β : Type}

/-- Whatever a reader returns has a property. -/
structure Returns (x : Reader α) (p : α → Prop) : Prop where
  holds : ∀ cs a rest, x cs = .ok (a, rest) → p a

namespace Returns

variable {x : Reader α} {f : α → Reader β} {p : α → Prop} {q : β → Prop}

theorem pure {a : α} (h : p a) : Returns (Pure.pure a) p where
  holds cs b rest hb := by
    cases hb
    exact h

theorem malformed : Returns (Reader.malformed : Reader α) p where
  holds cs a rest h := by cases h

/-- What a reader returns is known to the one that follows. -/
theorem bind (hx : Returns x p) (hf : ∀ a, p a → Returns (f a) q) : Returns (x >>= f) q where
  holds cs b rest h := by
    replace h : Except.bind (x cs) (fun r => f r.1 r.2) = .ok (b, rest) := h
    cases hfirst : x cs with
    | error e =>
        rw [hfirst] at h
        cases h
    | ok r =>
        rw [hfirst] at h
        exact (hf r.1 (hx.holds cs r.1 r.2 hfirst)).holds r.2 b rest h

theorem map {g : α → β} (hx : Returns x p) (hg : ∀ a, p a → q (g a)) : Returns (g <$> x) q where
  holds cs b rest h := by
    replace h : Except.bind (x cs) (fun r => .ok (g r.1, r.2)) = .ok (b, rest) := h
    cases hfirst : x cs with
    | error e =>
        rw [hfirst] at h
        cases h
    | ok r =>
        rw [hfirst] at h
        cases h
        exact hg r.1 (hx.holds cs r.1 r.2 hfirst)

/-- Nothing has to be known of what comes first. -/
theorem andThen (hf : ∀ a, Returns (f a) q) : Returns (x >>= f) q :=
  @bind _ _ x f (fun _ => True) q ⟨fun _ _ _ _ => trivial⟩ fun a _ => hf a

theorem ite {c : Prop} [Decidable c] {y : Reader α} (hx : Returns x p) (hy : Returns y p) :
    Returns (if c then x else y) p := by
  split
  · exact hx
  · exact hy

end Returns

end Reader

open Reader (Returns)

/-! ### Values -/

section Scalars

variable {cs rest : List Char} {v : Value}

theorem moment?_plain (h : moment? cs = some (.ok v, rest)) : v.isNest = false := by
  unfold moment? at h
  split at h
  · simp at h
  · split at h
    · cases h
      rfl
    · cases h
      rfl
  · obtain ⟨after, -, heq⟩ := Option.map_eq_some_iff.mp h
    cases heq
    rfl

theorem based?_plain (h : based? cs = some (v, rest)) : v.isNest = false := by
  unfold based? at h
  split at h
  · obtain ⟨base, -, h⟩ := Option.bind_eq_some_iff.mp h
    obtain ⟨ds, -, h⟩ := Option.bind_eq_some_iff.mp h
    obtain ⟨n, -, h⟩ := Option.bind_eq_some_iff.mp h
    cases h
    rfl
  · cases h

theorem decimal?_plain (h : decimal? cs = some (.ok v, rest)) : v.isNest = false := by
  unfold decimal? at h
  obtain ⟨ds, -, h⟩ := Option.bind_eq_some_iff.mp h
  simp only at h
  split at h
  · cases h
    rfl
  · split at h
    · simp at h
    · obtain ⟨n, -, h⟩ := Option.bind_eq_some_iff.mp h
      cases h
      rfl

theorem specialFloat?_plain (h : specialFloat? cs = some (v, rest)) : v.isNest = false := by
  unfold specialFloat? at h
  simp only at h
  split at h
  · cases h
    rfl
  · cases h

/-- A scalar has no tables in it. -/
theorem scalar_plain (h : scalar cs = .ok (v, rest)) : v.isNest = false := by
  have own : ∀ {r : Except Fault Value} {after : List Char}, r.map (·, after) = .ok (v, rest) →
      r = .ok v ∧ after = rest := by
    intro r after hr
    cases r with
    | error e => cases hr
    | ok w =>
        cases hr
        exact ⟨rfl, rfl⟩
  unfold scalar at h
  split at h
  · next hmoment =>
      obtain ⟨rfl, rfl⟩ := own h
      exact moment?_plain hmoment
  · split at h
    · next hbased =>
        cases h
        exact based?_plain hbased
    · split at h
      · next hdecimal =>
          obtain ⟨rfl, rfl⟩ := own h
          exact decimal?_plain hdecimal
      · split at h
        · next hfloat =>
            cases h
            exact specialFloat?_plain hfloat
        · cases h

end Scalars

/-- A key path is added to an inline table only where it is new. -/
theorem InlineTable.add?_distinct {t t' : InlineTable} {path : KeyPath} {v : Value}
    (h : t.table.Distinct)
    (hv : v.Distinct) (hadd : t.add? path v = some t') : t'.table.Distinct := by
  unfold InlineTable.add? at hadd
  split at hadd
  · cases hadd
  · obtain ⟨table, htable, rfl⟩ := Option.map_eq_some_iff.mp hadd
    exact h.within (fun _ _ hinner => hinner.add? hv) htable

/-- Values, the items of an array and the entries of an inline table, which are read inside of each
other. -/
theorem nested_returns (bound : Nat) :
    Returns (valueWithin bound) Value.Distinct ∧
      Returns (itemsWithin bound) (∀ v ∈ ·, v.Distinct) ∧
      ∀ t : InlineTable, t.table.Distinct → Returns (entriesWithin bound t) Table.Distinct := by
  induction bound with
  | zero => exact ⟨.malformed, .malformed, fun _ _ => .malformed⟩
  | succ bound ih =>
      obtain ⟨hvalue, hitems, hentries⟩ := ih
      refine ⟨?_, ?_, fun t ht => ?_⟩
      · unfold valueWithin
        refine .andThen fun next => ?_
        have string : Returns (Value.string <$> Reader.ofOption string?) Value.Distinct :=
          @Returns.map _ _ _ (fun _ => True) _ _ ⟨fun _ _ _ _ => trivial⟩ fun _ _ => .plain rfl
        split
        · exact string
        · exact string
        · refine .andThen fun _ => .andThen fun _ => .andThen fun closed =>
            .ite (.pure (.array (by simp))) ?_
          exact hitems.map fun _ => .array
        · refine .andThen fun _ => .andThen fun _ => .andThen fun closed => .ite (.pure ?_) ?_
          · exact Value.distinct_table_iff.mpr .nil
          · exact (hentries _ .nil).map fun _ => Value.distinct_table_iff.mpr
        · refine .andThen fun isTrue => .ite (.pure (.plain rfl)) ?_
          refine .andThen fun isFalse => .ite (.pure (.plain rfl)) ?_
          exact ⟨fun cs v rest h => .plain (scalar_plain h)⟩
      · unfold itemsWithin
        refine hvalue.bind fun v hv => .andThen fun _ => .andThen fun closed => ?_
        have last : Returns (Pure.pure [v]) (∀ w ∈ ·, w.Distinct) := .pure (by simpa using hv)
        refine .ite last (.andThen fun _ => .andThen fun _ => .andThen fun closed => .ite last ?_)
        exact hitems.bind fun rest hrest => .pure (List.forall_mem_cons.mpr ⟨hv, hrest⟩)
      · unfold entriesWithin
        refine .andThen fun path => .andThen fun _ => .andThen fun _ => hvalue.bind fun v hv => ?_
        split
        · exact .malformed
        · next t' hadd =>
            have ht' := InlineTable.add?_distinct ht hv hadd
            refine .andThen fun _ => .andThen fun closed => .ite (.pure ht') ?_
            exact .andThen fun _ => .andThen fun _ => hentries t' ht'

theorem value_returns : Returns value Value.Distinct where
  holds cs := (nested_returns (2 * cs.length + 2)).1.holds cs

/-! ### Documents -/

namespace Document

variable {d d' : Document} {path : KeyPath} {v : Value}

theorem add?_distinct (h : d.table.Distinct) (hv : v.Distinct) (hadd : d.add? path v = some d') :
    d'.table.Distinct := by
  unfold Document.add? at hadd
  simp only at hadd
  split at hadd
  · cases hadd
  · obtain ⟨table, htable, rfl⟩ := Option.map_eq_some_iff.mp hadd
    exact h.within (fun _ _ hinner => hinner.add? hv) htable

/-- A table header opens a new table or one that was not opened yet. -/
theorem openTable?_distinct (h : d.table.Distinct) (hopen : d.openTable? path = some d') :
    d'.table.Distinct := by
  unfold openTable? at hopen
  simp only at hopen
  split at hopen
  · cases hopen
  · obtain ⟨table, htable, rfl⟩ := Option.map_eq_some_iff.mp hopen
    refine Table.Distinct.within (fun t t' ht hsome => ?_) h htable
    cases hsome
    exact ht

theorem appendTable?_distinct {key : String} {t t' : Table} (h : t.Distinct)
    (happend : appendTable? key t = some t') : t'.Distinct := by
  have single : (Value.table []).Distinct := Value.distinct_table_iff.mpr .nil
  unfold appendTable? at happend
  split at happend
  · cases happend
    exact h.set (.array (by simpa using single))
  · next items hitems =>
      cases happend
      have hall := Value.distinct_array_iff.mp (h.of_lookup hitems)
      refine h.set (.array fun v hv => ?_)
      rcases List.mem_append.mp hv with hv | hv
      · exact hall v hv
      · rw [List.mem_singleton.mp hv]
        exact single
  · cases happend

/-- A header in two brackets appends a table to an array. -/
theorem openArray?_distinct (h : d.table.Distinct) (hopen : d.openArray? path = some d') :
    d'.table.Distinct := by
  unfold openArray? at hopen
  simp only at hopen
  split at hopen
  · cases hopen
  · obtain ⟨table, htable, rfl⟩ := Option.map_eq_some_iff.mp hopen
    exact Table.Distinct.within (fun _ _ => appendTable?_distinct) h htable

theorem orMalformed_returns {o : Option Document} (h : ∀ d ∈ o, d.table.Distinct) :
    Returns (orMalformed o) (·.table.Distinct) := by
  cases o with
  | none => exact .malformed
  | some d => exact .pure (h d rfl)

/-- One statement keeps keys apart. -/
theorem statement_returns (h : d.table.Distinct) : Returns (statement d) (·.table.Distinct) := by
  unfold statement
  refine .andThen fun next => ?_
  split
  · refine .ite ?_ (.ite ?_ (.pure h))
    · unfold keyValue
      refine .andThen fun path => .andThen fun _ => .andThen fun _ =>
        value_returns.bind fun v hv => ?_
      exact orMalformed_returns fun d' => add?_distinct h hv
    · unfold heading
      refine .andThen fun double => .ite ?_ ?_
      · refine .andThen fun _ => .andThen fun path => ?_
        refine (orMalformed_returns fun d' => openArray?_distinct h).bind fun d' hd' => ?_
        exact .andThen fun _ => .pure hd'
      · refine .andThen fun _ => .andThen fun _ => .andThen fun path => ?_
        refine (orMalformed_returns fun d' => openTable?_distinct h).bind fun d' hd' => ?_
        exact .andThen fun _ => .pure hd'
  · exact .pure h

/-- So do all of them. -/
theorem linesWithin_returns (bound : Nat) (h : d.table.Distinct) :
    Returns (linesWithin bound d) (·.table.Distinct) := by
  induction bound generalizing d with
  | zero => exact .malformed
  | succ bound ih =>
      unfold linesWithin
      refine .andThen fun _ => (statement_returns h).bind fun d' hd' => ?_
      refine .andThen fun _ => .andThen fun _ => .andThen fun ended => .ite (.pure hd') ?_
      exact .andThen fun _ => ih hd'

end Document

/-- **A document that was read has no key twice**, in no table. -/
theorem parse_distinct {text : String} {document : Table} (h : parse text = .ok document) :
    document.Distinct := by
  unfold parse at h
  simp only at h
  cases hread : Document.linesWithin ((joinLineEnds text.toList).length + 1) .empty
      (joinLineEnds text.toList) with
  | error e =>
      rw [hread] at h
      cases h
  | ok r =>
      rw [hread] at h
      cases h
      exact (Document.linesWithin_returns _ Table.Distinct.nil).holds _ r.1 r.2 hread

end Toml

end ProtoRoutes
