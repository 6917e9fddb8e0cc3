import ProtoRoutes.Proofs.Grammar.DepthCounter
import ProtoRoutes.Proofs.Grammar.Runs

/-!
# ProtoRoutes.Proofs.Grammar.DepthLog

**What it means that every level of a tree is in a log.** For each message of the tree the log holds
the opening of a level, as deep as the message stands. For each option it holds the beginning and
the end of its value inside as many levels as there are messages around it, and the openings of all
the message literals that stand inside each other there (`Logged`).

That the marks of a reading are such a log is shown in `DepthTally`.
-/

namespace ProtoRoutes

/-! ### The depth of values -/

mutual
/-- How many message literals stand inside each other in a value. -/
def Value.literalDepth : Value → Nat
  | .message fields => Value.fieldsDepth fields + 1
  | .list items => Value.itemsDepth items
  | _ => 0

/-- The greatest depth of the values of fields. -/
def Value.fieldsDepth : List (String × Value) → Nat
  | [] => 0
  | (_, v) :: fields => max v.literalDepth (Value.fieldsDepth fields)

/-- The greatest depth of the items of a list. -/
def Value.itemsDepth : List Value → Nat
  | [] => 0
  | v :: items => max v.literalDepth (Value.itemsDepth items)
end

namespace Grammar

variable {α β σ : Type}

/-! ### What a log holds -/

section Log

variable (log : List Mark)

/-- A log holds the opening of a level that is the `d`-th one. -/
def Opened (d : Nat) : Prop :=
  ∃ k ∈ log, (∃ t, k.moment = .opens t) ∧ levels k.blocks = d

/-- A log holds the openings of the `n` levels that follow the `d`-th one. -/
def Descends (d n : Nat) : Prop :=
  ∀ i < n, Opened log (d + i + 1)

/-- A log holds the beginning and the end of something inside `d` levels. -/
structure Spans (what : Item) (d : Nat) : Prop where
  begins : ∃ k ∈ log, k.moment = .begins what ∧ levels k.blocks = d
  ends : ∃ k ∈ log, k.moment = .ends what ∧ levels k.blocks = d

end Log

variable {log : List Mark} {d : Nat}

theorem Descends.zero : Descends log d 0 :=
  fun _ h => absurd h (Nat.not_lt_zero _)

theorem descends_max_iff {a b : Nat} : Descends log d (max a b) ↔ Descends log d a ∧
    Descends log d b := by
  constructor
  · intro h
    exact ⟨fun i hi => h i (by omega), fun i hi => h i (by omega)⟩
  · intro ⟨ha, hb⟩ i hi
    by_cases hia : i < a
    · exact ha i hia
    · exact hb i (by omega)

/-- A level, and those behind it. -/
theorem Descends.succ {n : Nat} (hfirst : Opened log (d + 1)) (h : Descends log (d + 1) n) :
    Descends log d (n + 1) := by
  intro i hi
  cases i with
  | zero => exact hfirst
  | succ i =>
      have hlevel : d + (i + 1) + 1 = d + 1 + i + 1 := by omega
      rw [hlevel]
      exact h i (by omega)

theorem descends_fieldsDepth_iff {fields : List (String × Value)} :
    Descends log d (Value.fieldsDepth fields) ↔ ∀ p ∈ fields, Descends log d p.2.literalDepth := by
  induction fields with
  | nil => simp [Value.fieldsDepth, Descends.zero]
  | cons p fields ih =>
      rw [Value.fieldsDepth, descends_max_iff, ih, List.forall_mem_cons]

theorem descends_itemsDepth_iff {items : List Value} :
    Descends log d (Value.itemsDepth items) ↔ ∀ v ∈ items, Descends log d v.literalDepth := by
  induction items with
  | nil => simp [Value.itemsDepth, Descends.zero]
  | cons v items ih =>
      rw [Value.itemsDepth, descends_max_iff, ih, List.forall_mem_cons]

/-- Gathering values into a list makes none of them deeper. -/
theorem descends_gather {old v : Value} (hold : Descends log d old.literalDepth)
    (hv : Descends log d v.literalDepth) : Descends log d (old.gather v).literalDepth := by
  have pair : Descends log d (Value.list [old, v]).literalDepth := by
    rw [Value.literalDepth, descends_itemsDepth_iff]
    simp [hold, hv]
  cases old with
  | list items =>
      rw [Value.literalDepth, descends_itemsDepth_iff] at hold
      show Descends log d (Value.list (items ++ [v])).literalDepth
      rw [Value.literalDepth, descends_itemsDepth_iff]
      exact forall_mem_concat_iff.mpr ⟨hold, hv⟩
  | _ => exact pair

theorem descends_addField {fields : List (String × Value)} {key : String} {v : Value}
    (hfields : ∀ p ∈ fields, Descends log d p.2.literalDepth) (hv : Descends log d v.literalDepth) :
    ∀ p ∈ Value.addField fields key v, Descends log d p.2.literalDepth := by
  unfold Value.addField
  split
  · intro p hp
    obtain ⟨⟨k, old⟩, hold, rfl⟩ := List.mem_map.mp hp
    have hdescends := hfields _ hold
    by_cases hk : k = key
    · simp only [hk, if_true]
      exact descends_gather hdescends hv
    · simp only [hk, if_false]
      exact hdescends
  · exact forall_mem_concat_iff.mpr ⟨hfields, hv⟩

end Grammar

/-! ### Logged trees -/

section Logged

open Grammar (Mark Opened Descends Spans)

/-- The value of an option is logged inside `d` levels, with the literals in it. -/
structure SchemaOption.Logged (log : List Mark) (d : Nat) (o : SchemaOption) : Prop where
  span : Spans log .value d
  literals : Descends log d o.value.literalDepth

/-- The options of an enum are logged inside `d` levels. -/
structure Enumeration.Logged (log : List Mark) (d : Nat) (e : Enumeration) : Prop where
  options : ∀ o ∈ e.options, o.Logged log d
  values : ∀ v ∈ e.values, ∀ o ∈ v.options, o.Logged log d

/-- The options of a field are logged inside `d` levels. -/
def Field.Logged (log : List Mark) (d : Nat) (g : Field) : Prop :=
  ∀ o ∈ g.options, o.Logged log d

/-- The options of a oneof are logged inside `d` levels. -/
structure Oneof.Logged (log : List Mark) (d : Nat) (g : Oneof) : Prop where
  options : ∀ o ∈ g.options, o.Logged log d
  fields : ∀ h ∈ g.fields, h.Logged log d

/-- A message is logged inside `d` levels: it begins and ends there, it opens one level more, and
what is in it is logged inside that one. -/
inductive Message.Logged (log : List Mark) : Nat → Message → Prop where
  | intro {d : Nat} {m : Message} (span : Spans log .declaration d) (opened : Opened log (d + 1))
      (options : ∀ o ∈ m.options, o.Logged log (d + 1))
      (fields : ∀ g ∈ m.fields, g.Logged log (d + 1))
      (oneofs : ∀ g ∈ m.oneofs, g.Logged log (d + 1)) (enums : ∀ e ∈ m.enums, e.Logged log (d + 1))
      (nested : ∀ n ∈ m.messages, n.Logged log (d + 1)) : m.Logged log d

/-- What is in a message is logged inside `d` levels. -/
structure Message.Filled (log : List Mark) (d : Nat) (m : Message) : Prop where
  options : ∀ o ∈ m.options, o.Logged log d
  fields : ∀ g ∈ m.fields, g.Logged log d
  oneofs : ∀ g ∈ m.oneofs, g.Logged log d
  enums : ∀ e ∈ m.enums, e.Logged log d
  nested : ∀ n ∈ m.messages, n.Logged log d

theorem Message.Filled.logged {log : List Mark} {d : Nat} {m : Message} (h : m.Filled log (d + 1))
    (span : Spans log .declaration d) (opened : Opened log (d + 1)) : m.Logged log d :=
  .intro span opened h.options h.fields h.oneofs h.enums h.nested

/-- The options of a service are logged outside of all levels. -/
structure Service.Logged (log : List Mark) (s : Service) : Prop where
  options : ∀ o ∈ s.options, o.Logged log 0
  methods : ∀ m ∈ s.methods, ∀ o ∈ m.options, o.Logged log 0

/-- What is in a file is logged outside of all levels. -/
structure SchemaFile.Logged (log : List Mark) (f : SchemaFile) : Prop where
  options : ∀ o ∈ f.options, o.Logged log 0
  services : ∀ s ∈ f.services, s.Logged log
  messages : ∀ m ∈ f.messages, m.Logged log 0
  enums : ∀ e ∈ f.enums, e.Logged log 0

end Logged

end ProtoRoutes
