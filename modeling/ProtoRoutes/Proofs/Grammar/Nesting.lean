import ProtoRoutes.Proofs.Grammar.DepthTally

/-!
# ProtoRoutes.Proofs.Grammar.Nesting

**The nesting guard counts exactly the open levels** (`nesting_guard_counts_open_levels`). A level
is a message or a message literal. The counter is the number of levels around every statement,
declaration and value where that begins and where it ends, whatever was opened and closed before,
and reading stops because of the depth exactly where one level more than `maxDepth` is opened.

So a message of a tree that was read stands inside less than `maxDepth` others, and the message
literals of an option value take no more than what the messages around it leave: each of these
levels has its mark, and no mark of a reading that succeeds is beyond the limit.
-/

namespace ProtoRoutes

/-! ### Where messages and options stand -/

/-- A message of a file, and how many messages stand inside each other there, itself included. -/
inductive SchemaFile.HasMessage (f : SchemaFile) : Nat → Message → Prop where
  | top {m : Message} (hm : m ∈ f.messages) : f.HasMessage 1 m
  | nested {d : Nat} {m n : Message} (hm : f.HasMessage d m) (hn : n ∈ m.messages) :
      f.HasMessage (d + 1) n

/-- An option of an enum or of one of its values. -/
inductive Enumeration.HasOption (e : Enumeration) : SchemaOption → Prop where
  | own {o : SchemaOption} (ho : o ∈ e.options) : e.HasOption o
  | value {v : EnumValue} {o : SchemaOption} (hv : v ∈ e.values) (ho : o ∈ v.options) :
      e.HasOption o

/-- An option of a message itself, of its fields, its oneofs or its enums. -/
inductive Message.HasOption (m : Message) : SchemaOption → Prop where
  | own {o : SchemaOption} (ho : o ∈ m.options) : m.HasOption o
  | field {g : Field} {o : SchemaOption} (hg : g ∈ m.fields) (ho : o ∈ g.options) : m.HasOption o
  | oneof {g : Oneof} {o : SchemaOption} (hg : g ∈ m.oneofs) (ho : o ∈ g.options) : m.HasOption o
  | member {g : Oneof} {h : Field} {o : SchemaOption} (hg : g ∈ m.oneofs) (hh : h ∈ g.fields)
      (ho : o ∈ h.options) : m.HasOption o
  | enum {e : Enumeration} {o : SchemaOption} (he : e ∈ m.enums) (ho : e.HasOption o) :
      m.HasOption o

/-- An option of a file, and how many messages enclose it. -/
inductive SchemaFile.HasOption (f : SchemaFile) : Nat → SchemaOption → Prop where
  | own {o : SchemaOption} (ho : o ∈ f.options) : f.HasOption 0 o
  | service {s : Service} {o : SchemaOption} (hs : s ∈ f.services) (ho : o ∈ s.options) :
      f.HasOption 0 o
  | method {s : Service} {m : Method} {o : SchemaOption} (hs : s ∈ f.services) (hm : m ∈ s.methods)
      (ho : o ∈ m.options) : f.HasOption 0 o
  | enum {e : Enumeration} {o : SchemaOption} (he : e ∈ f.enums) (ho : e.HasOption o) :
      f.HasOption 0 o
  | message {d : Nat} {m : Message} {o : SchemaOption} (hm : f.HasMessage d m)
      (ho : m.HasOption o) :
      f.HasOption d o

section Logged

open Grammar (Mark)

variable {log : List Mark}

theorem Enumeration.HasOption.logged {e : Enumeration} {o : SchemaOption} {d : Nat}
    (ho : e.HasOption o) (he : e.Logged log d) : o.Logged log d := by
  cases ho with
  | own ho => exact he.options o ho
  | value hv ho => exact he.values _ hv o ho

theorem Message.HasOption.logged {m : Message} {o : SchemaOption} {d : Nat} (ho : m.HasOption o)
    (hm : m.Logged log d) : o.Logged log (d + 1) := by
  cases hm with
  | intro span opened options fields oneofs enums nested =>
      cases ho with
      | own ho => exact options o ho
      | field hg ho => exact fields _ hg o ho
      | oneof hg ho => exact (oneofs _ hg).options o ho
      | member hg hh ho => exact (oneofs _ hg).fields _ hh o ho
      | enum he ho => exact ho.logged (enums _ he)

/-- A message is logged inside the levels of the messages around it. -/
theorem SchemaFile.HasMessage.logged {f : SchemaFile} {d : Nat} {m : Message}
    (hm : f.HasMessage d m) (hf : f.Logged log) : ∃ e, d = e + 1 ∧ m.Logged log e := by
  induction hm with
  | top hm => exact ⟨0, rfl, hf.messages _ hm⟩
  | nested _ hn ih =>
      obtain ⟨e, rfl, houter⟩ := ih
      cases houter with
      | intro span opened options fields oneofs enums nested => exact ⟨e + 1, rfl, nested _ hn⟩

/-- An option is logged inside the levels of the messages around it. -/
theorem SchemaFile.HasOption.logged {f : SchemaFile} {d : Nat} {o : SchemaOption}
    (ho : f.HasOption d o) (hf : f.Logged log) : o.Logged log d := by
  cases ho with
  | own ho => exact hf.options o ho
  | service hs ho => exact (hf.services _ hs).options o ho
  | method hs hm ho => exact (hf.services _ hs).methods _ hm o ho
  | enum he ho => exact ho.logged (hf.enums _ he)
  | message hm ho =>
      obtain ⟨e, rfl, hlogged⟩ := hm.logged hf
      exact ho.logged hlogged

end Logged

namespace Grammar

/-! ### Exact marks are within the limit -/

section Exact

variable {marks : List Mark} (hmarks : ∀ k ∈ marks, k.Exact) {d : Nat}

include hmarks

theorem Opened.le (h : Opened marks d) : d ≤ 64 := by
  obtain ⟨k, hk, -, rfl⟩ := h
  exact (hmarks k hk).limit

theorem Spans.le {what : Item} (h : Spans marks what d) : d ≤ 64 := by
  obtain ⟨k, hk, -, rfl⟩ := h.begins
  exact (hmarks k hk).limit

/-- A value and the literals inside each other in it do not go beyond the limit. -/
theorem depth_add_le {what : Item} {n : Nat} (hspan : Spans marks what d) (h : Descends marks d n) :
    d + n ≤ 64 := by
  cases n with
  | zero => exact hspan.le hmarks
  | succ n => exact (h n (Nat.lt_succ_self n)).le hmarks

end Exact

/-! ### The nesting guard -/

/-- Marks of which the last one opens the first level beyond the limit, at a place. -/
inductive Overflows (pos : Position) : List Mark → Prop where
  | intro {front : List Mark} {t : Token} {blocks : List Block} (hpos : t.pos = pos)
      (hlevels : levels blocks = 65) (hfront : ∀ k ∈ front, levels k.blocks ≤ 64) :
      Overflows pos (front ++ [⟨.opens t, blocks, 65⟩])

theorem Halts.depth_eq {e : Failure} {marks : List Mark} (h : Halts e marks) :
    ∀ k ∈ marks, k.depth = levels k.blocks := by
  cases h with
  | elsewhere he hmarks => exact fun k hk => (hmarks k hk).depth
  | tooDeep hlevels hmarks =>
      exact forall_mem_concat_iff.mpr ⟨fun k hk => (hmarks k hk).depth, rfl⟩

/-- Where all marks are exact, none is beyond the limit. -/
theorem not_overflows {marks : List Mark} (hmarks : ∀ k ∈ marks, k.Exact) (pos : Position) :
    ¬Overflows pos marks := by
  intro hover
  cases hover with
  | intro hpos hlevels hfront =>
      have hlast := (hmarks _ (List.mem_append_right _ (List.mem_singleton_self _))).limit
      rw [hlevels] at hlast
      exact absurd hlast (by decide)

/-- A failure is about the depth if the marks end with one level too many, and only then. -/
theorem Halts.eq_tooDeep_iff {e : Failure} {marks : List Mark} (h : Halts e marks) (pos : Position)
    (limit : Nat) :
    e = .error (.defect pos (.tooDeep limit)) ↔ limit = 64 ∧ Overflows pos marks := by
  cases h with
  | elsewhere he hmarks =>
      constructor
      · intro heq
        rw [heq] at he
        cases he
      · intro ⟨_, hover⟩
        exact absurd hover (not_overflows hmarks pos)
  | @tooDeep t blocks marks hlevels hmarks =>
      rw [hlevels]
      constructor
      · intro heq
        cases heq
        exact ⟨rfl, .intro rfl hlevels fun k hk => (hmarks k hk).limit⟩
      · intro ⟨hlimit, hover⟩
        generalize hall : marks ++ [_] = all at hover
        cases hover with
        | intro hpos _ _ =>
            have hlast := (List.cons.inj (List.append_inj' hall rfl).2).1
            have hmoment := congrArg Mark.moment hlast
            cases hmoment
            rw [hlimit, hpos]
            rfl

/-- Reading with the counter is reading, and the counter is the number of open levels at every mark.
Each message of the tree has its level among the marks, and so has each message literal of an
option. -/
theorem nesting_guard_counts_open_levels (mode : Mode) (text : String) :
    -- Keeping the counter changes nothing about what is read.
    (tally mode text).outcome = parse mode text ∧
    -- Wherever something begins, ends or is opened, it is the number of levels there.
    (∀ k ∈ (tally mode text).marks, k.depth = levels k.blocks) ∧
    -- In a tree that is read, nothing is deeper than the limit, and every level has its mark.
    (∀ f, parse mode text = .ok f →
      (tally mode text).depth = 0 ∧
      (∀ d m, f.HasMessage d m → d ≤ 64 ∧
        Spans (tally mode text).marks .declaration (d - 1) ∧ Opened (tally mode text).marks d) ∧
      (∀ d o, f.HasOption d o → d + o.value.literalDepth ≤ 64 ∧
        Spans (tally mode text).marks .value d ∧
        Descends (tally mode text).marks d o.value.literalDepth)) ∧
    -- Reading stops because of the depth where one level too many is opened, and only there.
    ∀ pos limit, parse mode text = .error (.error (.defect pos (.tooDeep limit))) ↔
      limit = 64 ∧ Overflows pos (tally mode text).marks := by
  have accounts := tally_accounts mode text
  generalize parse mode text = outcome, tally mode text = t at accounts
  cases accounts with
  | @ok f marks hmarks logged =>
      refine ⟨rfl, fun k hk => (hmarks k hk).depth, ?_, ?_⟩
      · intro g hg
        cases hg
        refine ⟨rfl, ?_, ?_⟩
        · intro d m hm
          obtain ⟨e, rfl, hlogged⟩ := hm.logged logged
          cases hlogged with
          | intro span opened _ _ _ _ _ => exact ⟨opened.le hmarks, span, opened⟩
        · intro d o ho
          obtain ⟨span, literals⟩ := ho.logged logged
          exact ⟨depth_add_le hmarks span literals, span, literals⟩
      · intro pos limit
        constructor
        · intro heq
          cases heq
        · intro ⟨_, hover⟩
          exact absurd hover (not_overflows hmarks pos)
  | error halts =>
      refine ⟨rfl, halts.depth_eq, ?_, ?_⟩
      · intro g hg
        cases hg
      · intro pos limit
        rw [← halts.eq_tooDeep_iff pos limit, Except.error.injEq]

/-- Two message literals inside each other, in a message. -/
def nestedLiterals : String :=
  "message M \x7b option o = \x7b x \x7b\x7d \x7d; \x7d"

/-- Two message literals in a list, and then 65 of them inside each other. -/
def crowded : String :=
  "option p = [\x7b\x7d, \x7b\x7d]; option q = " ++ String.join (List.replicate 65 "\x7ba")

example : (tally ⟨true, true⟩ nestedLiterals).marks.map (·.depth) =
    [0, 1, 1, 1, 2, 2, 3, 2, 1, 1, 0] := by
  decide +kernel

/-- Levels that are closed do not count: after two literals in a list, the 65th of those inside each
other is the one too many. -/
theorem nesting_guard_counts_open_levels_crowded :
    (∃ f o, parse ⟨true, true⟩ nestedLiterals = .ok f ∧ f.HasOption 1 o ∧ o.value.literalDepth = 2 ∧
      Descends (tally ⟨true, true⟩ nestedLiterals).marks 1 2) ∧
    parse ⟨true, true⟩ crowded = .error (.error (.defect ⟨1, 161⟩ (.tooDeep 64))) ∧
      Overflows ⟨1, 161⟩ (tally ⟨true, true⟩ crowded).marks := by
  have read : (parse ⟨true, true⟩ nestedLiterals).toOption.map
      (fun f => f.messages.map fun m => m.options.map (·.value.literalDepth)) = some [[2]] := by
      decide +kernel
  have refused : ((parse ⟨true, true⟩ crowded).casesOn some fun _ => none) =
      some (Failure.error (.defect ⟨1, 161⟩ (.tooDeep 64))) := by decide +kernel
  constructor
  · obtain ⟨f, hread, hdepths⟩ := exists_ok_of_toOption read
    obtain ⟨m, hm, hoptions⟩ := List.mem_map.mp (hdepths ▸ List.mem_singleton_self [2])
    obtain ⟨o, ho, hdepth⟩ := List.mem_map.mp (hoptions ▸ List.mem_singleton_self 2)
    have hoption : f.HasOption 1 o := .message (.top hm) (.own ho)
    obtain ⟨-, -, tree, -⟩ := nesting_guard_counts_open_levels ⟨true, true⟩ nestedLiterals
    obtain ⟨-, -, options⟩ := tree f hread
    obtain ⟨-, -, literals⟩ := options 1 o hoption
    exact ⟨f, o, hread, hoption, hdepth, hdepth ▸ literals⟩
  · obtain ⟨-, -, -, stops⟩ := nesting_guard_counts_open_levels ⟨true, true⟩ crowded
    have hread : parse ⟨true, true⟩ crowded = .error (.error (.defect ⟨1, 161⟩ (.tooDeep 64))) := by
      cases hparse : parse ⟨true, true⟩ crowded with
      | ok f =>
          rw [hparse] at refused
          cases refused
      | error e =>
          rw [hparse] at refused
          injection refused with heq
          rw [heq]
    exact ⟨hread, ((stops ⟨1, 161⟩ 64).mp hread).2⟩

end Grammar

end ProtoRoutes
