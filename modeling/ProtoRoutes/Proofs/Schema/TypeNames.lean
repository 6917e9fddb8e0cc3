import Mathlib.Data.List.Nodup
import ProtoRoutes.Proofs.Grammar.Identifiers
import ProtoRoutes.Proofs.Grammar.Strict
import ProtoRoutes.Schema.Lookup

/-!
# ProtoRoutes.Proofs.Schema.TypeNames

**Listing the types of a file and looking messages up are inverse to each other.**
`SchemaFile.types` builds qualified names on the way down the tree, `SchemaFile.findMessage?` takes
names apart and walks down. Both are compared with `Declares`, which says what is declared at a path
of names: at the top of a scope, or inside one of its messages.

* `Message.declarations` lists what a message declares with paths. The types are these declarations
  under their qualified names, and in a valid file no two of them have the same path.
* `messageAt?_eq_some_iff`: in a valid file the walk down a path ends at the message that is
  declared there.
* Names are identifiers, so dots only separate them, and a qualified name gives back its path.
-/

namespace ProtoRoutes

open Source (isIdent)

/-! ### Declarations -/

/-- A type as it is declared. -/
inductive Declaration where
  | message (m : Message)
  | enum (e : Enumeration)

namespace Declaration

/-- What a declared type is. -/
def sort : Declaration → TypeSort
  | message _ => .message
  | enum _ => .enum

/-- The name of a declared type. -/
def name : Declaration → String
  | message m => m.name
  | enum e => e.name

end Declaration

/-- An enum declares itself. -/
def Enumeration.declaration (e : Enumeration) : List String × Declaration :=
  ([e.name], .enum e)

/-- What is declared at a path of names, where a scope has these messages and enums. -/
inductive Declares : List Message → List Enumeration → List String → Declaration → Prop where
  | message {ms : List Message} {es : List Enumeration} {m : Message} (hm : m ∈ ms) :
      Declares ms es [m.name] (.message m)
  | enum {ms : List Message} {es : List Enumeration} {e : Enumeration} (he : e ∈ es) :
      Declares ms es [e.name] (.enum e)
  | nested {ms : List Message} {es : List Enumeration} {m : Message} {path : List String}
      {d : Declaration} (hm : m ∈ ms) (hd : Declares m.messages m.enums path d) :
      Declares ms es (m.name :: path) d

/-- A message or an enum of a scope declares what is declared there. -/
theorem declares_iff {ms : List Message} {es : List Enumeration} {path : List String}
    {d : Declaration} :
    Declares ms es path d ↔
      (∃ m ∈ ms, Declares [m] [] path d) ∨ ∃ e ∈ es, Enumeration.declaration e = (path, d) := by
  constructor
  · rintro (hm | he | ⟨hm, hd⟩)
    · exact .inl ⟨_, hm, .message List.mem_cons_self⟩
    · exact .inr ⟨_, he, rfl⟩
    · exact .inl ⟨_, hm, .nested List.mem_cons_self hd⟩
  · rintro (⟨m, hm, h⟩ | ⟨e, he, heq⟩)
    · cases h with
      | message h => exact .message (List.mem_singleton.mp h ▸ hm)
      | enum h => cases h
      | nested h hd => exact .nested (List.mem_singleton.mp h ▸ hm) hd
    · cases heq
      exact .enum he

/-- A message declares itself and, behind its name, what is declared in it. -/
theorem declares_singleton_iff {m : Message} {path : List String} {d : Declaration} :
    Declares [m] [] path d ↔
      (path, d) = ([m.name], .message m) ∨ ∃ rest, Declares m.messages m.enums rest d ∧
        m.name :: rest = path := by
  constructor
  · intro h
    cases h with
    | message hm => exact .inl (by rw [List.mem_singleton.mp hm])
    | enum he => cases he
    | nested hm hd =>
        obtain rfl := List.mem_singleton.mp hm
        exact .inr ⟨_, hd, rfl⟩
  · rintro (heq | ⟨rest, hd, rfl⟩)
    · cases heq
      exact .message List.mem_cons_self
    · exact .nested List.mem_cons_self hd

/-- A path as it is written. -/
def dotted (path : List String) : String :=
  ".".intercalate path

theorem Declares.path_ne_nil {ms : List Message} {es : List Enumeration} {path : List String}
    {d : Declaration} (h : Declares ms es path d) : path ≠ [] := by
  cases h <;> simp

theorem dotted_singleton (name : String) : dotted [name] = name :=
  String.intercalate_singleton

theorem dotted_cons {name : String} {path : List String} (hpath : path ≠ []) :
    dotted (name :: path) = name ++ "." ++ dotted path :=
  String.intercalate_cons_of_ne_nil hpath

theorem dotted_append {path path' : List String} (hpath : path ≠ []) (hpath' : path' ≠ []) :
    dotted (path ++ path') = dotted path ++ "." ++ dotted path' := by
  induction path with
  | nil => exact absurd rfl hpath
  | cons name path ih =>
      rw [List.cons_append]
      by_cases hrest : path = []
      · rw [hrest, List.nil_append, dotted_cons hpath', dotted_singleton]
      · rw [dotted_cons (List.append_ne_nil_of_left_ne_nil hrest _), ih hrest, dotted_cons hrest]
        simp only [String.append_assoc]

/-- What holds of a message if it holds of the messages in it holds of all messages. -/
theorem Message.nesting {motive : Message → Prop}
    (step : ∀ m : Message, (∀ n ∈ m.messages, motive n) → motive m) (m : Message) : motive m :=
  step m fun n _ => Message.nesting step n
  termination_by m
  decreasing_by
    cases m
    have := List.sizeOf_lt_of_mem ‹n ∈ _›
    simp only [Message.mk.sizeOf_spec] at this ⊢
    omega

/-! ### The list of declarations -/

namespace Message

mutual

/-- What a message declares, itself included, with paths that start with its name. -/
def declarations : Message → List (List String × Declaration)
  | m@⟨name, _, messages, enums, _, _, _, _, _⟩ =>
    ([name], .message m) ::
      (declarationsOf messages ++ enums.map Enumeration.declaration).map fun (path, d) =>
      (name :: path, d)

/-- What messages declare. -/
def declarationsOf : List Message → List (List String × Declaration)
  | [] => []
  | m :: ms => m.declarations ++ declarationsOf ms

end

mutual

/-- How many types a message declares, itself included. -/
def typeCount : Message → Nat
  | ⟨_, _, messages, enums, _, _, _, _, _⟩ => 1 + typeCountOf messages + enums.length

/-- How many types messages declare. -/
def typeCountOf : List Message → Nat
  | [] => 0
  | m :: ms => m.typeCount + typeCountOf ms

end

/-- What a scope with these messages and enums declares. -/
def scopeDeclarations (ms : List Message) (es : List Enumeration) :
    List (List String × Declaration) :=
  ms.flatMap declarations ++ es.map Enumeration.declaration

theorem declarationsOf_eq (ms : List Message) : declarationsOf ms = ms.flatMap declarations := by
  induction ms with
  | nil => rw [declarationsOf, List.flatMap_nil]
  | cons m ms ih => rw [declarationsOf, List.flatMap_cons, ih]

theorem nestedTypes_eq (scope : String) (ms : List Message) :
    nestedTypes scope ms = ms.flatMap fun m => m.types (nestedName scope m.name) := by
  induction ms with
  | nil => rw [nestedTypes, List.flatMap_nil]
  | cons m ms ih => rw [nestedTypes, List.flatMap_cons, ih]

theorem declarations_eq (m : Message) :
    m.declarations = ([m.name], .message m) ::
      (scopeDeclarations m.messages m.enums).map fun (path, d) => (m.name :: path, d) := by
  cases m
  rw [declarations, declarationsOf_eq]
  rfl

theorem typeCount_eq (m : Message) :
    m.typeCount = 1 + typeCountOf m.messages + m.enums.length := by
  cases m
  rw [typeCount]

/-- The types of a message are itself, those of its messages and its enums. -/
theorem types_eq (fullName : String) (m : Message) :
    m.types fullName = ⟨.message, m.name, fullName⟩ ::
      ((m.messages.flatMap fun n => n.types (nestedName fullName n.name)) ++
        m.enums.map (·.entry (nestedName fullName))) := by
  cases m
  rw [types, nestedTypes_eq, List.cons_append]

theorem length_scopeDeclarations {ms : List Message}
    (h : ∀ m ∈ ms, m.declarations.length = m.typeCount)
    (es : List Enumeration) : (scopeDeclarations ms es).length = typeCountOf ms + es.length := by
  rw [scopeDeclarations, List.length_append, List.length_map]
  refine congrArg (· + es.length) ?_
  induction ms with
  | nil => rw [typeCountOf, List.flatMap_nil, List.length_nil]
  | cons m ms ih =>
      rw [List.flatMap_cons, List.length_append, typeCountOf, h m List.mem_cons_self,
        ih fun n hn => h n (List.mem_cons_of_mem m hn)]

/-- There is one entry for each declaration. -/
theorem length_declarations (m : Message) : m.declarations.length = m.typeCount := by
  induction m using nesting with
  | step m ih =>
      rw [declarations_eq, typeCount_eq, List.length_cons, List.length_map,
        length_scopeDeclarations ih]
      omega

theorem mem_scopeDeclarations_of {ms : List Message} {es : List Enumeration}
    (h : ∀ m ∈ ms, ∀ path d, (path, d) ∈ m.declarations ↔ Declares [m] [] path d)
    (path : List String)
    (d : Declaration) : (path, d) ∈ scopeDeclarations ms es ↔ Declares ms es path d := by
  rw [declares_iff, scopeDeclarations, List.mem_append, List.mem_flatMap, List.mem_map]
  exact or_congr_left (exists_congr fun m => and_congr_right fun hm => h m hm path d)

/-- The list holds exactly what is declared in a message. -/
theorem mem_declarations_iff (m : Message) (path : List String) (d : Declaration) :
    (path, d) ∈ m.declarations ↔ Declares [m] [] path d := by
  induction m using nesting generalizing path d with
  | step m ih =>
      rw [declarations_eq, declares_singleton_iff, List.mem_cons, List.mem_map]
      refine or_congr_right ?_
      constructor
      · rintro ⟨⟨rest, d'⟩, hmem, heq⟩
        cases heq
        exact ⟨rest, (mem_scopeDeclarations_of ih rest d).mp hmem, rfl⟩
      · rintro ⟨rest, hd, rfl⟩
        exact ⟨(rest, d), (mem_scopeDeclarations_of ih rest d).mpr hd, rfl⟩

/-- The list of declarations has what a scope declares. -/
theorem mem_scopeDeclarations_iff {ms : List Message} {es : List Enumeration} {path : List String}
    {d : Declaration} : (path, d) ∈ scopeDeclarations ms es ↔ Declares ms es path d :=
  mem_scopeDeclarations_of (fun m _ => mem_declarations_iff m) path d

theorem head_of_mem_declarations {m : Message} {place : List String × Declaration}
    (h : place ∈ m.declarations) : place.1.head? = some m.name := by
  rw [declarations_eq] at h
  rcases List.mem_cons.mp h with rfl | h
  · rfl
  · obtain ⟨inner, -, rfl⟩ := List.mem_map.mp h
    rfl

/-- In a scope whose messages and enums have different names, different declarations have different
paths: they start differently, or behind the same message they go on differently. -/
theorem nodup_scopePaths {ms : List Message} {es : List Enumeration}
    (hnames : (ms.map (·.name) ++ es.map (·.name)).Nodup)
    (hms : ∀ m ∈ ms, (m.declarations.map Prod.fst).Nodup) :
    ((scopeDeclarations ms es).map Prod.fst).Nodup := by
  obtain ⟨messages, enums, apart⟩ := List.nodup_append.mp hnames
  have heads (m : Message) (path : List String) (h : path ∈ m.declarations.map Prod.fst) :
      path.head? = some m.name := by
    obtain ⟨place, hplace, rfl⟩ := List.mem_map.mp h
    exact head_of_mem_declarations hplace
  rw [scopeDeclarations, List.map_append, List.map_flatMap, List.map_map, List.nodup_append]
  refine ⟨List.nodup_flatMap.mpr ⟨hms, ?_⟩, ?_, ?_⟩
  · refine (List.pairwise_map.mp messages).imp fun {m n} hne path hm hn => hne ?_
    exact Option.some.inj ((heads m path hm).symm.trans (heads n path hn))
  · have singles : es.map (Prod.fst ∘ Enumeration.declaration) = (es.map (·.name)).map ([·]) := by
      rw [List.map_map]
      rfl
    rw [singles]
    exact enums.map fun _ _ h => List.singleton_inj.mp h
  · rintro path hpath _ hother rfl
    obtain ⟨m, hm, hpath⟩ := List.mem_flatMap.mp hpath
    obtain ⟨e, he, rfl⟩ := List.mem_map.mp hother
    exact apart m.name (List.mem_map_of_mem hm) e.name (List.mem_map_of_mem he)
      (Option.some.inj (heads m _ hpath)).symm

theorem Declared.nodup_types {m : Message} (h : m.Declared) :
    (m.messages.map (·.name) ++ m.enums.map (·.name)).Nodup :=
  h.scope.sublist (.append (List.sublist_append_right _ _) (.refl _))

/-- The declarations of a valid message have different paths. -/
theorem Valid.nodup_paths {m : Message} (h : m.Valid) : (m.declarations.map Prod.fst).Nodup := by
  induction h with
  | @intro m declared _ _ ih =>
      have inner := nodup_scopePaths declared.nodup_types ih
      have paths : m.declarations.map Prod.fst =
          [m.name] :: ((scopeDeclarations m.messages m.enums).map Prod.fst).map (m.name :: ·) := by
        rw [declarations_eq, List.map_cons, List.map_map, List.map_map]
        rfl
      rw [paths, List.nodup_cons]
      refine ⟨fun hself => ?_, inner.map fun _ _ h => (List.cons.inj h).2⟩
      -- No path in the scope of a message is empty.
      obtain ⟨path, hpath, heq⟩ := List.mem_map.mp hself
      obtain ⟨place, hplace, rfl⟩ := List.mem_map.mp hpath
      exact (mem_scopeDeclarations_iff.mp hplace).path_ne_nil (List.cons.inj heq).2

end Message

/-! ### Types -/

/-- The entry of a type that is declared at a path, with a scope put in front of names. -/
def entryAt (qualify : String → String) (place : List String × Declaration) : TypeEntry :=
  ⟨place.2.sort, place.2.name, qualify (dotted place.1)⟩

theorem Enumeration.entry_eq (qualify : String → String) (e : Enumeration) :
    e.entry qualify = entryAt qualify e.declaration := by
  rw [entryAt, Enumeration.declaration, dotted_singleton]
  rfl

/-- Putting a scope in front of a name leaves alone what stands behind a dot in it. -/
def Qualifies (qualify : String → String) : Prop :=
  ∀ a b, qualify (a ++ "." ++ b) = qualify a ++ "." ++ b

theorem nestedName_qualifies (scope : String) : Qualifies (nestedName scope) := by
  intro a b
  simp only [nestedName, String.append_assoc]

theorem SchemaFile.qualify_qualifies (f : SchemaFile) : Qualifies f.qualify := by
  intro a b
  unfold SchemaFile.qualify
  split
  · simp only [String.append_assoc]
  · rfl

/-- The types of a message are its declarations under qualified names. -/
theorem Message.types_eq_declarations {qualify : String → String} (hqualify : Qualifies qualify)
    (m : Message) : m.types (qualify m.name) = m.declarations.map (entryAt qualify) := by
  induction m using nesting generalizing qualify with
  | step m ih =>
      have inside : Qualifies (nestedName (qualify m.name)) := nestedName_qualifies _
      have deeper {place : List String × Declaration} (hplace : place.1 ≠ []) :
          entryAt (nestedName (qualify m.name)) place = entryAt qualify
            (m.name :: place.1, place.2) := by
        simp only [entryAt, dotted_cons hplace, hqualify _ _, nestedName]
      rw [types_eq, declarations_eq, List.map_cons, List.map_map, scopeDeclarations,
        List.map_append,
        List.map_flatMap, List.map_map]
      refine congrArg₂ List.cons ?_ (congrArg₂ (· ++ ·) ?_ ?_)
      · rw [entryAt, dotted_singleton]
        rfl
      · refine List.flatMap_congr fun n hn => ?_
        rw [ih n hn inside]
        refine List.map_congr_left fun place hplace => deeper ?_
        exact ((mem_declarations_iff n place.1 place.2).mp hplace).path_ne_nil
      · refine List.map_congr_left fun e _ => ?_
        rw [e.entry_eq]
        exact deeper (List.cons_ne_nil e.name [])

namespace SchemaFile

/-- What is declared at a path in a file. -/
def Declares (f : SchemaFile) (path : List String) (d : Declaration) : Prop :=
  ProtoRoutes.Declares f.messages f.enums path d

/-- How many types a file declares. -/
def typeCount (f : SchemaFile) : Nat :=
  Message.typeCountOf f.messages + f.enums.length

/-- The types of a file are its declarations under their full names. -/
theorem types_eq_declarations (f : SchemaFile) :
    f.types = (Message.scopeDeclarations f.messages f.enums).map (entryAt f.qualify) := by
  rw [types, Message.scopeDeclarations, List.map_append, List.map_flatMap, List.map_map]
  refine congrArg₂ (· ++ ·) ?_ ?_
  · exact List.flatMap_congr fun m _ => m.types_eq_declarations f.qualify_qualifies
  · exact List.map_congr_left fun e _ => e.entry_eq f.qualify

theorem length_types (f : SchemaFile) : f.types.length = f.typeCount := by
  rw [types_eq_declarations, List.length_map, Message.length_scopeDeclarations fun m _ =>
    m.length_declarations,
    typeCount]

theorem mem_types_iff {f : SchemaFile} {entry : TypeEntry} :
    entry ∈ f.types ↔ ∃ path d, f.Declares path d ∧
      entry = ⟨d.sort, d.name, f.qualify (dotted path)⟩ := by
  rw [types_eq_declarations, List.mem_map]
  constructor
  · rintro ⟨⟨path, d⟩, hmem, rfl⟩
    exact ⟨path, d, Message.mem_scopeDeclarations_iff.mp hmem, rfl⟩
  · rintro ⟨path, d, hd, rfl⟩
    exact ⟨(path, d), Message.mem_scopeDeclarations_iff.mpr hd, rfl⟩

theorem Valid.nodup_types {f : SchemaFile} (h : f.Valid) :
    (f.messages.map (·.name) ++ f.enums.map (·.name)).Nodup :=
  h.scope.sublist (.append (List.sublist_append_right _ _) (.refl _))

end SchemaFile

/-! ### Names and paths -/

theorem dot_notMem_of_isIdent {name : String} (h : isIdent name = true) : '.' ∉ name.toList := by
  unfold isIdent at h
  split at h
  · cases h
  · next c cs hchars =>
      rw [Bool.and_eq_true, List.all_eq_true] at h
      rw [hchars, List.mem_cons, not_or]
      refine ⟨fun heq => ?_, fun hmem => absurd (h.2 _ hmem) (by decide)⟩
      rw [← heq] at h
      exact absurd h.1 (by decide)

/-- The parts of a path are identifiers if the names are. -/
theorem Declares.isIdent {ms : List Message} {es : List Enumeration} {path : List String}
    {d : Declaration} (h : Declares ms es path d) (hms : ∀ m ∈ ms, m.WellNamed)
    (hes : ∀ e ∈ es, isIdent e.name = true) : ∀ name ∈ path, isIdent name = true := by
  induction h with
  | message hm =>
      obtain ⟨name, -, -⟩ := hms _ hm
      simpa using name
  | enum he => simpa using hes _ he
  | nested hm _ ih =>
      obtain ⟨name, enums, nested⟩ := hms _ hm
      exact List.forall_mem_cons.mpr ⟨name, ih nested enums⟩

/-- The names of a path can be read off its written form. -/
theorem pieces_dotted {path : List String} (hpath : path ≠ [])
    (hident : ∀ name ∈ path, isIdent name = true) :
    ((dotted path).toList.splitOn '.').map String.ofList = path := by
  have dotless : ∀ cs ∈ path.map String.toList, '.' ∉ cs := by
    intro cs hcs
    obtain ⟨name, hname, rfl⟩ := List.mem_map.mp hcs
    exact dot_notMem_of_isIdent (hident name hname)
  have chars : (dotted path).toList = ['.'].intercalate (path.map String.toList) :=
    String.toList_intercalate
  rw [chars, List.splitOn_intercalate '.' dotless (by simpa using hpath), List.map_map]
  simp

/-- What starts with an identifier does not start with a dot. -/
theorem dropWhile_dots {first : String} (hfirst : isIdent first = true) (cs : List Char) :
    (first.toList ++ cs).dropWhile (· = '.') = first.toList ++ cs := by
  have dotless := dot_notMem_of_isIdent hfirst
  unfold isIdent at hfirst
  split at hfirst
  · cases hfirst
  · next c rest hchars =>
      rw [hchars] at dotless ⊢
      rw [List.cons_append, List.dropWhile_cons_of_neg]
      simpa using fun heq : c = '.' => dotless (heq ▸ List.mem_cons_self)

theorem dropWhile_dots_dotted {path : List String} (hpath : path ≠ [])
    (hident : ∀ name ∈ path, isIdent name = true) :
    (dotted path).toList.dropWhile (· = '.') = (dotted path).toList := by
  cases path with
  | nil => exact absurd rfl hpath
  | cons first others =>
      have hfirst := hident first List.mem_cons_self
      by_cases hothers : others = []
      · rw [hothers, dotted_singleton]
        simpa using dropWhile_dots hfirst []
      · rw [dotted_cons hothers, String.append_assoc, String.toList_append]
        exact dropWhile_dots hfirst _

/-! ### Messages by path -/

/-- Among valid messages with different names, the walk down a path ends at the message that is
declared there. -/
theorem messageAt?_eq_some_iff {ms : List Message} (es : List Enumeration)
    (hnames : (ms.map (·.name)).Nodup) (hvalid : ∀ m ∈ ms, m.Valid) {path : List String}
    {m : Message} :
    SchemaFile.messageAt? ms path = some m ↔ Declares ms es path (.message m) := by
  induction path generalizing ms es with
  | nil => exact ⟨(nomatch ·), fun h => absurd rfl h.path_ne_nil⟩
  | cons name path ih =>
      cases path with
      | nil =>
          rw [SchemaFile.messageAt?, Grammar.find?_key_eq_some_iff hnames]
          constructor
          · rintro ⟨hm, rfl⟩
            exact .message hm
          · intro h
            cases h with
            | message hm => exact ⟨hm, rfl⟩
            | nested _ hd => exact absurd rfl hd.path_ne_nil
      | cons next rest =>
          have inside {n : Message} (hn : n ∈ ms) :
              SchemaFile.messageAt? n.messages (next :: rest) = some m ↔
              Declares n.messages n.enums (next :: rest) (.message m) := by
            obtain ⟨declared, -, nested⟩ := hvalid n hn
            exact ih n.enums (List.nodup_append.mp declared.nodup_types).1 nested
          rw [SchemaFile.messageAt?, Option.bind_eq_some_iff]
          · constructor
            · rintro ⟨n, hfound, hrest⟩
              obtain ⟨hn, rfl⟩ := (Grammar.find?_key_eq_some_iff hnames).mp hfound
              exact .nested hn ((inside hn).mp hrest)
            · intro h
              cases h with
              | nested hn hd =>
                  exact ⟨_, (Grammar.find?_key_eq_some_iff hnames).mpr ⟨hn, rfl⟩,
                    (inside hn).mpr hd⟩
          · exact fun h => nomatch h

/-! ### Messages by name -/

/-- Dots in front of a name. -/
def dots (n : Nat) : String :=
  String.ofList (List.replicate n '.')

namespace SchemaFile

/-- The names by which a path can be asked for: the qualified name, or the path alone unless it
looks like a qualified name, both with any number of dots in front of them. -/
inductive Spells (f : SchemaFile) : String → List String → Prop where
  | qualified (n : Nat) (path : List String) : Spells f (dots n ++ f.qualify (dotted path)) path
  | bare (n : Nat) {path : List String}
      (hbare : ∀ package, f.package = some package → ¬ (package ++ ".").toList <+:
      (dotted path).toList) :
      Spells f (dots n ++ dotted path) path

theorem toList_dots_append (n : Nat) (text : String) :
    (dots n ++ text).toList = List.replicate n '.' ++ text.toList := by
  rw [dots, String.toList_append, String.toList_ofList]

theorem dropWhile_dots_append (n : Nat) (text : String) :
    (dots n ++ text).toList.dropWhile (· = '.') = text.toList.dropWhile (· = '.') := by
  rw [toList_dots_append]
  refine List.dropWhile_append_of_pos fun c hc => ?_
  simpa using List.eq_of_mem_replicate hc

/-- A text is some dots and what stands behind them. -/
theorem exists_dots (text : String) :
    ∃ n, text = dots n ++ String.ofList (text.toList.dropWhile (· = '.')) := by
  refine ⟨(text.toList.takeWhile (· = '.')).length, ?_⟩
  have front : text.toList.takeWhile (· = '.') =
      List.replicate (text.toList.takeWhile (· = '.')).length '.' :=
    List.eq_replicate_of_mem fun c hc => by simpa using List.mem_takeWhile_imp hc
  rw [← String.toList_inj, toList_dots_append, String.toList_ofList, ← front,
    List.takeWhile_append_dropWhile]

variable {f : SchemaFile} {path : List String}

theorem toList_scope (package : String) : (package ++ ".").toList = package.toList ++ ['.'] := by
  rw [String.toList_append]
  rfl

/-- A qualified name does not start with a dot. -/
theorem WellNamed.dropWhile_dots_qualify (hnamed : f.WellNamed) (hpath : path ≠ [])
    (hident : ∀ name ∈ path, isIdent name = true) :
    (f.qualify (dotted path)).toList.dropWhile (· = '.') = (f.qualify (dotted path)).toList := by
  unfold qualify
  split
  · next package hpackage =>
      obtain ⟨first, others, heq, hall⟩ := hnamed.package package hpackage
      have whole : package ++ "." ++ dotted path = dotted (first :: others ++ path) := by
        rw [heq, dotted_append (List.cons_ne_nil _ _) hpath]
        rfl
      rw [whole]
      exact dropWhile_dots_dotted (by simp) (List.forall_mem_append.mpr ⟨hall, hident⟩)
  · exact dropWhile_dots_dotted hpath hident

theorem localName_of_none (h : f.package = none) (name : String) :
    f.localName name = name.toList.dropWhile (· = '.') := by
  rw [localName, h]

/-- The package is cut off a name that starts with it. -/
theorem localName_of_some {package : String} (h : f.package = some package) (name : String) :
    f.localName name =
      if (package ++ ".").toList <+: name.toList.dropWhile (· = '.') then
        (name.toList.dropWhile (· = '.')).drop (package ++ ".").toList.length
      else name.toList.dropWhile (· = '.') := by
  rw [localName, h, toList_scope]
  simp only [List.isPrefixOf_iff_prefix]

/-- A name stands for a path if and only if the path is what is left of the name without its dots
and its package. -/
theorem WellNamed.spells_iff (hnamed : f.WellNamed) (hpath : path ≠ [])
    (hident : ∀ name ∈ path, isIdent name = true) {name : String} :
    f.Spells name path ↔ f.localName name = (dotted path).toList := by
  constructor
  · intro h
    cases h with
    | qualified n =>
        have stripped : (dots n ++ f.qualify (dotted path)).toList.dropWhile (· = '.') =
            (f.qualify (dotted path)).toList := by
          rw [dropWhile_dots_append, hnamed.dropWhile_dots_qualify hpath hident]
        cases hpackage : f.package with
        | none => rw [localName_of_none hpackage, stripped, qualify, hpackage]
        | some package =>
            have behind : (f.qualify (dotted path)).toList =
                (package ++ ".").toList ++ (dotted path).toList := by
              rw [qualify, hpackage, ← String.toList_append]
            rw [localName_of_some hpackage, stripped, behind, if_pos (List.prefix_append _ _),
              List.drop_left]
    | bare n hbare =>
        have stripped : (dots n ++ dotted path).toList.dropWhile (· = '.') =
            (dotted path).toList := by
          rw [dropWhile_dots_append, dropWhile_dots_dotted hpath hident]
        cases hpackage : f.package with
        | none => rw [localName_of_none hpackage, stripped]
        | some package => rw [localName_of_some hpackage, stripped, if_neg (hbare package hpackage)]
  · intro h
    obtain ⟨n, hname⟩ := exists_dots name
    rw [hname]
    cases hpackage : f.package with
    | none =>
        rw [← localName_of_none hpackage, h, String.ofList_toList]
        exact .bare n fun package heq => by simp [hpackage] at heq
    | some package =>
        rw [localName_of_some hpackage] at h
        split at h
        · next hscope =>
            obtain ⟨rest, hrest⟩ := hscope
            rw [← hrest, List.drop_left] at h
            have whole : f.qualify (dotted path) = package ++ "." ++ dotted path := by
              rw [qualify, hpackage]
            rw [← hrest, h, ← String.toList_append, String.ofList_toList, ← whole]
            exact .qualified n path
        · next hscope =>
            rw [h, String.ofList_toList]
            refine .bare n fun p hp hprefix => hscope ?_
            obtain rfl := Option.some.inj (hpackage.symm.trans hp)
            rw [h]
            exact hprefix

/-! ### Listing and looking up -/

/-- The types of a valid file have different qualified names. -/
theorem nodup_fullNames (hvalid : f.Valid) (hnamed : f.WellNamed) :
    (f.types.map (·.fullName)).Nodup := by
  have hpaths : ((Message.scopeDeclarations f.messages f.enums).map Prod.fst).Nodup :=
    Message.nodup_scopePaths hvalid.nodup_types fun m hm => (hvalid.messages m hm).nodup_paths
  have hnames : f.types.map (·.fullName) =
      ((Message.scopeDeclarations f.messages f.enums).map Prod.fst).map (f.qualify ∘ dotted) := by
    rw [types_eq_declarations, List.map_map, List.map_map]
    rfl
  rw [hnames]
  -- A qualified name stands for one path only.
  have back {path : List String}
      (h : path ∈ (Message.scopeDeclarations f.messages f.enums).map Prod.fst) :
      ((f.localName (f.qualify (dotted path))).splitOn '.').map String.ofList = path := by
    obtain ⟨place, hplace, rfl⟩ := List.mem_map.mp h
    have hd := Message.mem_scopeDeclarations_iff.mp hplace
    have hident := hd.isIdent hnamed.messages hnamed.enums
    have spelled := (hnamed.spells_iff hd.path_ne_nil hident).mp (.qualified 0 place.1)
    rw [show dots 0 = "" from rfl, String.empty_append] at spelled
    rw [spelled, pieces_dotted hd.path_ne_nil hident]
  refine hpaths.map_on fun a ha b hb heq => ?_
  rw [← back ha, ← back hb]
  exact congrArg (fun name => ((f.localName name).splitOn '.').map String.ofList) heq

/-- In a valid file a name finds the message that is declared at the path for which it stands. -/
theorem findMessage?_eq_some_iff (hvalid : f.Valid) (hnamed : f.WellNamed) {name : String}
    {m : Message} :
    f.findMessage? name = some m ↔ ∃ path, f.Declares path (.message m) ∧ f.Spells name path := by
  have walk {path : List String} : messageAt? f.messages path = some m ↔
      f.Declares path (.message m) :=
    messageAt?_eq_some_iff f.enums (List.nodup_append.mp hvalid.nodup_types).1 hvalid.messages
  unfold findMessage?
  constructor
  · intro h
    have hd := walk.mp h
    refine ⟨_, hd,
      (hnamed.spells_iff hd.path_ne_nil (hd.isIdent hnamed.messages hnamed.enums)).mpr ?_⟩
    have chars : (dotted (((f.localName name).splitOn '.').map String.ofList)).toList =
        ['.'].intercalate
        ((((f.localName name).splitOn '.').map String.ofList).map String.toList) :=
      String.toList_intercalate
    rw [chars, List.map_map, show String.toList ∘ String.ofList = id from funext fun _ =>
      String.toList_ofList,
      List.map_id, List.intercalate_splitOn]
  · rintro ⟨path, hd, hspells⟩
    have hident := hd.isIdent hnamed.messages hnamed.enums
    rw [(hnamed.spells_iff hd.path_ne_nil hident).mp hspells, pieces_dotted hd.path_ne_nil hident]
    exact walk.mpr hd

end SchemaFile

/-- **Listing types and looking messages up are inverse to each other.** In a file that was read in
strict mode the types have different qualified names, and there is one for each message and each
enum at every depth. A name finds a message if and only if it stands for the path at which the
message is declared: if it is the qualified name, or the path unless this starts like a qualified
name, with any number of dots in front. -/
theorem types_and_lookup_inverse {comments : Bool} {text : String} {f : SchemaFile}
    (hread : Grammar.parse ⟨true, comments⟩ text = .ok f) :
    (f.types.map (·.fullName)).Nodup ∧
    f.types.length = f.typeCount ∧
    (∀ entry, entry ∈ f.types ↔
      ∃ path d, f.Declares path d ∧ entry = ⟨d.sort, d.name, f.qualify (dotted path)⟩) ∧
    (∀ name m, f.findMessage? name = some m ↔
      ∃ path, f.Declares path (.message m) ∧ f.Spells name path) := by
  have hvalid := Grammar.parse_valid hread
  have hnamed := Grammar.parse_wellNamed hread
  exact ⟨SchemaFile.nodup_fullNames hvalid hnamed, f.length_types,
    fun _ => SchemaFile.mem_types_iff,
    fun _ _ => SchemaFile.findMessage?_eq_some_iff hvalid hnamed⟩

/-- A package, a message and a nested message that share their names. -/
def shadowed : String :=
  "package a; message a \x7b message b \x7b enum c \x7b \x7d \x7d \x7d message b \x7b \x7d"

/-- Here `a.b` is the message behind the package, and the nested one has to be asked for as `a.a.b`.
-/
theorem types_and_lookup_inverse_shadowed :
    ∃ f, Grammar.parse ⟨true, false⟩ shadowed = .ok f ∧
      f.types.map (·.fullName) = ["a.a", "a.a.b", "a.a.b.c", "a.b"] ∧
      (f.types.map (·.fullName)).Nodup ∧
      ∃ m path, f.findMessage? "..a.a.b" = some m ∧ m.enums.length = 1 ∧
        f.Declares path (.message m) ∧ f.Spells "..a.a.b" path := by
  obtain ⟨f, hread, htest⟩ := Grammar.exists_ok_of_toOption
    (x := Grammar.parse ⟨true, false⟩ shadowed) (b := true)
    (g := fun f => f.types.map (·.fullName) = ["a.a", "a.a.b", "a.a.b.c", "a.b"] &&
      (f.findMessage? "..a.a.b").any (·.enums.length = 1))
    (by decide +kernel)
  rw [Bool.and_eq_true, decide_eq_true_eq, Option.any_eq_true] at htest
  obtain ⟨hnames, m, hfound, hlength⟩ := htest
  obtain ⟨hnodup, -, -, hlookup⟩ := types_and_lookup_inverse hread
  obtain ⟨path, hdeclared, hspells⟩ := (hlookup _ m).mp hfound
  exact ⟨f, hread, hnames, hnodup, m, path, hfound, of_decide_eq_true hlength, hdeclared, hspells⟩

end ProtoRoutes
