import ProtoRoutes.Proofs.Grammar.RoundTrip.Messages
import ProtoRoutes.Proofs.Grammar.Strict

/-!
# ProtoRoutes.Proofs.Grammar.RoundTrip.Files

A schema file that is printed is read back as it was: `parse_print`. In lenient mode that needs a
file that can be written down at all, and in strict mode one that strict mode accepts.

The text of a file is words with blanks between them. The lexer makes tokens of them that say the
same, and the rule of files reads such tokens to the end.
-/

namespace ProtoRoutes.Grammar

open Source (Word isIdent wordKind_keyword)

variable {mode : Mode}

/-! ### Header -/

theorem ofText?_version (v : Version) : Version.ofText? v.text = some v := by
  cases v <;> decide

theorem version_reads (mode : Mode) (v : Version) :
    Consumes (· = v) [Keyword.syntaxKw.word, .sign .equals, .quoted v.text, .sign .semicolon]
      (version mode) := by
  unfold version
  refine (expectKeyword_reads .syntaxKw).token fun _ _ => ?_
  refine (expectSign_reads .equals).token fun _ _ => ?_
  refine (expectKind_reads (w := .quoted v.text) trivial rfl).token fun t ht => ?_
  have known : Version.ofText? t.text = some v := by
    rw [text_of_shape ht]
    exact ofText?_version v
  rw [known]
  refine (expectSign_reads .semicolon).token fun _ _ => ?_
  exact (takeTrailing_reads mode).quiet fun _ _ => .pure rfl

theorem package_reads (mode : Mode) {name : String} (h : IsFullIdent name) :
    Consumes (· = name) (packageWords name) (package mode) := by
  unfold package packageWords
  refine (expectKeyword_reads .packageKw).token fun _ _ => ?_
  refine (fullIdent_reads h).before (.cons (by simp [Word.shape])) fun text htext => ?_
  refine (expectSign_reads .semicolon).token fun _ _ => ?_
  exact (takeTrailing_reads mode).quiet fun _ _ => .pure htext

theorem importKind_reads (k : ImportKind) : Reads (· = .string) (· = k) k.words importKind := by
  unfold importKind
  cases k with
  | normal =>
      refine peek_ahead ⟨.string, rfl⟩ fun t ht => ?_
      rw [if_neg (by simp [Token.isWord, ht]), if_neg (by simp [Token.isWord, ht])]
      exact .pure rfl
  | exported =>
      refine peek_reads fun t ht => ?_
      have kind : t.kind = .ident := (kind_of_shape ht).trans (by decide)
      have text : t.text = "public" := text_of_shape ht
      rw [if_pos (by simp [Token.isWord, kind, text])]
      have ident : isIdent "public" = true := by decide
      exact (advance_reads (w := .name "public") ident).token fun _ _ => .pure rfl
  | weak =>
      refine peek_reads fun t ht => ?_
      have kind : t.kind = .ident := (kind_of_shape ht).trans (by decide)
      have text : t.text = "weak" := text_of_shape ht
      rw [if_neg (by simp [Token.isWord, text]), if_pos (by simp [Token.isWord, kind, text])]
      have ident : isIdent "weak" = true := by decide
      exact (advance_reads (w := .name "weak") ident).token fun _ _ => .pure rfl

theorem importStatement_reads (mode : Mode) (i : Import) :
    Consumes (· = i) i.words (importStatement mode) := by
  unfold importStatement Import.words
  refine (expectKeyword_reads .importKw).token fun _ _ => ?_
  refine (importKind_reads i.kind).before (.cons rfl) fun kind hkind => ?_
  refine (stringValue_reads i.path).before (.cons (by simp [Word.shape])) fun path hpath => ?_
  refine (expectSign_reads .semicolon).token fun _ _ => ?_
  exact (takeTrailing_reads mode).quiet fun _ _ => .pure (by rw [hkind, hpath])

/-- What a statement of the header starts with. -/
def StartsHeader (k : TokenKind) : Prop :=
  k = .keyword .packageKw ∨ k = .keyword .importKw ∨ k = .keyword .optionKw

/-- What is next behind a header: a definition, or the end of the text. -/
def EndsHeader (k : TokenKind) : Prop :=
  k = .keyword .serviceKw ∨ k = .keyword .messageKw ∨ k = .keyword .enumKw ∨ k = .eof

/-- A package statement, of which there is one at most. -/
def headerPackage (name : String) : Clause SchemaFile :=
  ⟨packageWords name, fun f =>
    if f.package.isSome then none else some { f with package := some name }⟩

/-- An import of a file. -/
def headerImport (i : Import) : Clause SchemaFile :=
  ⟨i.words, fun f => some { f with imports := f.imports ++ [i] }⟩

/-- An option of a file. -/
def headerOption (o : SchemaOption) : Clause SchemaFile :=
  ⟨o.statement, fun f => some { f with options := f.options ++ [o] }⟩

/-- A package statement is read into a file that has none. -/
theorem headerItem_package {name : String} (h : IsFullIdent name) :
    (headerPackage name).ReadBy StartsHeader id (headerItem mode) := by
  refine .keyword (.inl rfl) fun f t b kind hb => ?_
  have first : f.package.isSome = false := by
    by_contra hpackage
    simp [hpackage] at hb
  have made : b = { f with package := some name } := by
    simpa [first] using hb.symm
  rw [headerItem, kind]
  simp only [first]
  exact (package_reads mode h).finish fun text htext => .pure (by rw [htext, made]; rfl)

theorem headerItem_import (i : Import) :
    (headerImport i).ReadBy StartsHeader id (headerItem mode) := by
  refine .item (.inr (.inl rfl)) (importStatement_reads mode i) (fun _ _ kind => by
    rw [headerItem, kind])
    fun _ _ => ?_
  exact .pure (by rfl)

theorem headerItem_option {o : SchemaOption} (h : o.Printable maxDepth) :
    (headerOption o).ReadBy StartsHeader id (headerItem mode) := by
  refine .item (.inr (.inr rfl)) (optionStatement_reads mode h) (fun _ _ kind => by
    rw [headerItem, kind])
    fun _ _ => ?_
  exact .pure (by rfl)

/-- The statements of a header behind the version. -/
def headerClauses (f : SchemaFile) : List (Clause SchemaFile) :=
  f.package.toList.map headerPackage ++ (f.imports.map headerImport ++ f.options.map headerOption)

/-- The clauses of the header make the file without its definitions. -/
theorem headerClauses_make (f : SchemaFile) :
    Makes (headerClauses f) { SchemaFile.empty with version := f.version }
      { f with services := [], messages := [], enums := [] } := by
  obtain ⟨version, package, imports, options, services, messages, enums⟩ := f
  have named : Makes (package.toList.map headerPackage) ⟨version, none, [], [], [], [], []⟩
      ⟨version, package, [], [], [], [], []⟩ := by
    cases package <;> rfl
  exact named.append <|
    (Makes.grow (fun l => SchemaFile.mk version package l [] [] [] []) fun _ _ _ => rfl).append <|
    Makes.grow (fun l => SchemaFile.mk version package imports l [] [] []) fun _ _ _ => rfl

/-- The header is read up to the first definition. -/
theorem header_reads {f : SchemaFile} (h : f.Printable) :
    Reads EndsHeader (· = { f with services := [], messages := [], enums := [] })
      (Keyword.syntaxKw.word :: .sign .equals :: .quoted f.version.text :: .sign .semicolon ::
        (headerClauses f).flatMap Clause.words) (header mode) := by
  have clauses : ∀ i ∈ headerClauses f, i.ReadBy StartsHeader id (headerItem mode) := by
    simp only [headerClauses, List.forall_mem_append, List.forall_mem_map]
    exact ⟨fun name hname => headerItem_package (h.package name (by simpa using hname)),
      fun i _ => headerItem_import i, fun o ho => headerItem_option (h.options o ho)⟩
  have more : ∀ t : Token, StartsHeader t.kind → isHeaderStart t = true := by
    rintro t (kind | kind | kind) <;> rw [isHeaderStart, kind]
  have stop : ∀ t : Token, EndsHeader t.kind → isHeaderStart t = false := by
    rintro t (kind | kind | kind | kind) <;> rw [isHeaderStart, kind]
  have statements := iterate_clauses more stop clauses (headerClauses_make f)
  unfold header
  refine peek_reads fun t ht => ?_
  have kind : t.kind = .keyword .syntaxKw := (kind_of_shape ht).trans (wordKind_keyword .syntaxKw)
  rw [if_pos kind]
  refine (version_reads mode f.version).andThen fun v hv => ?_
  rw [hv]
  exact statements

/-! ### Files -/

/-- A service of a file. -/
def fileService (s : Service) : Clause SchemaFile :=
  ⟨s.words, fun f => some { f with services := f.services ++ [s] }⟩

/-- A message of a file. -/
def fileMessage (m : Message) : Clause SchemaFile :=
  ⟨m.words, fun f => some { f with messages := f.messages ++ [m] }⟩

/-- An enum of a file. -/
def fileEnum (e : Enumeration) : Clause SchemaFile :=
  ⟨e.words, fun f => some { f with enums := f.enums ++ [e] }⟩

/-- What a definition starts with. -/
def StartsDefinition (k : TokenKind) : Prop :=
  k = .keyword .serviceKw ∨ k = .keyword .messageKw ∨ k = .keyword .enumKw

theorem definition_service (hmode : mode.strict = false) {s : Service} (h : s.Printable) :
    (fileService s).ReadBy StartsDefinition id (definition mode) := by
  refine .item (.inl rfl) (service_reads hmode h) (fun _ _ kind => by rw [definition, kind])
    fun _ _ => ?_
  exact (declare_reads hmode _ _ _).quiet fun _ _ => .pure (by rfl)

/-- In lenient mode no name is taken, so a message is always added. -/
theorem definition_message (hmode : mode.strict = false) {m : Message} (h : m.Printable maxDepth) :
    (fileMessage m).ReadBy StartsDefinition id (definition mode) := by
  have reads := message_reads hmode h
  obtain ⟨ws, hws⟩ := message_words m
  unfold fileMessage
  rw [hws] at reads ⊢
  refine .item (.inr (.inl rfl)) reads (fun _ _ kind => by rw [definition, kind]) fun _ _ => ?_
  exact (declare_reads hmode _ _ _).quiet fun _ _ => .pure (by rfl)

theorem definition_enum (hmode : mode.strict = false) {e : Enumeration} (h : e.Printable maxDepth) :
    (fileEnum e).ReadBy StartsDefinition id (definition mode) := by
  refine .item (.inr (.inr rfl)) (enumeration_reads hmode h) (fun _ _ kind => by
    rw [definition, kind])
    fun _ _ => ?_
  exact (declare_reads hmode _ _ _).quiet fun _ _ => .pure (by rfl)

/-- The definitions of a file. -/
def fileClauses (f : SchemaFile) : List (Clause SchemaFile) :=
  f.services.map fileService ++ (f.messages.map fileMessage ++ f.enums.map fileEnum)

/-- The clauses of the definitions make the whole file. -/
theorem fileClauses_make (f : SchemaFile) :
    Makes (fileClauses f) { f with services := [], messages := [], enums := [] } f := by
  obtain ⟨version, package, imports, options, services, messages, enums⟩ := f
  exact (Makes.grow (fun l => SchemaFile.mk version package imports options l [] [])
      fun _ _ _ => rfl).append <|
    (Makes.grow (fun l => SchemaFile.mk version package imports options services l [])
      fun _ _ _ => rfl).append <|
    Makes.grow (fun l => SchemaFile.mk version package imports options services messages l)
      fun _ _ _ => rfl

/-- The words of a file are those of its version, then of its clauses. -/
theorem file_words_clauses (f : SchemaFile) :
    f.words =
      (Keyword.syntaxKw.word :: .sign .equals :: .quoted f.version.text :: .sign .semicolon ::
      (headerClauses f).flatMap Clause.words) ++ (fileClauses f).flatMap Clause.words := by
  simp only [SchemaFile.words, headerClauses, fileClauses, List.flatMap_append, List.flatMap_map]
  rfl

/-- A printable file is read back from its words. -/
theorem file_reads (hmode : mode.strict = false) {f : SchemaFile} (h : f.Printable) :
    Reads (· = .eof) (· = f) f.words (file mode) := by
  have clauses : ∀ i ∈ fileClauses f, i.ReadBy StartsDefinition id (definition mode) := by
    simp only [fileClauses, List.forall_mem_append, List.forall_mem_map]
    exact ⟨fun s hs => definition_service hmode (h.services s hs),
      fun m hm => definition_message hmode (h.messages m hm),
      fun e he => definition_enum hmode (h.enums e he)⟩
  have definitions : Reads (· = .eof) (· = f) ((fileClauses f).flatMap Clause.words)
      (iterate (fun t => t.kind ≠ .eof) (definition mode)
        { f with services := [], messages := [], enums := [] }) := by
    refine iterate_clauses (fun t ht => ?_) (fun t ht => ?_) clauses (fileClauses_make f)
    · rcases ht with kind | kind | kind <;> simp [kind]
    · simp [ht]
  rw [file_words_clauses]
  unfold file
  refine (header_reads h).bind (fun rest hrest => ?_) fun made hmade => ?_
  · refine Starts.ahead_flatMap (fun i hi => (clauses i hi).starts.mono fun k hk => ?_)
      (.inr (.inr (.inr hrest)))
    exact hk.imp id fun hk => hk.imp id .inl
  · rw [hmade]
    exact definitions

theorem shape_ne_comment (w : Word) : w.shape.1 ≠ .comment := by
  cases w with
  | name text => exact wordKind_ne text (by simp) (by simp)
  | sign p => simp [Word.shape]
  | number n => simp [Word.shape]
  | quoted text => simp [Word.shape]

/-- Tokens without comments are in front of the place where a text is read from. -/
theorem ofStream_silent {s : TokenStream} (h : ∀ t ∈ s.tokens, t.kind ≠ .comment) :
    (Cursor.ofStream s).Silent ∧ (Cursor.ofStream s).shapes = s.tokens.map Token.shape := by
  obtain ⟨hfresh, hrest⟩ := attach_silent h
  refine ⟨⟨rfl, hfresh, hrest⟩, ?_⟩
  have all : s.tokens.filter (·.kind ≠ .comment) = s.tokens :=
    List.filter_eq_self.mpr fun t ht => by simpa using h t ht
  have tokens : (Cursor.ofStream s).tokens = s.tokens := (attach_tokens s.tokens).trans all
  rw [Cursor.shapes, tokens]

/-- Tokens with the shapes of the words are all that is looked at. -/
theorem file_tokens {s : TokenStream} {f : SchemaFile} (h : f.Printable)
    (hs : s.tokens.map Token.shape = f.words.map Word.shape) (comments : Bool) :
    ∃ d, file ⟨false, comments⟩ (.ofStream s) = .ok f d := by
  -- No word is a comment, so that nothing is attached to the tokens.
  have noComment : ∀ t ∈ s.tokens, t.kind ≠ .comment := by
    intro t ht
    have shape : t.shape ∈ f.words.map Word.shape := by
      rw [← hs]
      exact List.mem_map_of_mem ht
    obtain ⟨w, -, hw⟩ := List.mem_map.mp shape
    have kind := shape_ne_comment w
    rwa [hw] at kind
  obtain ⟨silent, shapes⟩ := ofStream_silent noComment
  have front : (Cursor.ofStream s).shapes = f.words.map Word.shape ++ [] := by
    rw [shapes, hs, List.append_nil]
  have reads : Reads (· = .eof) (· = f) f.words (file ⟨false, comments⟩) := file_reads rfl h
  obtain ⟨made, d, hrun, rfl, -, -⟩ := reads.run _ [] silent front rfl
  exact ⟨d, hrun⟩

/-- A file that is printed is read back as it was: by lenient mode always, and by strict mode if it
is valid. -/
theorem parse_print (strict comments : Bool) (f : SchemaFile) (hf : f.Printable)
    (hs : strict = true → f.Valid) : parse ⟨strict, comments⟩ f.print = .ok f := by
  have sound : ∀ w ∈ f.words, w.Sound :=
    (@file_reads ⟨false, comments⟩ rfl f hf).sound
  obtain ⟨s, htokens, hshapes⟩ := Source.tokens_spell sound
  obtain ⟨d, hlenient⟩ := file_tokens hf hshapes comments
  have run : file ⟨strict, comments⟩ (.ofStream s) = .ok f d := by
    cases strict with
    | false => exact hlenient
    | true => exact ((file_filters comments _ f d).mpr ⟨hlenient, hs rfl⟩).2
  rw [parse, read, SchemaFile.print, htokens]
  simp only [readTokens, run]

/-- A message with keywords as names, a oneof between other fields, and a message inside. -/
def shelf : Message :=
  ⟨"message",
    [⟨"stream", .plain (.ref (.parse false "map")), 1, .repeated, [], [], none⟩,
      ⟨"id", .plain (.scalar .int64), 2, .optional, [], [], some "oneof"⟩,
      ⟨"tags", .map .string (.scalar .bytes), 3, .optional, [], [], none⟩],
    [⟨"Inner", [], [], [], [], [], [], [], []⟩], [], [], [],
    [⟨"oneof", [⟨"id", .plain (.scalar .int64), 2, .optional, [], [], some "oneof"⟩], [], []⟩],
    [⟨10, 12⟩], ["old"]⟩

/-- A method with an HTTP rule. -/
def getShelf : Method :=
  ⟨"Get", .parse false "GetRequest", .parse true "shelves.v1.Shelf",
    [⟨"deprecated", .boolean true⟩], [],
    some ⟨⟨.get, "/v1/\x7bname=shelves/*\x7d", none⟩, some "shelf",
    [⟨.post, "/v1/shelves:get", some "*"⟩]⟩⟩

/-- A file with both of them. -/
def shelves : SchemaFile where
  version := .proto3
  package := some "shelves.v1"
  imports := [⟨.exported, "google/api/annotations.proto"⟩]
  options := [⟨"(shelves.meta).level", .message [("[shelves.tag]", .list [.string "\"\n"])]⟩]
  services := [⟨"Shelves", [getShelf], [], []⟩]
  messages := [shelf]
  enums := [⟨"Kind", [⟨"NONE", 0, [], []⟩, ⟨"message", -1, [], []⟩], [], [], [], []⟩]

theorem shelf_printable : shelf.Printable maxDepth := by
  have map : IsFullIdent "map" := ⟨"map", [], by decide, by decide⟩
  have id :
      Field.Printable 63 ⟨"id", .plain (.scalar .int64), 2, .optional, [], [], some "oneof"⟩ :=
    ⟨by decide, trivial, by decide, by simp, rfl, fun _ => rfl⟩
  refine .mk (by decide) ?_ ?_ (by simp [shelf]) (by simp [shelf]) rfl ?_ ?_ ?_
  · simp only [shelf, List.forall_mem_cons]
    refine ⟨⟨by decide, ⟨⟨"map", map, rfl⟩, rfl⟩, by decide, by simp, rfl, by simp⟩, id,
      ⟨by decide, ⟨by decide, trivial, rfl⟩, by decide, by simp, rfl, by simp⟩, by simp⟩
  · simp only [shelf, List.forall_mem_singleton]
    exact .mk (by decide) (by simp) (by simp) (by simp) (by simp) rfl (by simp) .nil (by simp)
  · simp only [shelf, List.forall_mem_singleton]
    exact ⟨by decide, by simpa using id, by simp, rfl⟩
  · exact .field rfl (.group (o := ⟨"oneof", [_], [], []⟩) (by simp) (.field rfl .nil))
  · simp only [shelf, List.forall_mem_singleton]
    exact ⟨by decide, by decide, by decide⟩

theorem getShelf_printable : getShelf.Printable where
  name := by decide
  input := ⟨"GetRequest", ⟨"GetRequest", [], by decide, by decide⟩, rfl⟩
  output := ⟨"shelves.v1.Shelf", ⟨"shelves", ["v1", "Shelf"], by decide, by decide⟩, rfl⟩
  options := List.forall_mem_singleton.mpr ⟨.part (.name (by decide)), .boolean _ _⟩
  comments := rfl
  rule r hr := by
    cases hr
    exact ⟨.inl (by decide), List.forall_mem_singleton.mpr (.inl (by decide))⟩
  noRule := nofun

theorem shelves_printable : shelves.Printable where
  package name h := by
    cases h
    exact ⟨"shelves", ["v1"], by decide, by decide⟩
  options := by
    have extension : IsFullIdent "shelves.meta" := ⟨"shelves", ["meta"], by decide, by decide⟩
    have level : IsOptionPart "level" := .name (by decide)
    have tag : IsFullIdent "shelves.tag" := ⟨"shelves", ["tag"], by decide, by decide⟩
    refine List.forall_mem_singleton.mpr ⟨.member (.part (.extension extension)) level, ?_⟩
    refine .message (List.forall_mem_singleton.mpr (.extension tag)) (by simp) ?_
    exact List.forall_mem_singleton.mpr (.list (List.forall_mem_singleton.mpr (.string _ _)))
  services := List.forall_mem_singleton.mpr
    ⟨by decide, List.forall_mem_singleton.mpr getShelf_printable, by simp, rfl⟩
  messages := List.forall_mem_singleton.mpr shelf_printable
  enums := by
    refine List.forall_mem_singleton.mpr ⟨by decide, ?_, by simp, rfl, by simp⟩
    simp only [List.forall_mem_cons]
    exact ⟨⟨by decide, by decide, by decide, by decide, by simp, rfl⟩,
      ⟨by decide, by decide, by decide, by decide, by simp, rfl⟩, by simp⟩

theorem shelf_valid : shelf.Valid := by
  refine .intro ⟨by decide, by decide, ?_, by simp [shelf]⟩ ⟨by decide, by decide⟩ ?_
  · simp only [shelf, List.forall_mem_cons]
    exact ⟨⟨by decide, by decide⟩, ⟨by decide, by decide⟩, ⟨by decide, by decide⟩, by simp⟩
  · exact List.forall_mem_singleton.mpr (.intro ⟨by decide, by decide, by simp, by simp⟩
      ⟨by simp, by simp⟩ (by simp))

theorem shelves_valid : shelves.Valid where
  scope := by decide
  services := List.forall_mem_singleton.mpr (show ["Get"].Nodup by decide)
  messages := List.forall_mem_singleton.mpr shelf_valid
  enums := List.forall_mem_singleton.mpr (show ["NONE", "message"].Nodup by decide)

theorem parse_print_shelves :
    shelves.Printable ∧ shelves.Valid ∧ parse ⟨true, true⟩ shelves.print = .ok shelves :=
  ⟨shelves_printable, shelves_valid,
    parse_print true true shelves shelves_printable fun _ => shelves_valid⟩

end ProtoRoutes.Grammar
