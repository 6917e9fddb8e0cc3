import ProtoRoutes.Proofs.Grammar.Comments
import ProtoRoutes.Proofs.Grammar.Locality
import ProtoRoutes.Proofs.Grammar.Streams
import ProtoRoutes.Proofs.Source.Gaps
import ProtoRoutes.Proofs.Source.TokenClasses

/-!
# ProtoRoutes.Proofs.Grammar.Concatenation

**Files concatenate.** Where comments are dropped and nothing is checked beyond form, a text that
defines services, messages and enums and has no header can be put behind another text. Then both are
read as they are alone, and the definitions of the second one come behind those of the first one.

The first text is read in the same way because no rule looks behind its last sign (`Locality`), and
the second one because it does not matter where its tokens stand (`Mirrors`). What is between them
is the boundary of header and definitions: the semicolons with which the second text may start are
passed over in either.
-/

namespace ProtoRoutes

/-- A file with the definitions of another one behind its own. -/
def SchemaFile.extend (f g : SchemaFile) : SchemaFile :=
  { f with
    services := f.services ++ g.services
    messages := f.messages ++ g.messages
    enums := f.enums ++ g.enums }

/-- How many statements of a header a file has, other than its version. -/
def SchemaFile.headerSize (f : SchemaFile) : Nat :=
  f.package.toList.length + f.imports.length + f.options.length

namespace Grammar

variable {σ : Type}

/-- Whether a text starts with a version statement. -/
def startsWithVersion (text : String) : Bool :=
  match Source.tokens text with
  | .ok stream => stream.uncommented.tokens.head?.map (·.kind) = some (.keyword .syntaxKw)
  | .error _ => false

/-- A text with its tree that has no version, package, imports and options. -/
structure Headless (text : String) (f : SchemaFile) : Prop where
  version : startsWithVersion text = false
  package : f.package = none
  imports : f.imports = []
  options : f.options = []

/-! ### Semicolons -/

theorem Cursor.tokens_eq_cons {c : Cursor} (h : c.next.kind ≠ .eof) :
    c.tokens = c.next :: c.step.tokens := by
  unfold Cursor.next at h
  unfold Cursor.next Cursor.step Cursor.tokens
  cases hrest : c.rest with
  | nil => simp [hrest, Token.eof] at h
  | cons l rest => rfl

theorem isHeaderStart_cases {t : Token} (h : isHeaderStart t = true) :
    t.kind = .keyword .packageKw ∨ t.kind = .keyword .importKw ∨ t.kind = .keyword .optionKw ∨
      t.kind = .punct .semicolon := by
  unfold isHeaderStart at h
  split at h
  · next hkind => exact .inl hkind
  · next hkind => exact .inr (.inl hkind)
  · next hkind => exact .inr (.inr (.inl hkind))
  · next hkind => exact .inr (.inr (.inr hkind))
  · cases h

/-- A step of the header adds to the header, or it passes over a semicolon. -/
theorem headerItem_cases {mode : Mode} {s s' : SchemaFile} {t : Token} {c d : Cursor}
    (hstart : isHeaderStart t = true) (hrun : headerItem mode s t c = .ok s' d) :
    s.headerSize < s'.headerSize ∨ (t.kind = .punct .semicolon ∧ s' = s ∧ d = c.step) := by
  unfold headerItem at hrun
  rcases isHeaderStart_cases hstart with hkind | hkind | hkind | hkind
  · simp only [hkind] at hrun
    cases hpackage : s.package with
    | some name =>
        rw [hpackage] at hrun
        cases hrun
    | none =>
        rw [hpackage] at hrun
        obtain ⟨name, c₁, -, hpure⟩ := bind_ok_iff.mp hrun
        cases hpure
        simp [SchemaFile.headerSize, hpackage]
  · simp only [hkind] at hrun
    obtain ⟨i, c₁, -, hpure⟩ := bind_ok_iff.mp hrun
    cases hpure
    simp [SchemaFile.headerSize, Nat.add_assoc]
  · simp only [hkind] at hrun
    obtain ⟨o, c₁, -, hpure⟩ := bind_ok_iff.mp hrun
    cases hpure
    simp [SchemaFile.headerSize]
  · simp only [hkind] at hrun
    cases hrun
    exact .inr ⟨hkind, rfl, rfl⟩

/-- A header that adds nothing is made of semicolons. -/
theorem headerItems_cases {mode : Mode} {n : Nat} {s s' : SchemaFile} {c d : Cursor}
    (hrun : iterateFor isHeaderStart (headerItem mode) n s c = .ok s' d) :
    s.headerSize < s'.headerSize ∨
      s' = s ∧ ∃ u, c.tokens = u ++ d.tokens ∧ ∀ t ∈ u, t.kind = .punct .semicolon := by
  induction n generalizing s c with
  | zero => cases hrun
  | succ n ih =>
      rw [iterateFor_succ] at hrun
      split at hrun
      · next hstart =>
          obtain ⟨s₁, c₁, hfirst, hothers⟩ := bind_ok_iff.mp hrun
          rcases headerItem_cases hstart hfirst with hmore | ⟨hkind, rfl, rfl⟩
          · rcases ih hothers with hlt | ⟨rfl, -⟩
            · exact .inl (hmore.trans hlt)
            · exact .inl hmore
          · refine (ih hothers).imp id fun ⟨heq, u, hu, hall⟩ => ⟨heq, c.next :: u, ?_, ?_⟩
            · rw [Cursor.tokens_eq_cons (by simp [hkind]), hu]
              rfl
            · exact List.forall_mem_cons.mpr ⟨hkind, hall⟩
      · cases hrun
        exact .inr ⟨rfl, [], rfl, by simp⟩

/-- A loop that does nothing with semicolons goes on behind them. -/
theorem iterate_semicolons {more : Token → Bool} {step : σ → Token → Parser σ}
    (hmoves : ∀ s t, more t = true → Moves (· = t) (step s t))
    (hskip : ∀ s t, t.kind = .punct .semicolon → more t = true ∧ step s t = advance >>=
      fun _ => pure s)
    {u r : List Token} (hu : ∀ t ∈ u, t.kind = .punct .semicolon) {c : Cursor}
    (hc : c.Faces (u ++ r)) (s : σ) :
    ∃ d, d.Faces r ∧ iterate more step s c = iterate more step s d := by
  induction u generalizing c with
  | nil => exact ⟨c, hc, rfl⟩
  | cons t u ih =>
      obtain ⟨ht, hothers⟩ := List.forall_mem_cons.mp hu
      have next : c.next = t := by
        rw [c.next_eq, hc.tokens]
        rfl
      obtain ⟨hmore, hstep⟩ := hskip s t ht
      obtain ⟨d, hd, heq⟩ := ih hothers (c := c.step) hc.step
      refine ⟨d, hd, .trans (iterate_step hmoves (next ▸ hmore) ?_) heq⟩
      rw [next, hstep]
      rfl

theorem headerItem_semicolon (mode : Mode) (s : SchemaFile) (t : Token)
    (h : t.kind = .punct .semicolon) :
    isHeaderStart t = true ∧ headerItem mode s t = advance >>= fun _ => pure s := by
  simp [isHeaderStart, headerItem, h]

theorem definition_semicolon (mode : Mode) (s : SchemaFile) (t : Token)
    (h : t.kind = .punct .semicolon) :
    decide (t.kind ≠ .eof) = true ∧ definition mode s t = advance >>= fun _ => pure s := by
  simp [definition, h]

/-! ### Definitions behind definitions -/

/-- Definitions leave the header as it is. -/
theorem definitions_headerSize {mode : Mode} {f g : SchemaFile} {c d : Cursor}
    (hrun : iterate (fun t => t.kind ≠ .eof) (definition mode) f c = .ok g d) :
    g.headerSize = f.headerSize := by
  have kept : Ensures (fun g : SchemaFile => g.headerSize = f.headerSize)
      (iterate (fun t => t.kind ≠ .eof) (definition mode) f) := by
    refine .iterate (fun h t hh => ?_) rfl
    unfold definition
    dsimp only
    split
    · exact .andThen _ fun _ => .andThen _ fun _ => .pure hh
    · exact .andThen _ fun _ => .andThen _ fun _ => .pure hh
    · exact .andThen _ fun _ => .andThen _ fun _ => .pure hh
    · exact .andThen _ fun _ => .pure hh
    · exact .fail
    · exact .fail
  exact kept c g d hrun

/-- To extend a file is to read definitions into it. -/
theorem extend_stable (f : SchemaFile) : Stable false fun g h => h = f.extend g where
  defines _ hstrict := nomatch hstrict
  services h s := by simp [h, SchemaFile.extend]
  messages h m := by simp [h, SchemaFile.extend]
  enums h e := by simp [h, SchemaFile.extend]

theorem extend_empty (f : SchemaFile) : f.extend SchemaFile.empty = f := by
  simp [SchemaFile.extend, SchemaFile.empty]

variable {f f₁ f₂ : SchemaFile} {u v ts₁ ts₂ : List Token} {c d c₁ c₂ d₁ d₂ : Cursor}

/-- Definitions that say the same are read into a file as they are read alone. -/
theorem definitions_extend {f : SchemaFile} (hf : f = f.bare) (hshapes : c₂.shapes = c.shapes)
    (hrun : iterate (fun t => t.kind ≠ .eof) (definition ⟨false, false⟩) .empty c₂ = .ok f₂ d₂) :
    ∃ d, iterate (fun t => t.kind ≠ .eof) (definition ⟨false, false⟩) f c =
      .ok (f.extend f₂) d := by
  have start : f.bare = f.extend .empty := hf.symm.trans (extend_empty f).symm
  have ends := definitions_mirrors false false (extend_stable f) start c₂ c (.of_shapes hshapes)
  rw [hrun] at ends
  cases hright : iterate (fun t => t.kind ≠ .eof) (definition ⟨false, false⟩) f c with
  | ok g d =>
      rw [hright] at ends
      have bare : g = g.bare :=
        (definitions_mirrors false false (eq_stable false) hf).bare_of_ok hright
      cases ends with
      | ok related _ => exact ⟨d, by rw [bare, related]⟩
  | error e d =>
      rw [hright] at ends
      cases ends

theorem header_done {mode : Mode} (hrun : header mode c = .ok f d) :
    isHeaderStart d.next = false := by
  rw [header_run] at hrun
  split at hrun
  · obtain ⟨v, c₁, -, hloop⟩ := bind_ok_iff.mp hrun
    exact iterateFor_done hloop
  · exact iterateFor_done hrun

/-- Behind a text that is read to its end, semicolons are passed over: they belong to the header, or
to the definitions if there are some. -/
theorem file_passes (hc₁ : c₁.Faces ts₁) (hrun₁ : file ⟨false, false⟩ c₁ = .ok f₁ d₁)
    (hend : d₁.tokens = []) (hu : ∀ t ∈ u, t.kind = .punct .semicolon)
    (hv : ∀ d : Cursor, d.Faces v → isHeaderStart d.next = false)
    (hc : c.Faces (ts₁ ++ (u ++ v))) (hfirst : ts₁ = [] → c.next.kind ≠ .keyword .syntaxKw) :
    ∃ d, d.Faces v ∧ file ⟨false, false⟩ c =
      iterate (fun t => t.kind ≠ .eof) (definition ⟨false, false⟩) f₁ d := by
  obtain ⟨h₁, e₁, hheader, hdefinitions⟩ := bind_ok_iff.mp hrun₁
  have hc₁' : c₁.Faces (ts₁ ++ []) := by rwa [List.append_nil]
  have he₁ : e₁.Faces (e₁.tokens ++ []) :=
    ⟨(header_progresses _).steady.silent_of_ok hc₁.silent hheader, (List.append_nil _).symm⟩
  obtain ⟨d, hd, hpasses⟩ := header_passes _ hc₁' hc hfirst hheader he₁.tokens
  have hitems := fun g t hstart => (headerItem_marches ⟨false, false⟩ g t hstart False.elim).moves
  have hdefs := fun g t (_ : decide (t.kind ≠ .eof) = true) => definition_closes false g t
  rw [file, bind_run, hpasses]
  by_cases hrest : e₁.tokens = []
  · -- The first text is all header, and the loop over its statements goes on.
    rw [hrest, List.nil_append] at hd
    obtain ⟨e, he, hskip⟩ := iterate_semicolons hitems (headerItem_semicolon _) hu hd h₁
    have hempty : e₁.next.kind = .eof := by rw [e₁.next_eq, hrest]; rfl
    rw [iterate_done (by simp [hempty])] at hdefinitions
    cases hdefinitions
    rw [hskip, iterate_done (hv e he)]
    exact ⟨e, he, rfl⟩
  · -- There are definitions in the first text, and behind them a semicolon is one more.
    have hstop : isHeaderStart d.next = false := by
      rw [← he₁.next_eq hd hrest]
      exact header_done hheader
    rw [iterate_done hstop]
    have hnone : d₁.tokens = [] ++ [] := hend
    obtain ⟨e, he, hloop⟩ := iterate_passes hdefs he₁ hd hdefinitions hnone
    obtain ⟨x, hx, hskip⟩ := iterate_semicolons (fun g t h => (hdefs g t h).moves)
      (definition_semicolon _) hu he f₁
    exact ⟨x, hx, hloop.trans hskip⟩

/-- A text without header behind another text, token by token. -/
theorem file_extend (hc₁ : c₁.Faces ts₁) (hrun₁ : file ⟨false, false⟩ c₁ = .ok f₁ d₁)
    (hend : d₁.tokens = [])
    (hrun₂ : file ⟨false, false⟩ c₂ = .ok f₂ d₂) (hversion : c₂.next.kind ≠ .keyword .syntaxKw)
    (hsize : f₂.headerSize = 0) {ts : List Token} (hc : c.Faces (ts₁ ++ ts))
    (hshapes : ts.map Token.shape = c₂.shapes) :
    ∃ d, file ⟨false, false⟩ c = .ok (f₁.extend f₂) d := by
  obtain ⟨h₂, e₂, hheader, hdefinitions⟩ := bind_ok_iff.mp hrun₂
  have hstop := header_done hheader
  rw [header_run, if_neg hversion] at hheader
  have hnone : h₂.headerSize = 0 := (definitions_headerSize hdefinitions).symm.trans hsize
  -- The header of the second text has no statements, so it is made of semicolons.
  rcases headerItems_cases hheader with hlt | ⟨rfl, u₂, hu₂, hsemicolons⟩
  · omega
  · rw [Cursor.shapes, hu₂, List.map_append] at hshapes
    obtain ⟨u, v, rfl, hu, hv⟩ := List.map_eq_append_iff.mp hshapes
    have hsemicolons' : ∀ t ∈ u, t.kind = .punct .semicolon := by
      intro t ht
      have hmem : t.shape ∈ u₂.map Token.shape := hu ▸ List.mem_map_of_mem ht
      obtain ⟨t₂, ht₂, hshape⟩ := List.mem_map.mp hmem
      exact (congrArg Prod.fst hshape).symm.trans (hsemicolons t₂ ht₂)
    have hbehind : ∀ d : Cursor, d.Faces v → e₂.shapes = d.shapes := by
      intro d hd
      rw [Cursor.shapes, Cursor.shapes, hd.tokens, hv]
    have hstop' : ∀ d : Cursor, d.Faces v → isHeaderStart d.next = false := by
      intro d hd
      rw [Token.eq_moved (Beside.of_shapes (hbehind d hd)).next.shape]
      exact hstop
    have hfirst : ts₁ = [] → c.next.kind ≠ .keyword .syntaxKw := by
      rintro rfl
      have hsame : c₂.shapes = c.shapes := by
        rw [Cursor.shapes, Cursor.shapes, hc.tokens, hu₂, List.nil_append, List.map_append,
          List.map_append, hu,
          hv]
      rw [Token.eq_moved (Beside.of_shapes hsame).next.shape]
      exact hversion
    obtain ⟨d, hd, hpasses⟩ := file_passes hc₁ hrun₁ hend hsemicolons' hstop' hc hfirst
    rw [hpasses]
    exact definitions_extend ((file_mirrors false false).bare_of_ok hrun₁)
      (hbehind d hd) hdefinitions

/-! ### Texts -/

/-- The tokens of a text behind another one and a line end. -/
theorem tokens_append {t₁ t₂ : String} {s₁ s₂ : TokenStream} (h₁ : Source.tokens t₁ = .ok s₁)
    (h₂ : Source.tokens t₂ = .ok s₂) :
    ∃ s : TokenStream, Source.tokens (t₁ ++ "\n" ++ t₂) = .ok ⟨s₁.tokens ++ s.tokens, s.stop⟩ ∧
      s.tokens.map Token.shape = s₂.tokens.map Token.shape := by
  obtain ⟨s, hs, hshapes⟩ := Source.tokensFrom_shapes h₂ (s₁.stop.next '\n')
  refine ⟨s, ?_, hshapes⟩
  have htext : (t₁ ++ "\n" ++ t₂).toList = t₁.toList ++ '\n' :: t₂.toList := by simp
  rw [Source.tokens, htext, Source.tokensFrom_append h₁, hs]
  rfl

/-- **Files concatenate**: where comments are dropped and nothing is checked beyond form, a text
without header may stand behind any text that can be read, and then the definitions of both are
read. -/
theorem parse_concatenation {t₁ t₂ : String} {f₁ f₂ : SchemaFile}
    (h₁ : parse ⟨false, false⟩ t₁ = .ok f₁)
    (h₂ : parse ⟨false, false⟩ t₂ = .ok f₂) (hheadless : Headless t₂ f₂) :
    parse ⟨false, false⟩ (t₁ ++ "\n" ++ t₂) = .ok (f₁.extend f₂) := by
  obtain ⟨s₁, htokens₁, hread₁⟩ := parse_ok h₁
  obtain ⟨s₂, htokens₂, hread₂⟩ := parse_ok h₂
  obtain ⟨s, htokens, hshapes⟩ := tokens_append htokens₁ htokens₂
  rw [readTokens_uncommented] at hread₁ hread₂
  obtain ⟨d₁, hrun₁⟩ := readTokens_ok hread₁
  obtain ⟨d₂, hrun₂⟩ := readTokens_ok hread₂
  have hc₁ := ofStream_uncommented_faces s₁
  have hc₂ := ofStream_uncommented_faces s₂
  have hc := ofStream_uncommented_faces ⟨s₁.tokens ++ s.tokens, s.stop⟩
  have hends : ∀ t ∈ s₁.uncommented.tokens, t.kind ≠ .eof := fun t ht =>
    Source.kind_ne_eof_of_mem htokens₁ (List.mem_filter.mp ht).1
  have hversion : (Cursor.ofStream s₂.uncommented).next.kind ≠ .keyword .syntaxKw := by
    have first := hheadless.version
    rw [startsWithVersion, htokens₂] at first
    rw [Cursor.next_eq, hc₂.tokens]
    cases hhead : s₂.uncommented.tokens.head? with
    | none => simp [Token.eof]
    | some t => simpa [hhead] using first
  have hsize : f₂.headerSize = 0 := by
    simp [SchemaFile.headerSize, hheadless.package, hheadless.imports, hheadless.options]
  have hend : d₁.tokens = [] := by rw [Cursor.tokens, file_rest_eq_nil hends hrun₁, List.map_nil]
  have hboth : (⟨s₁.tokens ++ s.tokens, s.stop⟩ : TokenStream).uncommented.tokens =
      s₁.uncommented.tokens ++ s.uncommented.tokens := List.filter_append ..
  have hbehind :
      s.uncommented.tokens.map Token.shape = (Cursor.ofStream s₂.uncommented).shapes := by
    rw [Cursor.shapes, hc₂.tokens, TokenStream.uncommented_shapes hshapes]
  obtain ⟨d, hrun⟩ := file_extend hc₁ hrun₁ hend hrun₂ hversion hsize (hboth ▸ hc) hbehind
  rw [parse, read, htokens]
  show (readTokens _ _).outcome = _
  rw [readTokens_uncommented, readTokens, hrun]

/-- A header that ends in a comment, and definitions between semicolons. -/
theorem parse_concatenation_semicolons :
    ∃ f₁ f₂, parse ⟨false, false⟩ "import \"a\"; // b" = .ok f₁ ∧
      parse ⟨false, false⟩ "; enum E \x7b A = 0; \x7d;" = .ok f₂ ∧ f₁.dependencies = ["a"] ∧
      f₂.enums.map (·.name) = ["E"] ∧
      parse ⟨false, false⟩ ("import \"a\"; // b" ++ "\n" ++ "; enum E \x7b A = 0; \x7d;") =
        .ok (f₁.extend f₂) := by
  have read₁ : (parse ⟨false, false⟩ "import \"a\"; // b").toOption.map (·.dependencies) =
      some ["a"] := by
    decide +kernel
  have read₂ : (parse ⟨false, false⟩ "; enum E \x7b A = 0; \x7d;").toOption.map
      (fun f => (f.package, f.imports.length, f.options.length, f.enums.map (·.name))) =
        some (none, 0, 0, ["E"]) := by
    decide +kernel
  have hversion : startsWithVersion "; enum E \x7b A = 0; \x7d;" = false := by decide +kernel
  obtain ⟨f₁, h₁, hdependencies⟩ := exists_ok_of_toOption read₁
  obtain ⟨f₂, h₂, hparts⟩ := exists_ok_of_toOption read₂
  injection hparts with hpackage hparts
  injection hparts with himports hparts
  injection hparts with hoptions henums
  refine ⟨f₁, f₂, h₁, h₂, hdependencies, henums,
    parse_concatenation h₁ h₂ ⟨hversion, hpackage, ?_, ?_⟩⟩
  · exact List.length_eq_zero_iff.mp himports
  · exact List.length_eq_zero_iff.mp hoptions

end Grammar

end ProtoRoutes
