import Mathlib.Data.List.Perm.Basic
import ProtoRoutes.Proofs.Grammar.Concatenation

/-!
# ProtoRoutes.Proofs.Grammar.HeaderOrder

**The order of imports decides nothing but their order.** If an import statement changes places with
a statement of the header beside it, then the text is read to a tree with the same imports in
another order, or it fails before and after in the same way.

Texts are compared by what their tokens say (`words?`), so blanks, line ends and comments may change
as well. `Rearranged` is what such exchanges lead to, one after the other.
-/

namespace ProtoRoutes

/-- Two files that differ in the order of their imports only. -/
inductive SchemaFile.Reordered : SchemaFile → SchemaFile → Prop where
  | mk (f : SchemaFile) {imports : List Import} (h : f.imports.Perm imports) :
      Reordered f { f with imports }

/-- A file with the statements of another header behind its own. -/
def SchemaFile.followedBy (f g : SchemaFile) : SchemaFile :=
  { f with
    package := g.package.or f.package
    imports := f.imports ++ g.imports
    options := f.options ++ g.options }

/-- What the other header has is not about comments. -/
theorem SchemaFile.bare_followedBy (f g : SchemaFile) :
    (f.followedBy g).bare = f.bare.followedBy g :=
  rfl

theorem SchemaFile.Reordered.imports_perm {f g : SchemaFile} (h : f.Reordered g) :
    f.imports.Perm g.imports := by
  cases h with
  | mk hperm => exact hperm

namespace Grammar

/-! ### Headers into related files -/

theorem reordered_headerStable : HeaderStable SchemaFile.Reordered where
  packaged h := by
    cases h
    rfl
  package {f _} h name := by
    cases h with
    | mk hperm => exact .mk { f with package := some name } hperm
  imports {f _} h i := by
    cases h with
    | mk hperm => exact .mk { f with imports := f.imports ++ [i] } (hperm.append_right [i])
  options {f _} h o := by
    cases h with
    | mk hperm => exact .mk { f with options := f.options ++ [o] } hperm

theorem reordered_stable (strict : Bool) : Stable strict SchemaFile.Reordered where
  defines h _ := by
    cases h
    rfl
  services {f _} h s := by
    cases h with
    | mk hperm => exact .mk { f with services := f.services ++ [s] } hperm
  messages {f _} h m := by
    cases h with
    | mk hperm => exact .mk { f with messages := f.messages ++ [m] } hperm
  enums {f _} h e := by
    cases h with
    | mk hperm => exact .mk { f with enums := f.enums ++ [e] } hperm

/-- Where comments are dropped, headers that say the same come to the same. -/
theorem header_blind (strict : Bool) : Blind true false (header ⟨strict, false⟩) :=
  Mirrors.blind fun _ => header_mirrors strict false

/-- What follows the statements of a header that were read: the other ones and the definitions. -/
def fileFrom (mode : Mode) (f : SchemaFile) : Parser SchemaFile := do
  let f ← iterate isHeaderStart (headerItem mode) f
  iterate (fun t => t.kind ≠ .eof) (definition mode) f

theorem fileFrom_mirrors (strict : Bool) {f g : SchemaFile} (h : f.Reordered g.bare) :
    Mirrors true false (fun f g => f.Reordered g.bare) (fileFrom ⟨strict, false⟩ f)
      (fileFrom ⟨strict, false⟩ g) :=
  (headerItems_mirrors strict false reordered_headerStable h).bind fun _ _ h =>
    definitions_mirrors strict false (reordered_stable strict) h

/-! ### One statement -/

/-- A statement of a header, read into the empty file. -/
def headerStatement (mode : Mode) : Parser SchemaFile := do
  let t ← peek
  if isHeaderStart t then headerItem mode .empty t else fail (.trailing t.text t.pos)

theorem headerStatement_mirrors {moved : Bool} (strict : Bool) :
    Mirrors moved false (fun a b => a = b.bare) (headerStatement ⟨strict, false⟩)
      (headerStatement ⟨strict, false⟩) := by
  refine peek_mirrors.andToken fun t pos line ht => .ite (fun _ => ?_) fun _ => ?_
  · exact headerItem_mirrors strict false eq_headerStable _ _ t pos line ht rfl
  · refine .fail rfl fun hmoved => ?_
    rw [ht hmoved]

section Statement

variable {mode : Mode} {f f' g : SchemaFile} {t : Token} {c d : Cursor}

/-- A statement does the same in every file, unless it is a second package statement. -/
theorem headerItem_followedBy (hstart : isHeaderStart t = true)
    (hrun : headerItem mode .empty t c = .ok g d)
    (hfree : g.package.isSome = true → f.package = none) :
    headerItem mode f t c = .ok (f.followedBy g) d := by
  unfold headerItem at hrun ⊢
  rcases isHeaderStart_cases hstart with hkind | hkind | hkind | hkind
  · simp only [hkind] at hrun ⊢
    obtain ⟨name, c₁, hname, hpure⟩ := bind_ok_iff.mp hrun
    cases hpure
    rw [hfree rfl]
    refine bind_ok_iff.mpr ⟨name, d, hname, ?_⟩
    simp [SchemaFile.followedBy, SchemaFile.empty, pure_run]
  · simp only [hkind] at hrun ⊢
    obtain ⟨i, c₁, hi, hpure⟩ := bind_ok_iff.mp hrun
    cases hpure
    refine bind_ok_iff.mpr ⟨i, d, hi, ?_⟩
    simp [SchemaFile.followedBy, SchemaFile.empty, pure_run]
  · simp only [hkind] at hrun ⊢
    obtain ⟨o, c₁, ho, hpure⟩ := bind_ok_iff.mp hrun
    cases hpure
    refine bind_ok_iff.mpr ⟨o, d, ho, ?_⟩
    simp [SchemaFile.followedBy, SchemaFile.empty, pure_run]
  · simp only [hkind] at hrun ⊢
    cases hrun
    refine bind_ok_iff.mpr ⟨c.next, c.step, rfl, ?_⟩
    simp [SchemaFile.followedBy, SchemaFile.empty, pure_run]

/-- A second package statement is an error, before anything of it is read. -/
theorem headerItem_packaged (hstart : isHeaderStart t = true)
    (hrun : headerItem mode .empty t c = .ok g d)
    (hpackage : g.package.isSome = true) (hpackaged : f.package ≠ none) (e : Cursor) :
    ∃ failure, headerItem mode f t e = .error failure e ∧ failure.isError = true := by
  unfold headerItem at hrun ⊢
  rcases isHeaderStart_cases hstart with hkind | hkind | hkind | hkind
  · simp only [hkind]
    rw [if_pos (Option.isSome_iff_ne_none.mpr hpackaged)]
    exact ⟨_, rfl, rfl⟩
  · simp only [hkind] at hrun
    obtain ⟨i, c₁, -, hpure⟩ := bind_ok_iff.mp hrun
    cases hpure
    cases hpackage
  · simp only [hkind] at hrun
    obtain ⟨o, c₁, -, hpure⟩ := bind_ok_iff.mp hrun
    cases hpure
    cases hpackage
  · simp only [hkind] at hrun
    cases hrun
    cases hpackage

theorem fileFrom_step (hstart : isHeaderStart c.next = true)
    (hrun : headerItem mode f c.next c = .ok f' d) :
    fileFrom mode f c = fileFrom mode f' d := by
  have hmoves := fun g t hstart => (headerItem_marches mode g t hstart False.elim).moves
  rw [fileFrom, bind_run, iterate_step hmoves hstart hrun, fileFrom, bind_run]

theorem fileFrom_error {e : Failure} (hstart : isHeaderStart c.next = true)
    (hrun : headerItem mode f c.next c = .error e d) : fileFrom mode f c = .error e d := by
  rw [fileFrom, bind_run, iterate, iterateFor_succ, if_pos hstart, bind_run, hrun]

end Statement

/-! ### Statements in words -/

/-- A rule reads words that stand alone, to their end. -/
def ReadsWhole {α : Type} (p : Parser α) (ws : List (TokenKind × String)) (a : α) : Prop :=
  ∃ c d : Cursor, c.Silent ∧ c.shapes = ws ∧ p c = .ok a d ∧ d.tokens = []

/-- A place in front of given tokens. -/
def Cursor.before (ts : List Token) : Cursor :=
  ⟨[], [], ts.map (⟨·, []⟩), .start, 0, []⟩

theorem Cursor.before_faces (ts : List Token) : (Cursor.before ts).Faces ts where
  silent := ⟨rfl, rfl, by simp [Cursor.before]⟩
  tokens := by
    rw [Cursor.tokens, Cursor.before, List.map_map]
    exact List.map_id ts

/-- It does not matter where the words stand. -/
theorem ReadsWhole.at_tokens {α : Type} {p : Parser α} {ws : List (TokenKind × String)} {a : α}
    (h : ReadsWhole p ws a) (hp : Blind true false p) {ts : List Token}
    (hts : ts.map Token.shape = ws) :
    ∃ d, p (.before ts) = .ok a d ∧ d.tokens = [] := by
  obtain ⟨c, d, -, hc, hrun, hend⟩ := h
  have same : c.shapes = (Cursor.before ts).shapes := by
    rw [hc, Cursor.shapes, (Cursor.before_faces ts).tokens, hts]
  have ends := hp c (.before ts) (.of_shapes same)
  rw [hrun] at ends
  generalize p (.before ts) = x at ends
  cases ends with
  | @ok _ b _ d' related beside =>
      subst related
      have shapes := beside.shapes
      rw [Cursor.shapes, hend] at shapes
      exact ⟨d', rfl, List.map_eq_nil_iff.mp shapes.symm⟩

section Exchange

variable {strict : Bool} {ws : List (TokenKind × String)} {f g : SchemaFile} {ts r : List Token}
    {c : Cursor}

/-- A statement in front of other tokens. -/
theorem headerStatement_before (h : ReadsWhole (headerStatement ⟨strict, false⟩) ws g)
    (hts : ts.map Token.shape = ws) (hc : c.Faces (ts ++ r)) :
    isHeaderStart c.next = true ∧
      ((g.package.isSome = true → f.package = none) →
        ∃ d, d.Faces r ∧ headerItem ⟨strict, false⟩ f c.next c = .ok (f.followedBy g) d) ∧
      (g.package.isSome = true → f.package ≠ none →
        ∃ failure, headerItem ⟨strict, false⟩ f c.next c = .error failure c ∧
          failure.isError = true) := by
  obtain ⟨d₀, hrun₀, hend⟩ :=
    h.at_tokens (Mirrors.blind fun _ => headerStatement_mirrors strict) hts
  have hc₀ : (Cursor.before ts).Faces (ts ++ []) := by
    rw [List.append_nil]
    exact Cursor.before_faces ts
  have hnone : d₀.tokens = [] ++ [] := hend
  have hrun₁ : (if isHeaderStart (Cursor.before ts).next = true then
      headerItem ⟨strict, false⟩ .empty (Cursor.before ts).next else fail _) (Cursor.before ts) =
        .ok g d₀ :=
    hrun₀
  by_cases hstart : isHeaderStart (Cursor.before ts).next = true
  · rw [if_pos hstart] at hrun₁
    have closes := headerItem_closes ⟨strict, false⟩ .empty _ hstart
    obtain ⟨u, hsome, hu⟩ := closes.moves.split closes.steady hc₀ rfl hrun₁ hnone
    rw [← hc₀.next_eq hc (by simp [hu, hsome])]
    refine ⟨hstart, fun hfree => ?_, fun hpackage hpackaged => ?_⟩
    · obtain ⟨d, hrun, hd⟩ := (headerItem_closes ⟨strict, false⟩ f _ hstart).run hc₀ hc rfl
        (headerItem_followedBy hstart hrun₁ hfree) hnone
      exact ⟨d, hd, hrun⟩
    · exact headerItem_packaged hstart hrun₁ hpackage hpackaged c
  · rw [if_neg hstart] at hrun₁
    cases hrun₁

/-- An import statement is a statement of the header. -/
theorem importStatement_whole {i : Import} (h : ReadsWhole (importStatement ⟨strict, false⟩) ws i) :
    ReadsWhole (headerStatement ⟨strict, false⟩) ws { SchemaFile.empty with imports := [i] } := by
  obtain ⟨c, d, hc, hshapes, hrun, hend⟩ := h
  have hkind : c.next.kind = .keyword .importKw := by
    obtain ⟨t, c₁, hkeyword, -⟩ := bind_ok_iff.mp hrun
    by_contra hother
    have failed : expectKeyword .importKw c =
        (if c.next.kind = .keyword .importKw then advance else unexpected c.next _) c := rfl
    rw [failed, if_neg hother] at hkeyword
    cases hkeyword
  have hstart : isHeaderStart c.next = true := by simp [isHeaderStart, hkind]
  refine ⟨c, d, hc, hshapes, ?_, hend⟩
  show (if isHeaderStart c.next = true then headerItem _ .empty c.next else fail _) c = _
  rw [if_pos hstart, headerItem, hkind]
  exact bind_ok_iff.mpr ⟨i, d, hrun, rfl⟩

theorem followedBy_import (f g : SchemaFile) (i : Import) :
    ((f.followedBy { SchemaFile.empty with imports := [i] }).followedBy g).Reordered
      ((f.followedBy g).followedBy { SchemaFile.empty with imports := [i] }) := by
  have hperm : (f.imports ++ [i] ++ g.imports).Perm (f.imports ++ g.imports ++ [i]) := by
    rw [List.append_assoc, List.append_assoc]
    exact List.perm_append_comm.append_left f.imports
  have hothers : (f.followedBy g).followedBy { SchemaFile.empty with imports := [i] } =
      { (f.followedBy { SchemaFile.empty with imports := [i] }).followedBy g with
        imports := f.imports ++ g.imports ++ [i] } := by
    simp [SchemaFile.followedBy, SchemaFile.empty]
  rw [hothers]
  exact .mk _ hperm

variable {front item statement back : List (TokenKind × String)} {i : Import} {d : Cursor}
  {ts' rs us vs us' vs' : List Token}

/-- An import statement and a statement beside it, in either order. -/
theorem fileFrom_exchange (hf : f = f.bare)
    (hitem : ReadsWhole (headerStatement ⟨strict, false⟩) item
      { SchemaFile.empty with imports := [i] })
    (hstatement : ReadsWhole (headerStatement ⟨strict, false⟩) statement g)
    (hus : us.map Token.shape = item) (hvs : vs.map Token.shape = statement)
    (hus' : us'.map Token.shape = item) (hvs' : vs'.map Token.shape = statement)
    (hback : ts.map Token.shape = ts'.map Token.shape) (hc : c.Faces (us ++ (vs ++ ts)))
    (hd : d.Faces (vs' ++ (us' ++ ts'))) :
    Alike true false (fun f g => f.Reordered g.bare) (fileFrom ⟨strict, false⟩ f c)
      (fileFrom ⟨strict, false⟩ f d) := by
  obtain ⟨hstart₁, hread₁, -⟩ := headerStatement_before (f := f) hitem hus hc
  obtain ⟨c₁, hc₁, hrun₁⟩ := hread₁ fun h => absurd h Bool.false_ne_true
  obtain ⟨hstart₂, hread₂, hpackaged₂⟩ := headerStatement_before hstatement hvs hc₁
    (f := f.followedBy { SchemaFile.empty with imports := [i] })
  obtain ⟨hstart₃, hread₃, hpackaged₃⟩ := headerStatement_before (f := f) hstatement hvs' hd
  rw [fileFrom_step hstart₁ hrun₁]
  have hpackage : (f.followedBy { SchemaFile.empty with imports := [i] }).package = f.package := rfl
  -- The other statement is read on both sides, or it is a second package statement on both sides.
  by_cases hfree : g.package.isSome = true → f.package = none
  · obtain ⟨c₂, hc₂, hrun₂⟩ := hread₂ hfree
    obtain ⟨d₁, hd₁, hrun₃⟩ := hread₃ hfree
    obtain ⟨hstart₄, hread₄, -⟩ := headerStatement_before (f := f.followedBy g) hitem hus' hd₁
    obtain ⟨d₂, hd₂, hrun₄⟩ := hread₄ fun h => absurd h Bool.false_ne_true
    rw [fileFrom_step hstart₂ hrun₂, fileFrom_step hstart₃ hrun₃, fileFrom_step hstart₄ hrun₄]
    refine fileFrom_mirrors strict ?_ c₂ d₂ (.of_shapes ?_)
    · rw [SchemaFile.bare_followedBy, SchemaFile.bare_followedBy, ← hf]
      exact followedBy_import f g i
    · rw [Cursor.shapes, Cursor.shapes, hc₂.tokens, hd₂.tokens, hback]
  · obtain ⟨hsome, hpackaged⟩ := Classical.not_imp.mp hfree
    obtain ⟨e, hrun₂, herror⟩ := hpackaged₂ hsome (hpackage ▸ hpackaged)
    obtain ⟨e', hrun₃, herror'⟩ := hpackaged₃ hsome hpackaged
    rw [fileFrom_error hstart₂ hrun₂, fileFrom_error hstart₃ hrun₃]
    exact .error (herror.trans herror'.symm)
      fun hmoved => absurd hmoved.symm Bool.false_ne_true

/-- What is in front of the two statements is read first. -/
theorem file_eq_fileFrom (hfront : ReadsWhole (header ⟨strict, false⟩) front f)
    (hts : ts.map Token.shape = front) (hc : c.Faces (ts ++ r))
    (hfirst : ∀ d : Cursor, d.Faces r → isHeaderStart d.next = true) :
    ∃ d, d.Faces r ∧ file ⟨strict, false⟩ c = fileFrom ⟨strict, false⟩ f d := by
  obtain ⟨d₀, hrun₀, hend⟩ := hfront.at_tokens (header_blind strict) hts
  have hc₀ : (Cursor.before ts).Faces (ts ++ []) := by
    rw [List.append_nil]
    exact Cursor.before_faces ts
  have hnone : d₀.tokens = [] ++ [] := hend
  have hversion : ts = [] → c.next.kind ≠ .keyword .syntaxKw := by
    rintro rfl hkind
    have hstart := hfirst c hc
    rw [isHeaderStart, hkind] at hstart
    cases hstart
  obtain ⟨d, hd, hrun⟩ := header_passes _ hc₀ hc hversion hrun₀ hnone
  refine ⟨d, hd, ?_⟩
  rw [file, bind_run, hrun, fileFrom, bind_run]

/-- **An import statement may change places with a statement of the header beside it**: then both
texts are read to trees that differ in the order of imports only, or they fail in the same way. -/
theorem file_exchange (hfront : ReadsWhole (header ⟨strict, false⟩) front f)
    (hitem : ReadsWhole (importStatement ⟨strict, false⟩) item i)
    (hstatement : ReadsWhole (headerStatement ⟨strict, false⟩) statement g)
    (hc : c.shapes = front ++ (item ++ (statement ++ back)))
    (hd : d.shapes = front ++ (statement ++ (item ++ back))) (hsilent : c.Silent)
    (hsilent' : d.Silent) :
    Alike true false (fun f g => f.Reordered g.bare) (file ⟨strict, false⟩ c)
      (file ⟨strict, false⟩ d) := by
  have hitem := importStatement_whole hitem
  obtain ⟨rs, _, hctokens, hrs, hrest⟩ := List.map_eq_append_iff.mp hc
  obtain ⟨us, _, rfl, hus, hrest⟩ := List.map_eq_append_iff.mp hrest
  obtain ⟨vs, ts, rfl, hvs, hts⟩ := List.map_eq_append_iff.mp hrest
  obtain ⟨rs', _, hdtokens, hrs', hrest⟩ := List.map_eq_append_iff.mp hd
  obtain ⟨vs', _, rfl, hvs', hrest⟩ := List.map_eq_append_iff.mp hrest
  obtain ⟨us', ts', rfl, hus', hts'⟩ := List.map_eq_append_iff.mp hrest
  obtain ⟨c₁, hc₁, hfile⟩ := file_eq_fileFrom hfront hrs ⟨hsilent, hctokens⟩
    fun e he => (headerStatement_before (f := f) hitem hus he).1
  obtain ⟨d₁, hd₁, hfile'⟩ := file_eq_fileFrom hfront hrs' ⟨hsilent', hdtokens⟩
    fun e he => (headerStatement_before (f := f) hstatement hvs' he).1
  rw [hfile, hfile']
  obtain ⟨x, y, -, -, hrun, -⟩ := hfront
  have hf : f = f.bare := (header_mirrors strict false).bare_of_ok hrun
  exact fileFrom_exchange hf hitem hstatement hus hvs hus' hvs' (hts.trans hts'.symm) hc₁ hd₁

end Exchange

/-! ### Texts -/

/-- What the tokens of a text say, without its comments. -/
def words? (text : String) : Option (List (TokenKind × String)) :=
  match Source.tokens text with
  | .ok s => some (s.uncommented.tokens.map Token.shape)
  | .error _ => none

/-- Two texts that differ in the order of their import statements only. An import statement may
change places with a statement of the header beside it, whatever follows, and this may happen many
times. A text that cannot be read has no statements, so another one is as good that cannot be read
for a failure of the same kind. -/
inductive Rearranged (strict : Bool) : String → String → Prop where
  | refl (text : String) : Rearranged strict text text
  | symm {t t' : String} (h : Rearranged strict t t') : Rearranged strict t' t
  | trans {t t' t'' : String} (h : Rearranged strict t t') (h' : Rearranged strict t' t'') :
      Rearranged strict t t''
  | exchange {t t' : String} {front item statement back : List (TokenKind × String)}
      {f g : SchemaFile}
      {i : Import} (hfront : ReadsWhole (header ⟨strict, false⟩) front f)
      (hitem : ReadsWhole (importStatement ⟨strict, false⟩) item i)
      (hstatement : ReadsWhole (headerStatement ⟨strict, false⟩) statement g)
      (h : words? t = some (front ++ (item ++ (statement ++ back))))
      (h' : words? t' = some (front ++ (statement ++ (item ++ back)))) : Rearranged strict t t'
  | unreadable {t t' : String} {e e' : Failure} (h : parse ⟨strict, false⟩ t = .error e)
      (h' : parse ⟨strict, false⟩ t' = .error e') (hkind : e.isError = e'.isError) :
      Rearranged strict t t'

/-- Two texts come to the same: to trees with the same imports in some order, or to failures of the
same kind. -/
inductive SameFate : Except Failure SchemaFile → Except Failure SchemaFile → Prop where
  | ok {f g : SchemaFile} (h : f.imports.Perm g.imports) : SameFate (.ok f) (.ok g)
  | error {e e' : Failure} (h : e.isError = e'.isError) : SameFate (.error e) (.error e')

namespace SameFate

variable {x y z : Except Failure SchemaFile}

theorem refl (x : Except Failure SchemaFile) : SameFate x x := by
  cases x with
  | ok f => exact .ok (.refl _)
  | error e => exact .error rfl

theorem symm (h : SameFate x y) : SameFate y x := by
  cases h with
  | ok h => exact .ok h.symm
  | error h => exact .error h.symm

theorem trans (h : SameFate x y) (h' : SameFate y z) : SameFate x z := by
  cases h with
  | ok h =>
      cases h' with
      | ok h' => exact .ok (h.trans h')
  | error h =>
      cases h' with
      | error h' => exact .error (h.trans h')

end SameFate

theorem parse_of_words {strict : Bool} {text : String} {ws : List (TokenKind × String)}
    (h : words? text = some ws) :
    ∃ c : Cursor, c.Silent ∧ c.shapes = ws ∧
      parse ⟨strict, false⟩ text =
        match file ⟨strict, false⟩ c with
        | .ok f _ => .ok f
        | .error e _ => .error e := by
  unfold words? at h
  cases htokens : Source.tokens text with
  | error e =>
      rw [htokens] at h
      cases h
  | ok s =>
      rw [htokens] at h
      cases h
      have faces := ofStream_uncommented_faces s
      refine ⟨.ofStream s.uncommented, faces.silent, by rw [Cursor.shapes, faces.tokens], ?_⟩
      rw [parse, read, htokens]
      show (readTokens _ _).outcome = _
      rw [readTokens_uncommented, readTokens]
      cases file ⟨strict, false⟩ (.ofStream s.uncommented) <;> rfl

/-- Comments change neither the imports of a text nor its failure. -/
theorem parse_sameFate (strict comments : Bool) (text : String) :
    SameFate (parse ⟨strict, false⟩ text) (parse ⟨strict, comments⟩ text) := by
  unfold parse read
  cases Source.tokens text with
  | error e => exact .refl _
  | ok s =>
      show SameFate (readTokens _ s).outcome (readTokens _ s).outcome
      have bare : readTokens ⟨strict, false⟩ s = (readTokens ⟨strict, comments⟩ s).bare :=
        readTokens_eq_bare strict comments rfl nofun
      rw [bare]
      show SameFate ((readTokens _ s).outcome.map SchemaFile.bare) (readTokens _ s).outcome
      cases (readTokens ⟨strict, comments⟩ s).outcome with
      | ok f => exact .ok (.refl f.imports)
      | error e => exact .error rfl

/-- **The order of imports decides nothing but their order.** -/
theorem Rearranged.sameFate {strict : Bool} {t t' : String} (h : Rearranged strict t t')
    (comments : Bool) :
    SameFate (parse ⟨strict, comments⟩ t) (parse ⟨strict, comments⟩ t') := by
  -- Without comments first: then what is read depends on the words of a text only.
  refine (parse_sameFate strict comments t).symm.trans
    (.trans ?_ (parse_sameFate strict comments t'))
  induction h with
  | refl text => exact .refl _
  | symm _ ih => exact ih.symm
  | trans _ _ ih ih' => exact ih.trans ih'
  | unreadable h h' hkind =>
      rw [h, h']
      exact .error hkind
  | exchange hfront hitem hstatement h h' =>
      obtain ⟨c, hc, hshapes, hparse⟩ := parse_of_words h
      obtain ⟨d, hd, hshapes', hparse'⟩ := parse_of_words h'
      have ends := file_exchange hfront hitem hstatement hshapes hshapes' hc hd
      rw [hparse, hparse']
      generalize file ⟨strict, false⟩ c = x, file ⟨strict, false⟩ d = y at ends
      cases ends with
      | ok related _ => exact .ok related.imports_perm
      | error kind _ => exact .error kind

/-- The words of an import statement. -/
def importWords (path : String) : List (TokenKind × String) :=
  [(.keyword .importKw, "import"), (.string, path), (.punct .semicolon, ";")]

/-- Two import statements in front of a text may change places. -/
theorem Rearranged.of_imports (strict : Bool) {t t' a b : String} {back : List (TokenKind × String)}
    (h : words? t = some (importWords a ++ (importWords b ++ back)))
    (h' : words? t' = some (importWords b ++ (importWords a ++ back))) :
      Rearranged strict t t' := by
  have hnothing : ReadsWhole (header ⟨strict, false⟩) [] .empty :=
    ⟨.before [], _, (Cursor.before_faces _).silent, rfl, rfl, rfl⟩
  have himport : ∀ path, ReadsWhole (importStatement ⟨strict, false⟩) (importWords path)
      ⟨.normal, path⟩ :=
    fun path =>
      ⟨.before ((importWords path).map fun w => ⟨w.1, w.2, .start, 0⟩), _,
        (Cursor.before_faces _).silent, rfl,
        rfl, rfl⟩
  exact .exchange hnothing (himport a) (importStatement_whole (himport b)) h h'

end Grammar

end ProtoRoutes
