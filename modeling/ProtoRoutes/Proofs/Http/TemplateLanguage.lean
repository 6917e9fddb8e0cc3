import ProtoRoutes.Proofs.Http.Templates

/-!
# ProtoRoutes.Proofs.Http.TemplateLanguage

The language of path templates. A template starts with a slash and is a row of pieces: characters
other than braces, and groups in braces in front of whose equals sign something stands that is not
blank.

The check reads one piece after the other, and what it says depends on the first place where no
piece can be read: the end of the text, where the template is accepted, or one of the faults of
`Breaks`.
-/

namespace ProtoRoutes

namespace Text

/-- Trimming leaves something where something is not blank. -/
theorem trim_ne_nil_iff {cs : List Char} : trim cs ≠ [] ↔ ∃ c ∈ cs, isBlank c = false := by
  unfold trim dropEndWhile
  rw [ne_eq, List.reverse_eq_nil_iff, List.dropWhile_eq_nil_iff]
  constructor
  · intro h
    obtain ⟨c, hc, hblank⟩ := not_forall₂.mp h
    exact ⟨c, (List.dropWhile_sublist isBlank).subset (List.mem_reverse.mp hc),
      Bool.eq_false_iff.mpr hblank⟩
  · rintro ⟨c, hc, hblank⟩ hall
    -- The first character that is left is not blank.
    cases hrest : cs.dropWhile isBlank with
    | nil =>
        have blank := List.dropWhile_eq_nil_iff.mp hrest c hc
        rw [hblank] at blank
        cases blank
    | cons d rest =>
        have first := List.head?_dropWhile_not isBlank cs
        rw [hrest] at first hall
        have blank := hall d (by simp)
        simp [blank] at first

end Text

namespace Template

open Text (isBlank)

/-! ### The language -/

/-- What stands in front of the first equals sign of a group: all of it if there is none. -/
structure IsVariablePart (g name : List Char) : Prop where
  plain : '=' ∉ name
  split : g = name ∨ ∃ pattern, g = name ++ '=' :: pattern

/-- A group that binds a variable: what stands in front of its first equals sign is more than
blanks. -/
def BindsVariable (g : List Char) : Prop :=
  ∃ name, IsVariablePart g name ∧ ∃ c ∈ name, isBlank c = false

/-- A piece of a template: a character, or what stands in braces. -/
inductive Piece where
  | char (c : Char)
  | group (g : List Char)

namespace Piece

/-- A piece as it is written. -/
def text : Piece → List Char
  | char c => [c]
  | group g => '{' :: (g ++ ['}'])

/-- Braces stand around groups and nowhere else, and every group binds a variable. -/
def IsValid : Piece → Prop
  | char c => c ≠ '{' ∧ c ≠ '}'
  | group g => NoBraces g ∧ BindsVariable g

end Piece

/-- Pieces of a template, one after the other. -/
def IsRow (cs : List Char) : Prop :=
  ∃ pieces : List Piece, (∀ p ∈ pieces, p.IsValid) ∧ cs = pieces.flatMap Piece.text

/-- A path template. -/
structure IsTemplate (path : List Char) : Prop where
  slash : path.head? = some '/'
  row : IsRow path

/-- A text that does not start with a piece, and the reason. -/
inductive Breaks : List Char → Error → Prop where
  | unmatchedClose (rest : List Char) : Breaks ('}' :: rest) .unmatchedClose
  | nested {g : List Char} (hg : NoBraces g) (rest : List Char) :
      Breaks ('{' :: (g ++ '{' :: rest)) .nested
  | noName {g : List Char} (hg : NoBraces g) (hname : ¬ BindsVariable g) (rest : List Char) :
      Breaks ('{' :: (g ++ '}' :: rest)) (.noName (inBraces g))
  | unmatchedOpen {g : List Char} (hg : NoBraces g) : Breaks ('{' :: g) .unmatchedOpen

/-- Pieces of a template and then a fault. -/
def IsBrokenRow (cs : List Char) (e : Error) : Prop :=
  ∃ pieces : List Piece, ∃ rest, (∀ p ∈ pieces, p.IsValid) ∧
    cs = pieces.flatMap Piece.text ++ rest ∧
    Breaks rest e

/-- What is wrong with a text that is no template. -/
inductive Fault : List Char → Error → Prop where
  | empty : Fault [] .empty
  | noSlash {c : Char} (hc : c ≠ '/') (rest : List Char) : Fault (c :: rest) .noSlash
  | broken {path : List Char} {e : Error} (slash : path.head? = some '/') (h : IsBrokenRow path e) :
      Fault path e

/-! ### Variables -/

theorem isVariablePart_iff {g name : List Char} :
    IsVariablePart g name ↔ name = g.takeWhile (· ≠ '=') := by
  constructor
  · rintro ⟨plain, split⟩
    have whole : ∀ c ∈ name, decide (c ≠ '=') = true := fun c hc =>
      decide_eq_true fun heq => plain (heq ▸ hc)
    rcases split with rfl | ⟨pattern, rfl⟩
    · exact (List.takeWhile_eq_self_iff.mpr whole).symm
    · rw [List.takeWhile_append_of_pos whole]
      simp
  · rintro rfl
    refine ⟨fun hmem => ?_, ?_⟩
    · have other := List.mem_takeWhile_imp hmem
      simp at other
    · have whole := List.takeWhile_append_dropWhile (p := (· ≠ '=')) (l := g)
      cases hrest : g.dropWhile (· ≠ '=') with
      | nil =>
          rw [hrest, List.append_nil] at whole
          exact .inl whole.symm
      | cons d pattern =>
          have first := List.head?_dropWhile_not (· ≠ '=') g
          rw [hrest] at first whole
          obtain rfl : d = '=' := by simpa using first
          exact .inr ⟨pattern, whole.symm⟩

/-- The check takes the groups that bind a variable. -/
theorem bindsVariable_iff {g : List Char} : BindsVariable g ↔ variableOf g ≠ [] := by
  unfold BindsVariable variableOf
  rw [Text.trim_ne_nil_iff]
  constructor
  · rintro ⟨name, hpart, hname⟩
    rwa [← isVariablePart_iff.mp hpart]
  · intro hname
    exact ⟨_, isVariablePart_iff.mpr rfl, hname⟩

/-! ### Reading pieces -/

/-- Inside a group, the check goes on to the next brace. -/
theorem checkBraces_noBraces {back : List Char} (hback : NoBraces back) (g rest : List Char) :
    checkBraces (some g) (back ++ rest) = checkBraces (some (g ++ back)) rest := by
  induction back generalizing g with
  | nil => simp
  | cons c back ih =>
      have hc := hback c List.mem_cons_self
      rw [List.cons_append, checkBraces, if_neg hc.1, if_neg hc.2,
        ih (fun d hd => hback d (List.mem_cons_of_mem c hd)), List.append_assoc]
      rfl

/-- The check passes over a piece. -/
theorem checkBraces_piece {p : Piece} (hp : p.IsValid) (rest : List Char) :
    checkBraces none (p.text ++ rest) = checkBraces none rest := by
  cases p with
  | char c =>
      show checkBraces none (c :: rest) = _
      rw [checkBraces, if_neg hp.1, if_neg hp.2]
  | group g =>
      have found : (variableOf g).isEmpty = false := by simpa using bindsVariable_iff.mp hp.2
      show checkBraces none ('{' :: ((g ++ ['}']) ++ rest)) = _
      rw [checkBraces, if_pos rfl, List.append_assoc, checkBraces_noBraces hp.1]
      simp [checkBraces, found]

theorem checkBraces_row {pieces : List Piece} (hpieces : ∀ p ∈ pieces, p.IsValid) :
    checkBraces none (pieces.flatMap Piece.text) = .ok () := by
  induction pieces with
  | nil => rfl
  | cons p pieces ih =>
      rw [List.flatMap_cons, checkBraces_piece (hpieces p List.mem_cons_self)]
      exact ih fun q hq => hpieces q (List.mem_cons_of_mem p hq)

theorem IsRow.of_grouped {cs : List Char} {gs : List (List Char)} (h : Grouped cs gs) :
    IsRow cs := by
  induction h with
  | nil => exact ⟨[], by simp, rfl⟩
  | @char c cs gs hc _ ih =>
      obtain ⟨pieces, hpieces, rfl⟩ := ih
      exact ⟨.char c :: pieces, List.forall_mem_cons.mpr ⟨hc, hpieces⟩, rfl⟩
  | @group g cs gs hg hname _ ih =>
      obtain ⟨pieces, hpieces, rfl⟩ := ih
      refine ⟨.group g :: pieces,
        List.forall_mem_cons.mpr ⟨⟨hg, bindsVariable_iff.mpr hname⟩, hpieces⟩, ?_⟩
      simp [Piece.text]

/-! ### Faults -/

theorem IsBrokenRow.cons {p : Piece} (hp : p.IsValid) {cs : List Char} {e : Error}
    (h : IsBrokenRow cs e) : IsBrokenRow (p.text ++ cs) e := by
  obtain ⟨pieces, rest, hpieces, rfl, hrest⟩ := h
  refine ⟨p :: pieces, rest, List.forall_mem_cons.mpr ⟨hp, hpieces⟩, ?_, hrest⟩
  rw [List.flatMap_cons, List.append_assoc]

theorem IsBrokenRow.of_breaks {cs : List Char} {e : Error} (h : Breaks cs e) : IsBrokenRow cs e :=
  ⟨[], cs, by simp, rfl, h⟩

/-- What was read of a group that is still open, with its brace. -/
def opened : Option (List Char) → List Char
  | none => []
  | some g => '{' :: g

/-- An error of the check is a fault of the text from the last opening brace on. -/
theorem isBrokenRow_of_checkBraces {state : Option (List Char)} {cs : List Char} {e : Error}
    (hstate : ∀ g ∈ state, NoBraces g) (hcheck : checkBraces state cs = .error e) :
    IsBrokenRow (opened state ++ cs) e := by
  -- On the steps of the check: an open group has no braces so far.
  fun_induction checkBraces state cs with
  | case1 => cases hcheck
  | case2 g =>
      cases hcheck
      rw [List.append_nil]
      exact .of_breaks (.unmatchedOpen (hstate g rfl))
  | case3 rest ih => exact ih (by simp [NoBraces]) hcheck
  | case4 rest =>
      cases hcheck
      exact .of_breaks (.unmatchedClose rest)
  | case5 c rest hopen hclose ih =>
      have hc : (Piece.char c).IsValid := ⟨hopen, hclose⟩
      exact .cons hc (ih (by simp) hcheck)
  | case6 g rest =>
      cases hcheck
      exact .of_breaks (.nested (hstate g rfl) rest)
  | case7 g rest hname =>
      cases hcheck
      have unnamed : ¬ BindsVariable g := by
        rw [bindsVariable_iff]
        simpa using hname
      exact .of_breaks (.noName (hstate g rfl) unnamed rest)
  | case8 g rest hname _ ih =>
      have hg : (Piece.group g).IsValid := by
        refine ⟨hstate g rfl, bindsVariable_iff.mpr ?_⟩
        simpa using hname
      have whole := IsBrokenRow.cons hg (ih (by simp) hcheck)
      simpa [Piece.text, opened] using whole
  | case9 g c rest hopen hclose ih =>
      have hnext : ∀ h ∈ some (g ++ [c]), NoBraces h := by
        rintro h ⟨⟩ d hd
        rcases List.mem_append.mp hd with hd | hd
        · exact hstate g rfl d hd
        · rw [List.mem_singleton.mp hd]
          exact ⟨hopen, hclose⟩
      have whole := ih hnext hcheck
      simpa [opened] using whole

/-! ### Templates -/

theorem check_of_slash {path : List Char} (slash : path.head? = some '/') :
    check path = checkBraces none path := by
  cases path with
  | nil => cases slash
  | cons c rest => exact if_pos (Option.some.inj slash)

theorem check_ok_iff_isTemplate {path : List Char} : check path = .ok () ↔ IsTemplate path := by
  constructor
  · intro hcheck
    obtain ⟨gs, hgs⟩ := grouped_of_check hcheck
    exact ⟨head?_of_check hcheck, .of_grouped hgs⟩
  · rintro ⟨slash, pieces, hpieces, hrow⟩
    rw [check_of_slash slash, hrow]
    exact checkBraces_row hpieces

instance (path : List Char) : Decidable (IsTemplate path) :=
  decidable_of_iff (check path = .ok ()) check_ok_iff_isTemplate

/-- What the check reports is what is wrong. -/
theorem fault_of_check {path : List Char} {e : Error} (hcheck : check path = .error e) :
    Fault path e := by
  cases path with
  | nil =>
      cases hcheck
      exact .empty
  | cons c rest =>
      by_cases hc : c = '/'
      · have slash : (c :: rest).head? = some '/' := congrArg some hc
        rw [check_of_slash slash] at hcheck
        exact .broken slash (isBrokenRow_of_checkBraces (by simp) hcheck)
      · rw [check, if_neg hc] at hcheck
        cases hcheck
        exact .noSlash hc rest

end Template

namespace Route

theorem checkTemplate_eq_ok_iff {path : String} :
    checkTemplate path = .ok () ↔ Template.IsTemplate path.toList := by
  rw [← Template.check_ok_iff_isTemplate, checkTemplate]
  cases Template.check path.toList <;> simp [Except.mapError]

/-- **The check accepts exactly the path templates.** Any other text is refused with an error that
shows it and says what is wrong with it. -/
theorem checkTemplate_accepts_exactly_templates (path : String) :
    (checkTemplate path = .ok () ↔ Template.IsTemplate path.toList) ∧
    (¬ Template.IsTemplate path.toList →
      ∃ e, checkTemplate path = .error (.template path e) ∧ Template.Fault path.toList e) := by
  refine ⟨checkTemplate_eq_ok_iff, fun refused => ?_⟩
  cases hcheck : Template.check path.toList with
  | ok _ => exact absurd (Template.check_ok_iff_isTemplate.mp hcheck) refused
  | error e =>
      refine ⟨e, ?_, Template.fault_of_check hcheck⟩
      rw [checkTemplate, hcheck]
      rfl

/-- A group with blanks around its variable and a pattern behind it is accepted, one with nothing
but blanks in front of its equals sign is not. -/
theorem checkTemplate_accepts_exactly_templates_blank :
    checkTemplate "/v1/{ name =shelves/*}" = .ok () ∧
    ∃ e, checkTemplate "/v1/{ =shelves/*}" = .error (.template "/v1/{ =shelves/*}" e) ∧
      Template.Fault "/v1/{ =shelves/*}".toList e :=
  ⟨(checkTemplate_accepts_exactly_templates _).1.mpr (by decide),
    (checkTemplate_accepts_exactly_templates _).2 (by decide)⟩

end Route

end ProtoRoutes
