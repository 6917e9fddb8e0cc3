import ProtoRoutes.Proofs.Grammar.Rules
import ProtoRoutes.Proofs.Import.Loading
import ProtoRoutes.Proofs.Source.TokenClasses

/-!
# ProtoRoutes.Proofs.Grammar.Breakdowns

**A malformed text is reported, unless a number stands in the way.** Reading a text gives a tree or
an error, or it breaks down. It never breaks down because a loop stands still, and the numbers at
which it can break down are known by their look: `0x` without a digit, hexadecimal numbers beyond
the floating-point numbers, and numbers with more than 4300 digits. Whether it does break down there
depends on what the number is used for: as a field number, `0x` is reported.
-/

namespace ProtoRoutes

/-- A breakdown for which a number lexeme can be the reason. -/
def Breakdown.IsDueTo (w : List Char) : Breakdown → Prop
  | .number fault => fault.IsOf w
  | .unprintable => ∃ n, Number.integer? w = some n ∧ Nat.pow 10 Number.maxDecimalDigits ≤ n
  | .stalled | .notDirectory | .unnamedPath => False

namespace Grammar

/-- A breakdown that tokens are to blame for is due to a number among them. -/
theorem Blamed.isDueTo {text : String} {stream : TokenStream} {b : Breakdown}
    (h : Blamed (· ∈ stream.tokens) true (.breakdown b)) (hread : Source.tokens text = .ok stream) :
    ∃ t ∈ stream.tokens, t.kind = .number ∧ b.IsDueTo t.text.toList := by
  cases h with
  | @number t fault ht hkind hreal =>
      have hnumber := Source.number_of_mem hread ht hkind
      exact ⟨t, ht, hkind, (Number.real_eq_error_iff hnumber).mp hreal⟩
  | unprintable ht hkind hinteger hlong => exact ⟨_, ht, hkind, _, hinteger, hlong⟩

/-- Reading a text breaks down at one of its numbers only. -/
theorem read_breakdown {mode : Mode} {text : String} {b : Breakdown}
    (h : (read mode text).outcome = .error (.breakdown b)) :
    ∃ stream, Source.tokens text = .ok stream ∧
      ∃ t ∈ stream.tokens, t.kind = .number ∧ b.IsDueTo t.text.toList := by
  unfold read at h
  cases hread : Source.tokens text with
  | error e =>
      -- What the lexer finds fault with is always reported.
      rw [hread] at h
      rw [show (Reading.mk (.error (.report e)) []).outcome = .error (.report e) from rfl,
        Failure.report_of_isPlain (Source.tokensFrom_isPlain hread)] at h
      cases h
  | ok stream =>
      rw [hread] at h
      obtain ⟨t, ht, hkind, hdue⟩ := (readTokens_blamed mode h).isDueTo hread
      exact ⟨stream, rfl, t, ht, hkind, hdue⟩

end Grammar

namespace Session

open Files (Tree)

variable {settings : ParserSettings}

/-- Without imports, reading a text is all there is to do. -/
theorem outcome_parseContent (hresolve : settings.resolveImports = false) (tree : Tree)
    (text : String) (s : Session) :
    outcome (parseContent tree settings text s) = (Grammar.read (mode settings) text).outcome := by
  obtain ⟨t, -, hrun⟩ := run_parseText settings text s
  unfold parseContent
  rw [run_bind, hrun]
  cases (Grammar.read (mode settings) text).outcome with
  | error e => rfl
  | ok f =>
      simp only [ending, resolveImports, hresolve]
      rfl

/-- **A malformed text is reported, unless a number stands in the way.** Without imports, reading a
text gives a tree, or it reports an error, or it breaks down at a number of the text that is `0x`
without a digit, a hexadecimal number from `2 ^ 1024 - 2 ^ 970` on, or one of more than 4300 digits.
-/
theorem malformed_source_reported_or_due_to_number (hresolve : settings.resolveImports = false)
    (tree : Tree) (text : String) (s : Session) :
    (∃ f, outcome (parseContent tree settings text s) = .ok f) ∨
    (∃ e, outcome (parseContent tree settings text s) = .error (.error e)) ∨
    ∃ b, outcome (parseContent tree settings text s) = .error (.breakdown b) ∧
      ∃ stream, Source.tokens text = .ok stream ∧
        ∃ t ∈ stream.tokens, t.kind = .number ∧ b.IsDueTo t.text.toList := by
  rw [outcome_parseContent hresolve]
  cases hread : (Grammar.read (mode settings) text).outcome with
  | ok f => exact .inl ⟨f, rfl⟩
  | error e =>
      cases e with
      | error e => exact .inr (.inl ⟨e, rfl⟩)
      | breakdown b => exact .inr (.inr ⟨b, rfl, Grammar.read_breakdown hread⟩)

/-- Settings that load no imports. -/
def alone : ParserSettings := { resolveImports := false }

/-- The number `09` is malformed as a field number, and no reason to break down. -/
theorem malformed_source_reported_octal :
    (∃ f, outcome (parseContent (.empty []) alone "message M \x7b A a = 09; \x7d" empty) = .ok f) ∨
    ∃ e, outcome (parseContent (.empty []) alone "message M \x7b A a = 09; \x7d" empty) =
      .error (.error e) := by
  have numbers : (Source.tokens "message M \x7b A a = 09; \x7d").toOption.all (fun stream =>
      stream.tokens.all fun t => t.kind ≠ .number || t.text = "09") = true := by decide +kernel
  have hresolve : alone.resolveImports = false := rfl
  rcases malformed_source_reported_or_due_to_number hresolve (.empty [])
    "message M \x7b A a = 09; \x7d" empty with hread | hreport | ⟨b, -, stream, htokens, t,
      ht, hkind, hdue⟩
  · exact .inl hread
  · exact .inr hreport
  · rw [htokens] at numbers
    have htext := List.all_eq_true.mp numbers t ht
    simp only [hkind, ne_eq, not_true_eq_false, decide_false, Bool.false_or, decide_eq_true_eq]
      at htext
    rw [htext] at hdue
    cases b with
    | number fault =>
        have decimal : Number.real "09".toList = .error fault :=
          (Number.real_eq_error_iff (by decide)).mpr hdue
        cases decimal
    | unprintable =>
        obtain ⟨n, hn, -⟩ := hdue
        have octal : Number.integer? "09".toList = none := by decide
        rw [octal] at hn
        cases hn
    | stalled => exact hdue.elim
    | notDirectory => exact hdue.elim
    | unnamedPath => exact hdue.elim

/-- As the value of an option, `0x` breaks the reading down. -/
theorem malformed_source_unreported_hex :
    outcome (parseContent (.empty []) alone "option a = 0x;" empty) =
      .error (.breakdown (.number .noHexDigits)) := by
  have broken : ((Grammar.read (mode alone) "option a = 0x;").outcome.casesOn some fun _ => none) =
      some (Failure.breakdown (.number .noHexDigits)) := by decide +kernel
  rw [outcome_parseContent rfl]
  cases hread : (Grammar.read (mode alone) "option a = 0x;").outcome with
  | ok f =>
      rw [hread] at broken
      cases broken
  | error e =>
      rw [hread] at broken
      injection broken with heq
      rw [heq]

end Session

end ProtoRoutes
