import ProtoRoutes.Proofs.Source.Spans

/-!
# ProtoRoutes.Proofs.Source.StringLiterals

**Where string literals end.** A literal that was opened is read character by character, or by pairs
of a backslash and whatever stands behind it. A line end outside of a pair is refused, so the only
line ends that a literal can have are those that a backslash takes along
(`string_spans_lines_iff_escaped`).

`Reaches` says how far a reading comes: over which tokens, and to which place with which characters
left. It is how an opened literal is found in a text, and how a token is found in the text that it
was read from.
-/

namespace ProtoRoutes.Source

/-! ### How far a reading comes -/

/-- Reading a text from a place goes over tokens and comes to another place, with the rest of the
text left. -/
inductive Reaches : Position → List Char → List Token → Position → List Char → Prop where
  | here (pos : Position) (cs : List Char) : Reaches pos cs [] pos cs
  | piece {pos stop : Position} {c : Char} {rest left : List Char} {piece : Piece} {n : Nat}
      {ts : List Token} (hscan : scan c rest = .ok (piece, n))
      (hrest : Reaches (piece.stop pos (c :: rest.take n)) (rest.drop n) ts stop left) :
      Reaches pos (c :: rest) ((piece.token? pos (piece.stop pos (c :: rest.take n))).toList ++ ts)
        stop left

namespace Reaches

variable {pos stop : Position} {cs left : List Char} {ts : List Token}

/-- A reading that comes to a place goes on from there. -/
theorem tokensFrom_eq (h : Reaches pos cs ts stop left) :
    tokensFrom pos cs = (tokensFrom stop left).map fun s => ⟨ts ++ s.tokens, s.stop⟩ := by
  induction h with
  | here pos cs => cases tokensFrom pos cs <;> rfl
  | @piece pos stop c rest left piece n ts hscan _ ih =>
      rw [tokensFrom, hscan]
      simp only [ih]
      cases tokensFrom stop left with
      | error e => rfl
      | ok s => simp [Except.map]

/-- One piece more. -/
theorem concat {c : Char} {rest : List Char} {piece : Piece} {n : Nat} {mid : Position}
    (h : Reaches pos cs ts mid (c :: rest)) (hscan : scan c rest = .ok (piece, n)) :
    Reaches pos cs (ts ++ (piece.token? mid (piece.stop mid (c :: rest.take n))).toList)
      (piece.stop mid (c :: rest.take n)) (rest.drop n) := by
  generalize hleft : c :: rest = left at h
  induction h with
  | here pos cs =>
      subst hleft
      simpa using Reaches.piece hscan (.here _ _)
  | piece hfirst _ ih =>
      rw [List.append_assoc]
      exact .piece hfirst (ih hleft)

end Reaches

/-- A token of a text is one piece of it, at a place that the reading comes to. -/
theorem reaches_of_tokens {pos : Position} {cs : List Char} {stream : TokenStream}
    {ts us : List Token}
    {t : Token} (h : tokensFrom pos cs = .ok stream) (htokens : stream.tokens = ts ++ t :: us) :
    ∃ c rest n, Reaches pos cs ts t.pos (c :: rest) ∧
      scan c rest = .ok (.token t.kind t.text, n) := by
  fun_induction tokensFrom pos cs generalizing stream ts with
  | case1 =>
      cases h
      simp at htokens
  | case2 => cases h
  | case3 pos c rest piece n hscan stop =>
      rename_i ih
      cases hrest : tokensFrom stop (rest.drop n) with
      | error e =>
          rw [hrest] at h
          cases h
      | ok others =>
          rw [hrest] at h
          cases h
          cases piece with
          | gap =>
              obtain ⟨c', rest', n', hreach, hpiece⟩ := ih hrest htokens
              exact ⟨c', rest', n', .piece hscan hreach, hpiece⟩
          | token kind text =>
              -- The token is the first one, or it is found behind the first one.
              cases ts with
              | nil =>
                  cases htokens
                  exact ⟨c, rest, n, .here _ _, hscan⟩
              | cons first ts =>
                  obtain ⟨hfirst, htokens⟩ := List.cons.inj htokens
                  obtain ⟨c', rest', n', hreach, hpiece⟩ := ih hrest htokens
                  rw [← hfirst]
                  exact ⟨c', rest', n', .piece hscan hreach, hpiece⟩

/-! ### Inside of a literal -/

/-- Characters behind an opening quote that neither close the literal nor end its line. A pair of a
backslash and another character does neither, whatever that character is. -/
inductive Unclosed (quote : Char) : List Char → Prop where
  | nil : Unclosed quote []
  | plain {c : Char} {cs : List Char} (hquote : c ≠ quote) (hescape : c ≠ '\\') (hline : c ≠ '\n')
      (hcs : Unclosed quote cs) : Unclosed quote (c :: cs)
  | pair {cs : List Char} (d : Char) (hcs : Unclosed quote cs) : Unclosed quote ('\\' :: d :: cs)

/-- Whether a line end stands behind a backslash that is not itself taken along by another one. -/
def escapesLine : List Char → Bool
  | '\\' :: d :: rest => d = '\n' || escapesLine rest
  | _ :: rest => escapesLine rest
  | [] => false

theorem escapesLine_cons {c : Char} (hc : c ≠ '\\') (cs : List Char) :
    escapesLine (c :: cs) = escapesLine cs := by
  rw [escapesLine]
  intro d rest heq
  exact absurd heq hc

namespace Unclosed

variable {quote : Char} {body : List Char}

/-- A literal has a line end in it exactly if a backslash takes one along. -/
theorem newline_mem_iff (h : Unclosed quote body) : '\n' ∈ body ↔ escapesLine body = true := by
  induction h with
  | nil => simp [escapesLine]
  | plain _ hescape hline _ ih => simp [escapesLine_cons hescape, Ne.symm hline, ih]
  | @pair cs d _ ih =>
      have behind : '\n' ∈ '\\' :: d :: cs ↔ d = '\n' ∨ '\n' ∈ cs := by simp [@eq_comm _ d]
      rw [behind, ih, escapesLine, Bool.or_eq_true, decide_eq_true_eq]

/-- The closing quote ends the literal. -/
theorem closed (h : Unclosed quote body) (hquote : quote ≠ '\\') (tail : List Char) :
    ∃ value, stringBody? quote (body ++ quote :: tail) = some (value, body.length + 1) := by
  induction h with
  | nil =>
      cases tail with
      | nil => exact ⟨[], by simp [stringBody?]⟩
      | cons d tail => exact ⟨[], by simp [stringBody?]⟩
  | @plain c cs hc hescape hline _ ih =>
      obtain ⟨value, hvalue⟩ := ih
      obtain ⟨d, more, hmore⟩ := List.exists_cons_of_ne_nil (l := cs ++ quote :: tail) (by simp)
      rw [hmore] at hvalue
      refine ⟨c :: value, ?_⟩
      rw [List.cons_append, hmore]
      simp [stringBody?, hc, hescape, hline, hvalue]
  | pair d _ ih =>
      obtain ⟨value, hvalue⟩ := ih
      exact ⟨unescape d ++ value, by simp [stringBody?, Ne.symm hquote, hvalue]⟩

/-- A line end that is not taken along leaves the literal open. -/
theorem broken (h : Unclosed quote body) (hquote : quote ≠ '\\') (hline : quote ≠ '\n')
    (tail : List Char) : stringBody? quote (body ++ '\n' :: tail) = none := by
  induction h with
  | nil =>
      cases tail with
      | nil => simp [stringBody?, Ne.symm hline]
      | cons d tail => simp [stringBody?, Ne.symm hline]
  | @plain c cs hc hescape hend _ ih =>
      obtain ⟨d, more, hmore⟩ := List.exists_cons_of_ne_nil (l := cs ++ '\n' :: tail) (by simp)
      rw [hmore] at ih
      rw [List.cons_append, hmore]
      simp [stringBody?, hc, hescape, ih]
  | pair d _ ih => simp [stringBody?, Ne.symm hquote, ih]

end Unclosed

/-- What a literal holds was not closed before its closing quote. -/
theorem unclosed_of_stringBody? {quote : Char} {cs value : List Char} {n : Nat}
    (h : stringBody? quote cs = some (value, n)) :
    ∃ body tail, cs = body ++ quote :: tail ∧ n = body.length + 1 ∧ Unclosed quote body := by
  fun_induction stringBody? quote cs generalizing value n with
  | case1 => cases h
  | case2 =>
      cases h
      exact ⟨[], [], rfl, rfl, .nil⟩
  | case3 => cases h
  | case4 d rest =>
      cases h
      exact ⟨[], d :: rest, rfl, rfl, .nil⟩
  | case5 => cases h
  | case6 d rest hquote hline ih =>
      obtain ⟨⟨value, n⟩, hrest, heq⟩ := Option.map_eq_some_iff.mp h
      cases heq
      obtain ⟨body, tail, rfl, rfl, hbody⟩ := ih hrest
      exact ⟨'\\' :: d :: body, tail, rfl, rfl, .pair d hbody⟩
  | case7 c d rest hquote hline hescape ih =>
      obtain ⟨⟨value, n⟩, hrest, heq⟩ := Option.map_eq_some_iff.mp h
      cases heq
      obtain ⟨body, tail, hcs, rfl, hbody⟩ := ih hrest
      exact ⟨c :: body, tail, by rw [hcs]; rfl, rfl, .plain hquote hescape hline hbody⟩

/-! ### Literals in a text -/

/-- The characters that open and close a literal. -/
def IsQuote (c : Char) : Prop := c = '"' ∨ c = '\''

namespace IsQuote

variable {quote : Char}

theorem ne_backslash (h : IsQuote quote) : quote ≠ '\\' := by
  rintro rfl
  simp [IsQuote] at h

theorem ne_newline (h : IsQuote quote) : quote ≠ '\n' := by
  rintro rfl
  simp [IsQuote] at h

theorem scan_eq (h : IsQuote quote) (rest : List Char) :
    scan quote rest =
      match stringBody? quote rest with
      | some (value, n) => .ok (.ofChars .string value, n)
      | none => .error .openString := by
  rcases h with rfl | rfl
  · rfl
  · rfl

end IsQuote

/-- A piece that is a string literal stands between two quotes. -/
theorem literal_of_scan {c : Char} {rest : List Char} {text : String} {n : Nat}
    (h : scan c rest = .ok (.token .string text, n)) :
    IsQuote c ∧ ∃ body tail, rest = body ++ c :: tail ∧ n = body.length + 1 ∧ Unclosed c body := by
  have quote : IsQuote c := by
    obtain ⟨span, -, -, -, hreads⟩ := takes_of_scan h
    generalize hpiece : Piece.token .string text = piece at hreads
    cases hreads with
    | gap => cases hpiece
    | lineComment => cases hpiece
    | blockComment => cases hpiece
    | string hquote => exact hquote
    | number => cases hpiece
    | word =>
        injection hpiece with hkind
        exact absurd hkind.symm (wordKind_ne_string _)
    | sign => cases hpiece
  refine ⟨quote, ?_⟩
  rw [quote.scan_eq] at h
  split at h
  · next value m hbody =>
      cases h
      exact unclosed_of_stringBody? hbody
  · cases h

/-- **String literals have no line ends but those that a backslash takes along.** In a text that can
be read, every string token stands between two quotes, and there is a line end between them exactly
if one stands behind a backslash that starts a pair. Wherever a literal is opened, a line end that
comes before the closing quote and is not the second half of a pair makes the whole text unreadable,
for an open literal at its opening quote; and a literal that comes to its closing quote is read as
one token. -/
theorem string_spans_lines_iff_escaped (text : String) :
    (∀ stream ts t us, tokens text = .ok stream → stream.tokens = ts ++ t :: us → t.kind = .string →
      ∃ quote body tail, IsQuote quote ∧ Unclosed quote body ∧
        Reaches .start text.toList ts t.pos (quote :: body ++ quote :: tail) ∧
        scan quote (body ++ quote :: tail) = .ok (.token .string t.text, body.length + 1) ∧
        ('\n' ∈ quote :: body ++ [quote] ↔ escapesLine body = true)) ∧
      ∀ ts pos quote body rest, Reaches .start text.toList ts pos (quote :: body ++ rest) →
        IsQuote quote → Unclosed quote body →
        (∀ tail, rest = '\n' :: tail → tokens text = .error (.defect pos .openString) ∧
          Defect.openString.text = "Unterminated string literal") ∧
        ∀ tail, rest = quote :: tail → ∃ value,
          Reaches .start text.toList (ts ++ [⟨.string, value, pos, pos.line⟩])
            (pos.right (body.length + 2)) tail := by
  constructor
  · intro stream ts t us hread htokens hkind
    obtain ⟨quote, rest, n, hreach, hscan⟩ := reaches_of_tokens hread htokens
    rw [hkind] at hscan
    obtain ⟨hquote, body, tail, rfl, rfl, hbody⟩ := literal_of_scan hscan
    have line : '\n' ∈ quote :: body ++ [quote] ↔ '\n' ∈ body := by
      simp [Ne.symm hquote.ne_newline]
    exact ⟨quote, body, tail, hquote, hbody, hreach, hscan, line.trans hbody.newline_mem_iff⟩
  · intro ts pos quote body rest hreach hquote hbody
    constructor
    · rintro tail rfl
      have hscan : scan quote (body ++ '\n' :: tail) = .error .openString := by
        rw [hquote.scan_eq, hbody.broken hquote.ne_backslash hquote.ne_newline]
      refine ⟨?_, rfl⟩
      rw [tokens, hreach.tokensFrom_eq, List.cons_append, tokensFrom, hscan]
      rfl
    · rintro tail rfl
      obtain ⟨value, hvalue⟩ := hbody.closed hquote.ne_backslash tail
      have hscan :
          scan quote (body ++ quote :: tail) = .ok (.ofChars .string value, body.length + 1) := by
        rw [hquote.scan_eq, hvalue]
      refine ⟨String.ofList value, ?_⟩
      have next := hreach.concat hscan
      simpa [Piece.ofChars, Piece.stop, Piece.token?, Position.right] using next

/-- A literal that ends in an escaped backslash, and one that the end of its line leaves open. -/
theorem string_spans_lines_iff_escaped_broken :
    tokens "'\\\\' 'b\n'" = .error (.defect ⟨1, 6⟩ .openString) ∧
      Defect.openString.text = "Unterminated string literal" := by
  have literal : scan '\'' "\\\\' 'b\n'".toList = .ok (.ofChars .string ['\\'], 3) := rfl
  have blank : scan ' ' "'b\n'".toList = .ok (.gap, 0) := rfl
  have reach : Reaches .start "'\\\\' 'b\n'".toList [⟨.string, "\\", ⟨1, 1⟩, 1⟩] ⟨1, 6⟩
      ('\'' :: ['b'] ++ ['\n', '\'']) :=
    .piece literal (.piece blank (.here _ _))
  have content : Unclosed '\'' ['b'] := .plain (by decide) (by decide) (by decide) .nil
  exact ((string_spans_lines_iff_escaped _).2 _ _ _ _ _ reach (.inr rfl) content).1 _ rfl

/-- A string token with a line end between its quotes. -/
theorem string_token_spans_lines :
    ∃ t stop body, tokens "\"a\\\nb\"" = .ok ⟨[t], stop⟩ ∧ t.kind = .string ∧
      "\"a\\\nb\"".toList = '"' :: body ++ ['"'] ∧
      scan '"' (body ++ ['"']) = .ok (.token t.kind t.text, body.length + 1) ∧ '\n' ∈ body := by
  have read : tokens "\"a\\\nb\"" = .ok ⟨[⟨.string, "a\\\nb", ⟨1, 1⟩, 1⟩], ⟨1, 7⟩⟩ := by
    decide +kernel
  exact ⟨_, _, ['a', '\\', '\n', 'b'], read, rfl, rfl, rfl, by decide⟩

end ProtoRoutes.Source
