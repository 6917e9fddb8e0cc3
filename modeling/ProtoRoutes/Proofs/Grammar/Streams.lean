import ProtoRoutes.Proofs.Grammar.Rules

/-!
# ProtoRoutes.Proofs.Grammar.Streams

**Reading goes forward and stays in its stream.** All rules of the grammar are steady, in every
mode. A steady rule never goes back and never passes the end of the stream, however it ends, so
every place that is seen while a file is read is one in front of a token of the stream, or at its
end. Every step of every loop consumes a token or fails, so no loop runs out of steps.
-/

namespace ProtoRoutes.Grammar

variable {α σ : Type}

/-! ### Loops -/

/-- The loops of the grammar: `LoopStep mode more t p` if a loop goes on at tokens with `more`, and
`p` is what it does where `t` is next. -/
inductive LoopStep (mode : Mode) : {α : Type} → (Token → Bool) → Token → Parser α → Prop where
  | header (f : SchemaFile) (t : Token) : LoopStep mode isHeaderStart t (headerItem mode f t)
  | definitions (f : SchemaFile) (t : Token) : LoopStep mode (·.kind ≠ .eof) t (definition mode f t)
  | service (s : Service) (t : Token) : LoopStep mode (!·.isPunct .rbrace) t (serviceItem mode s t)
  | method (options : List SchemaOption) (t : Token) :
      LoopStep mode (!·.isPunct .rbrace) t (methodItem mode options t)
  | message (room inner : Nat) (d : Draft) (t : Token) :
      LoopStep mode (!·.isPunct .rbrace) t (messageItem mode room (Grammar.message mode inner) d t)
  | oneof (room : Nat) (o : Oneof) (t : Token) :
      LoopStep mode (!·.isPunct .rbrace) t (oneofItem mode room o t)
  | enumeration (room : Nat) (e : Enumeration) (t : Token) :
      LoopStep mode (!·.isPunct .rbrace) t (enumItem mode room e t)
  | literal (bound room : Nat) (fields : List (String × Value)) (t : Token) :
      LoopStep mode (!·.isPunct .rbrace) t do
        if t.kind = .eof then unexpected t .literalEnd
        let key ← literalKey
        let v ← literalFieldValue (valueWithin bound room) key
        literalSeparator
        pure (Value.addField fields key v)
  | values (bound room : Nat) (t : Token) :
      LoopStep mode (·.isPunct .comma) t (advance >>= fun _ => valueWithin bound room)
  | reservedNames (t : Token) :
    LoopStep mode (·.isPunct .comma) t (advance >>= fun _ => stringValue)
  | reservedRanges (limit : Int) (t : Token) :
      LoopStep mode (·.isPunct .comma) t (advance >>= fun _ => reservedRange limit)
  | inlineOptions (room : Nat) (t : Token) :
      LoopStep mode (·.isPunct .comma) t (advance >>= fun _ => optionAssignment room)
  | optionName (t : Token) :
      LoopStep mode (fun t => t.isPunct .dot || t.isPunct .lbracket) t optionNameSuffix
  | dottedName (t : Token) :
      LoopStep mode (·.isPunct .dot) t (advance >>= fun _ => expectName .identifierAfterDot)
  | strings (t : Token) : LoopStep mode (·.kind = .string) t advance

/-- Every step of a loop consumes a token or fails. -/
theorem LoopStep.marches {mode : Mode} {more : Token → Bool} {t : Token} {p : Parser α}
    (h : LoopStep mode more t p) (hmore : more t = true) :
    Marches Anywhere true False (· = t) Anything p := by
  have item {β : Type} {mid : β → Prop} {q : Parser β} {sign : Punct}
      (hsign : t.isPunct sign = true) (hq : Marches Anywhere true False Anywhere mid q) :
      Marches Anywhere true False (· = t) Anything (advance >>= fun _ => q) :=
    (Marches.step (kind_ne_eof_of_isPunct hsign)).eatThen fun _ => hq.any.toProgresses
  cases h with
  | header f => exact (headerItem_marches mode f t hmore False.elim).any
  | definitions f => exact (definition_marches mode f t False.elim).any
  | service s => exact (serviceItem_marches mode s t False.elim).any
  | method options => exact methodItem_marches mode options t
  | message room inner d =>
      exact (messageItem_marches mode room (message_marches mode inner) d t False.elim).any
  | oneof room o => exact (oneofItem_marches mode room o t False.elim).any
  | enumeration room e => exact (enumItem_marches mode room e t False.elim).any
  | literal bound room fields =>
      have value : Marches Anywhere true False Anywhere Anything (valueWithin bound room) :=
        valueWithin_marches bound room
      exact literalField_marches value.toProgresses fields t
  | values bound room => exact item hmore (valueWithin_marches bound room)
  | reservedNames => exact item hmore stringValue_marches
  | reservedRanges limit => exact item hmore (reservedRange_marches False.elim)
  | inlineOptions room => exact item hmore (optionAssignment_marches room)
  | optionName => exact optionNameSuffix_marches
  | dottedName => exact item hmore (expectName_marches _)
  | strings =>
      have hkind : t.kind = .string := by simpa using hmore
      exact .step (by simp [hkind])

theorem iterateFor_done {more : Token → Bool} {step : σ → Token → Parser σ} {n : Nat} {s s' : σ}
    {c d : Cursor} (hrun : iterateFor more step n s c = .ok s' d) : more d.next = false := by
  induction n generalizing s c with
  | zero => cases hrun
  | succ n ih =>
      rw [iterateFor_succ] at hrun
      split at hrun
      · obtain ⟨s₁, c₁, -, hothers⟩ := bind_ok_iff.mp hrun
        exact ih hothers
      · next hmore =>
          cases hrun
          simpa using hmore

/-! ### Places in a stream -/

/-- A place in a stream: some tokens of the stream are passed, and the others are in front of it. -/
structure Cursor.IsIn (c : Cursor) (stream : TokenStream) : Prop where
  tokens : c.tokens <:+ stream.uncommented.tokens
  stop : c.stop = stream.stop

namespace Cursor

variable {stream : TokenStream} {c d : Cursor}

theorem ofStream_isIn (stream : TokenStream) : (ofStream stream).IsIn stream where
  tokens := by
    have htokens : (ofStream stream).tokens = stream.uncommented.tokens :=
      attach_tokens stream.tokens
    exact htokens ▸ List.suffix_refl stream.uncommented.tokens
  stop := rfl

theorem IsIn.forward (h : c.IsIn stream) (hd : Forward c d) : d.IsIn stream :=
  ⟨hd.tokens.trans h.tokens, hd.stop.trans h.stop⟩

/-- The next token is one of the stream, or its end. -/
theorem IsIn.next_mem (h : c.IsIn stream) : c.next ∈ stream.tokens ++ [Token.eof stream.stop] := by
  rw [c.next_eq, h.stop]
  cases htokens : c.tokens with
  | nil => simp
  | cons t ts =>
      have hmem : t ∈ stream.uncommented.tokens := h.tokens.subset (htokens ▸ List.mem_cons_self)
      exact List.mem_append_left _ (List.mem_filter.mp hmem).1

end Cursor

/-- A file that was read is read to the end of its stream. -/
theorem file_rest_eq_nil {mode : Mode} {stream : TokenStream}
    (hends : ∀ t ∈ stream.tokens, t.kind ≠ .eof)
    {f : SchemaFile} {d : Cursor} (hrun : file mode (.ofStream stream) = .ok f d) :
      d.rest = [] := by
  obtain ⟨f₁, c₁, -, hdefinitions⟩ := bind_ok_iff.mp hrun
  -- The loop over definitions stops in front of an end only, and no token of the stream is one.
  have hkind : d.next.kind = .eof := by simpa using iterateFor_done hdefinitions
  have place :=
    (Cursor.ofStream_isIn stream).forward ((file_progresses mode).steady.forward_of_ok hrun)
  cases hrest : d.rest with
  | nil => rfl
  | cons l rest =>
      have hnext : d.next ∈ d.tokens := by simp [Cursor.next, Cursor.tokens, hrest]
      exact absurd hkind (hends _ (List.mem_filter.mp (place.tokens.subset hnext)).1)

/-- **Reading goes forward and stays in its stream.** Let a stream have no other end than its own.
In every mode a file is read by steady rules. A steady rule that starts at a place in the stream
ends at one, and not in front of it; the token that is next there is one of the stream, or its end.
Every step of every loop consumes a token or fails. So reading comes to its end without running out
of steps, and if it succeeds, all tokens have been consumed. -/
theorem reading_stays_in_stream (mode : Mode) {stream : TokenStream}
    (hends : ∀ t ∈ stream.tokens, t.kind ≠ .eof) :
    (Steady (file mode) ∧ (Cursor.ofStream stream).IsIn stream) ∧
      (∀ {α : Type} {p : Parser α} {c : Cursor}, Steady p → c.IsIn stream →
        (endOf (p c)).IsIn stream ∧ Forward c (endOf (p c)) ∧
          (endOf (p c)).next ∈ stream.tokens ++ [Token.eof stream.stop]) ∧
      (∀ {α : Type} {more : Token → Bool} {t : Token} {p : Parser α}, LoopStep mode more t p →
        more t = true → Steady p ∧ ∀ c a d, c.next = t → p c = .ok a d →
          d.rest.length < c.rest.length) ∧
      match file mode (.ofStream stream) with
      | .ok _ d => d.rest = []
      | .error e _ => e ≠ .breakdown .stalled := by
  refine ⟨⟨(file_progresses mode).steady, Cursor.ofStream_isIn stream⟩, ?_, ?_, ?_⟩
  · intro α p c hp hc
    have ends := hc.forward (hp.forward c)
    exact ⟨ends, hp.forward c, ends.next_mem⟩
  · intro α more t p hstep hmore
    exact ⟨(hstep.marches hmore).isSteady, (hstep.marches hmore).moves⟩
  · cases hrun : file mode (.ofStream stream) with
    | ok f d => exact file_rest_eq_nil hends hrun
    | error e d =>
        -- A breakdown is to be blamed on a token of the stream, and a loop that stalls on none.
        have blamed : Blamed (· ∈ stream.tokens) true e :=
          (file_progresses mode).blamed_of_error (Cursor.ofStream_sees stream) hrun
        rintro rfl
        cases blamed

/-- A message that is cut off behind its opening brace. -/
def cutOff : TokenStream where
  tokens :=
    [⟨.keyword .messageKw, "message", ⟨1, 1⟩, 1⟩, ⟨.ident, "A", ⟨1, 9⟩, 1⟩,
      ⟨.punct .lbrace, "\x7b", ⟨1, 11⟩, 1⟩]
  stop := ⟨1, 12⟩

theorem reading_stays_in_stream_cutOff :
    (∀ t ∈ cutOff.tokens, t.kind ≠ .eof) ∧
      match file ⟨true, true⟩ (.ofStream cutOff) with
      | .ok _ d => d.rest = []
      | .error e _ => e ≠ .breakdown .stalled := by
  have hends : ∀ t ∈ cutOff.tokens, t.kind ≠ .eof := by decide
  exact ⟨hends, (reading_stays_in_stream ⟨true, true⟩ hends).2.2.2⟩

end ProtoRoutes.Grammar
