import ProtoRoutes.Proofs.Source.TokenClasses

/-!
# ProtoRoutes.Proofs.Source.TokenOrder

**Tokens come in the order of their places.** Every token of a text stands behind those in front of
it, so no two of them are equal, and only a comment can end on a later line than it starts.
-/

namespace ProtoRoutes

namespace Position

/-- One place comes before another one: on an earlier line, or on the same line further left. -/
def Before (p q : Position) : Prop :=
  p.line < q.line ∨ p.line = q.line ∧ p.column < q.column

variable {p q r : Position}

theorem Before.irrefl (p : Position) : ¬ p.Before p := by
  unfold Before
  omega

theorem Before.trans (h : p.Before q) (h' : q.Before r) : p.Before r := by
  unfold Before at *
  omega

theorem before_next (p : Position) (c : Char) : p.Before (p.next c) := by
  unfold Before next
  split <;> simp

theorem before_right (p : Position) {n : Nat} (h : 0 < n) : p.Before (p.right n) := by
  unfold Before right
  exact .inr ⟨rfl, by simpa using h⟩

theorem before_after (p : Position) (c : Char) (cs : List Char) : p.Before (p.after (c :: cs)) := by
  induction cs generalizing p c with
  | nil => exact before_next p c
  | cons d cs ih => exact (before_next p c).trans (ih (p.next c) d)

theorem after_line_of_no_newline {cs : List Char} (h : '\n' ∉ cs) (p : Position) :
    (p.after cs).line = p.line := by
  rw [after_of_no_newline p h]
  rfl

end Position

namespace Source

/-- A piece ends behind the place where it starts. -/
theorem before_stop (piece : Piece) (pos : Position) (c : Char) (cs : List Char) :
    pos.Before (piece.stop pos (c :: cs)) := by
  unfold Piece.stop
  split
  · exact pos.before_right (by simp)
  · exact pos.before_after c cs

/-- A token that is no comment ends on the line where it starts. -/
theorem Reads.stop_line {c : Char} {span : List Char} {kind : TokenKind} {text : String}
    (h : Reads c span (.token kind text)) (hkind : kind ≠ .comment) (pos : Position) :
    ((Piece.token kind text).stop pos (c :: span)).line = pos.line := by
  have plain (hline : '\n' ∉ c :: span) : ((Piece.token kind text).stop pos (c :: span)).line =
      pos.line := by
    unfold Piece.stop
    split
    · rfl
    · exact Position.after_line_of_no_newline hline pos
  generalize hpiece : Piece.token kind text = piece at h
  cases h with
  | gap => cases hpiece
  | lineComment =>
      injection hpiece with heq
      exact absurd heq hkind
  | blockComment =>
      injection hpiece with heq
      exact absurd heq hkind
  | string => rfl
  | number hstart hnumber => exact hpiece ▸ plain (hnumber ▸ newline_notMem_numberPart _)
  | word hstart hall =>
      refine hpiece ▸ plain ?_
      rw [List.mem_cons]
      rintro (rfl | hmem)
      · cases hstart
      · have letter := hall _ hmem
        cases letter
  | @sign p hsign =>
      subst hsign
      exact hpiece ▸ plain (by cases p <;> decide)

/-- Tokens in the order of their places, of which only comments can end on another line than they
start. -/
structure Ordered (ts : List Token) : Prop where
  pairwise : ts.Pairwise fun t u => t.pos.Before u.pos
  line : ∀ t ∈ ts, t.kind ≠ .comment → t.endLine = t.pos.line

theorem tokensFrom_ordered {pos : Position} {cs : List Char} {stream : TokenStream}
    (h : tokensFrom pos cs = .ok stream) :
    (∀ t ∈ stream.tokens, t.pos = pos ∨ pos.Before t.pos) ∧ Ordered stream.tokens := by
  fun_induction tokensFrom pos cs generalizing stream with
  | case1 =>
      cases h
      exact ⟨by simp, .nil, by simp⟩
  | case2 => cases h
  | case3 pos c rest piece n hscan stop =>
      rename_i ih
      cases hrest : tokensFrom stop (rest.drop n) with
      | error e =>
          rw [hrest] at h
          cases h
      | ok others =>
          rw [hrest] at h
          cases h
          obtain ⟨behind, pairwise, line⟩ := ih hrest
          have later : ∀ t ∈ others.tokens, pos.Before t.pos := by
            intro t ht
            rcases behind t ht with heq | hbefore
            · exact heq ▸ before_stop piece pos c _
            · exact (before_stop piece pos c _).trans hbefore
          cases piece with
          | gap => exact ⟨fun t ht => .inr (later t ht), pairwise, line⟩
          | token kind text =>
              obtain ⟨span, tail, rfl, rfl, hreads⟩ := takes_of_scan hscan
              refine ⟨?_, List.pairwise_cons.mpr ⟨later, pairwise⟩, ?_⟩
              · exact List.forall_mem_cons.mpr ⟨.inl rfl, fun t ht => .inr (later t ht)⟩
              · refine List.forall_mem_cons.mpr ⟨fun hkind => ?_, line⟩
                simpa [stop] using hreads.stop_line hkind pos

/-- The tokens of a text are in order. -/
theorem tokens_ordered {text : String} {stream : TokenStream} (h : tokens text = .ok stream) :
    Ordered stream.tokens :=
  (tokensFrom_ordered h).2

theorem Ordered.nodup {ts : List Token} (h : Ordered ts) : ts.Nodup := by
  apply h.pairwise.imp
  intro t u hbefore heq
  subst heq
  exact Position.Before.irrefl _ hbefore

/-! ### Texts of comments -/

/-- What trimming leaves is not blank. -/
theorem exists_visible_of_trim {cs : List Char} (h : Text.trim cs ≠ []) :
    ∃ c ∈ Text.trim cs, Text.isBlank c = false := by
  unfold Text.trim Text.dropEndWhile at *
  rw [ne_eq, List.reverse_eq_nil_iff] at h
  obtain ⟨c, rest, hrest⟩ := List.exists_cons_of_ne_nil h
  have first := List.head?_dropWhile_not Text.isBlank (cs.dropWhile Text.isBlank).reverse
  rw [hrest] at first ⊢
  exact ⟨c, by simp, by simpa using first⟩

theorem wordKind_ne_comment (word : String) : wordKind word ≠ .comment := by
  unfold wordKind
  split <;> simp

/-- The text of a comment is trimmed. -/
theorem trim_of_comment {text : String} {stream : TokenStream} (h : tokens text = .ok stream)
    {t : Token} (ht : t ∈ stream.tokens) (hkind : t.kind = .comment) :
    ∃ body, t.text = String.ofList (Text.trim body) := by
  obtain ⟨c, span, hreads⟩ := reads_of_mem h ht
  rw [hkind] at hreads
  generalize hpiece : Piece.token .comment t.text = piece at hreads
  cases hreads with
  | gap _ => cases hpiece
  | lineComment _ _ =>
      injection hpiece with _ htext
      exact ⟨_, htext⟩
  | blockComment _ _ =>
      injection hpiece with _ htext
      exact ⟨_, htext⟩
  | string _ _ _ => cases hpiece
  | number _ _ => cases hpiece
  | word _ _ =>
      injection hpiece with hword
      exact absurd hword.symm (wordKind_ne_comment _)
  | sign _ => cases hpiece

/-- A comment that has a text is not blank. -/
theorem exists_visible_of_comment {text : String} {stream : TokenStream}
    (h : tokens text = .ok stream) {t : Token} (ht : t ∈ stream.tokens) (hkind : t.kind = .comment)
    (hshown : t.text.isEmpty = false) :
    ∃ c ∈ t.text.toList, Text.isBlank c = false := by
  obtain ⟨body, htext⟩ := trim_of_comment h ht hkind
  rw [htext] at hshown ⊢
  rw [String.toList_ofList]
  refine exists_visible_of_trim fun hnone => ?_
  rw [hnone] at hshown
  cases hshown

end Source

end ProtoRoutes
