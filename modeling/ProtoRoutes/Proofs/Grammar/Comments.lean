import ProtoRoutes.Proofs.Grammar.Mirrors

/-!
# ProtoRoutes.Proofs.Grammar.Comments

**Comments never influence a reading.** Dropping them while reading, taking them out of the token
stream before, and emptying the comment lists of the tree afterwards come to the same, also where
reading fails.
-/

namespace ProtoRoutes

namespace Grammar

/-- Two streams with the same tokens but for comments, of which the left one gives none. -/
theorem ofStream_beside {comments : Bool} {s t : TokenStream} (h : s.uncommented = t.uncommented)
    (hquiet : comments = true → s.uncommented = s) :
    Beside false comments (.ofStream s) (.ofStream t) := by
  have tokens : s.uncommented.tokens = t.uncommented.tokens := by rw [h]
  have stop : s.uncommented.stop = t.uncommented.stop := by rw [h]
  have same : (Cursor.ofStream s).tokens = (Cursor.ofStream t).tokens := by
    show (attach s.tokens).2.map Lexeme.token = (attach t.tokens).2.map Lexeme.token
    rw [attach_tokens, attach_tokens]
    exact tokens
  refine ⟨congrArg (List.map Token.shape) same, fun hcomments => ?_, fun _ => ⟨same, stop, rfl⟩⟩
  have none : ∀ x ∈ s.tokens, x.kind ≠ .comment := by
    intro x hx
    rw [← hquiet hcomments] at hx
    simpa using (List.mem_filter.mp hx).2
  obtain ⟨first, others⟩ := attach_silent none
  exact ⟨rfl, first, others⟩

/-- Reading quietly gives the tree without comments of every reading of the same tokens. -/
theorem readTokens_eq_bare {left : Bool} (strict right : Bool) {s t : TokenStream}
    (h : s.uncommented = t.uncommented) (hquiet : left = true → s.uncommented = s) :
    readTokens ⟨strict, left⟩ s = (readTokens ⟨strict, right⟩ t).bare := by
  have ends := file_mirrors strict right _ _ (ofStream_beside h hquiet)
  unfold readTokens
  generalize file ⟨strict, left⟩ (.ofStream s) = x, file ⟨strict, right⟩ (.ofStream t) = y at ends
  cases ends with
  | ok related beside =>
      subst related
      simp [Reading.bare, Except.map, (beside.same rfl).2.2]
  | error _ same =>
      obtain ⟨rfl, deferrals⟩ := same rfl
      simp [Reading.bare, Except.map, deferrals]

/-- **Comments never influence a reading.** Dropping comments while reading, and reading a stream
from which they were taken, both come to what is left of a reading that keeps them when the comment
lists of its tree are emptied: the same tree, or the same failure. -/
theorem comments_never_matter (strict : Bool) (s : TokenStream) :
    readTokens ⟨strict, false⟩ s = (readTokens ⟨strict, true⟩ s).bare ∧
      readTokens ⟨strict, true⟩ s.uncommented = (readTokens ⟨strict, true⟩ s).bare := by
  constructor
  · exact readTokens_eq_bare strict true rfl nofun
  · exact readTokens_eq_bare strict true s.uncommented_twice fun _ => s.uncommented_twice

/-- Where comments are dropped, they may as well be taken out of the stream before. -/
theorem readTokens_uncommented (strict : Bool) (s : TokenStream) :
    readTokens ⟨strict, false⟩ s = readTokens ⟨strict, false⟩ s.uncommented := by
  have self : readTokens ⟨strict, false⟩ s.uncommented =
      (readTokens ⟨strict, false⟩ s.uncommented).bare :=
    readTokens_eq_bare strict false rfl nofun
  rw [self]
  exact readTokens_eq_bare strict false s.uncommented_twice.symm nofun

end Grammar

/-- Streams whose tokens say the same do so without their comments. -/
theorem TokenStream.uncommented_shapes {s t : TokenStream}
    (h : s.tokens.map Token.shape = t.tokens.map Token.shape) :
    s.uncommented.tokens.map Token.shape = t.uncommented.tokens.map Token.shape := by
  have proper (u : TokenStream) : u.uncommented.tokens.map Token.shape =
      (u.tokens.map Token.shape).filter (·.1 ≠ .comment) := by
    rw [List.filter_map]
    rfl
  rw [proper, proper, h]

end ProtoRoutes
