import ProtoRoutes.Proofs.Grammar.Rules
import ProtoRoutes.Proofs.Source.TokenClasses

/-!
# ProtoRoutes.Proofs.Grammar.Identifiers

The names in a tree that was read from a text are identifiers: those of services, methods, messages
and enums at every depth, and the parts of the package (`parse_wellNamed`). A name comes from a name
token, and the name tokens of a text are identifiers.
-/

namespace ProtoRoutes

open Source (isIdent)

/-- A message whose name is an identifier, and so are those of the types in it at every depth. -/
abbrev Message.WellNamed (m : Message) : Prop :=
  m.Named (isIdent · = true)

/-- A file whose names are identifiers. -/
abbrev SchemaFile.WellNamed (f : SchemaFile) : Prop :=
  f.Named (isIdent · = true)

/-- The name tokens of a text are identifiers. -/
theorem Source.isIdent_of_mem {text : String} {stream : TokenStream} (h : tokens text = .ok stream)
    {t : Token} (ht : t ∈ stream.tokens) (hname : t.isName = true) : isIdent t.text = true := by
  obtain ⟨c, cs, htext, hstart, hchars⟩ := word_of_mem h ht hname
  simp only [isIdent, htext, String.toList_ofList, hstart, Bool.true_and]
  exact List.all_eq_true.mpr hchars

/-- The names in a tree that was read are identifiers. -/
theorem Grammar.parse_wellNamed {mode : Mode} {text : String} {f : SchemaFile}
    (hread : parse mode text = .ok f) : f.WellNamed := by
  obtain ⟨stream, htokens, hread⟩ := parse_ok hread
  refine (readTokens_named mode hread).imp ?_
  rintro _ ⟨t, ht, hname, rfl⟩
  exact Source.isIdent_of_mem htokens ht hname

end ProtoRoutes
