import Mathlib.Data.List.Induction
import ProtoRoutes.Http.Check
import ProtoRoutes.Proofs.Grammar.Runs
import ProtoRoutes.Scaffold.Interface

/-!
# ProtoRoutes.Proofs.Scaffold.DocTexts

Where the doc text of an interface ends. The text stands between three double quotes and three more,
and `DocText.length?` reads such a literal by the rules of the generated language: it ends at the
first three quotes in a row, where a backslash takes the next character along.

No doc text has three quotes in a row, since `softenQuotes` leaves none in a comment and the blanks
between comments and words join none (`not_infix_docText`). So a reader comes to the end of the
text, and what happens there depends on how it ends. A quote at the end closes the literal too
early, together with those behind it, and a backslash at the end takes the first of the closing
quotes away.
-/

namespace ProtoRoutes.Scaffold

namespace DocText

/-! ### Reading -/

/-- What opens and closes a doc text. -/
def quotes : List Char := ['"', '"', '"']

/-- How many characters a literal has, given what stands behind its opening quotes. The first
argument says if there is a backslash in front, which takes the next character along whatever it is.
-/
def length? : Bool → List Char → Option Nat
  | _, [] => none
  | true, _ :: rest => (length? false rest).map (· + 1)
  | false, c :: rest =>
    if quotes.isPrefixOf (c :: rest) then some 0 else (length? (c = '\\') rest).map (· + 1)

/-- Whether the character behind a text is taken along by a backslash: the backslashes at its end
pair up but for one. -/
def escapes (cs : List Char) : Bool :=
  (cs.reverse.takeWhile (· = '\\')).length % 2 = 1

/-- Whether a text ends in a quote that no backslash takes along. -/
def endsInQuote (cs : List Char) : Bool :=
  cs.getLast? = some '"' && !escapes cs.dropLast

/-- Whether there is a backslash in front after a text was read. -/
def pending (b : Bool) (cs : List Char) : Bool :=
  cs.foldl (fun b c => !b && c = '\\') b

theorem pending_eq_escapes (cs : List Char) : pending false cs = escapes cs := by
  -- From the end, since that is where the backslashes are counted.
  induction cs using List.reverseRecOn with
  | nil => rfl
  | append_singleton cs c ih =>
      have step : pending false (cs ++ [c]) = (!pending false cs && decide (c = '\\')) := by
        simp [pending]
      rw [step, ih]
      by_cases hc : c = '\\'
      · simp [escapes, hc]
        grind
      · simp [escapes, hc]

/-! ### Literals and how their text ends -/

theorem endsInQuote_concat (front : List Char) (c : Char) :
    endsInQuote (front ++ [c]) = (c = '"' && !escapes front) := by
  simp [endsInQuote]

theorem endsInQuote_of_escapes {cs : List Char} (h : escapes cs = true) :
    endsInQuote cs = false := by
  rw [Bool.eq_false_iff]
  intro hquote
  simp only [endsInQuote, Bool.and_eq_true, decide_eq_true_eq] at hquote
  obtain ⟨front, rfl⟩ := List.getLast?_eq_some_iff.mp hquote.1
  simp [escapes] at h

/-- Three quotes that start in a text lie in it or stick out of it by one or two. -/
theorem prefix_append_cases {cs rest : List Char} (hsome : cs ≠ []) (h : quotes <+: cs ++ rest) :
    quotes <:+: cs ∨ cs = ['"'] ∨ cs = ['"', '"'] := by
  rcases cs with _ | ⟨c, _ | ⟨d, _ | ⟨e, cs⟩⟩⟩
  · exact absurd rfl hsome
  · simp [quotes] at h
    exact .inr (.inl (by rw [h.1]))
  · simp [quotes] at h
    exact .inr (.inr (by rw [← h.1, ← h.2.1]))
  · simp [quotes] at h
    obtain ⟨rfl, rfl, rfl⟩ := h
    exact .inl ⟨[], cs, rfl⟩

/-- A text without three quotes in a row that does not end in a quote is read as a whole. -/
theorem length?_append {b : Bool} {cs : List Char} (hfree : ¬ quotes <:+: cs)
    (hend : ∀ front, cs = front ++ ['"'] → pending b front = true) (rest : List Char) :
    length? b (cs ++ rest) = (length? (pending b cs) rest).map (· + cs.length) := by
  induction cs generalizing b with
  | nil => simp [pending]
  | cons c cs ih =>
      have hrest : length? (!b && decide (c = '\\')) (cs ++ rest) =
          (length? (pending b (c :: cs)) rest).map (· + cs.length) := by
        refine ih (fun h => hfree (List.infix_cons h)) fun front hfront => ?_
        exact hend (c :: front) (by rw [hfront]; rfl)
      have step : length? b (c :: (cs ++ rest)) =
          (length? (!b && decide (c = '\\')) (cs ++ rest)).map (· + 1) := by
        cases b with
        | true => rfl
        | false =>
            have hopen : ¬ quotes.isPrefixOf (c :: (cs ++ rest)) = true := by
              rw [List.isPrefixOf_iff_prefix]
              intro hprefix
              rcases prefix_append_cases (List.cons_ne_nil c cs) hprefix with h | h | h
              · exact hfree h
              · cases hend [] h
              · cases hend ['"'] h
            rw [length?, if_neg hopen]
            rfl
      rw [List.cons_append, step, hrest, Option.map_map, List.length_cons]
      rfl

section Ends

variable {cs : List Char} (hfree : ¬ quotes <:+: cs) (after : List Char)

include hfree

theorem length?_of_not_endsInQuote (hend : endsInQuote cs = false) (rest : List Char) :
    length? false (cs ++ rest) = (length? (escapes cs) rest).map (· + cs.length) := by
  rw [← pending_eq_escapes]
  refine length?_append hfree (fun front hfront => ?_) rest
  rw [hfront, endsInQuote_concat] at hend
  simpa [pending_eq_escapes] using hend

/-- Then the literal ends where it should. -/
theorem length?_exact (hquote : endsInQuote cs = false) (hescape : escapes cs = false) :
    length? false (cs ++ quotes ++ after) = some cs.length := by
  rw [List.append_assoc, length?_of_not_endsInQuote hfree hquote, hescape]
  simp [length?, quotes]

/-- A backslash at the end takes the first of the closing quotes along. -/
theorem lt_of_length?_of_escapes (hescape : escapes cs = true) {n : Nat}
    (h : length? false (cs ++ quotes ++ after) = some n) : cs.length < n := by
  rw [List.append_assoc, length?_of_not_endsInQuote hfree (endsInQuote_of_escapes hescape), hescape]
    at h
  obtain ⟨m, hm, rfl⟩ := Option.map_eq_some_iff.mp h
  obtain ⟨k, -, rfl⟩ := Option.map_eq_some_iff.mp hm
  omega

/-- A quote at the end closes the literal together with those behind it. -/
theorem exists_length?_lt_of_endsInQuote (hquote : endsInQuote cs = true) :
    ∃ n < cs.length, length? false (cs ++ quotes ++ after) = some n := by
  -- The last quote and the closing ones are four in a row, so it may change sides.
  induction cs using List.reverseRecOn generalizing after with
  | nil => cases hquote
  | append_singleton front c ih =>
      simp only [endsInQuote_concat, Bool.and_eq_true, decide_eq_true_eq, Bool.not_eq_true']
        at hquote
      obtain ⟨rfl, hescape⟩ := hquote
      have hfree' : ¬ quotes <:+: front := fun h => hfree (h.trans List.infix_append_left)
      have swap : front ++ ['"'] ++ quotes ++ after = front ++ quotes ++ '"' :: after := by
        simp [quotes]
      rw [swap]
      by_cases hfront : endsInQuote front = true
      · obtain ⟨n, hn, hread⟩ := ih hfree' ('"' :: after) hfront
        exact ⟨n, by simp; omega, hread⟩
      · have hread := length?_exact hfree' ('"' :: after) (by simpa using hfront) hescape
        exact ⟨front.length, by simp, hread⟩

end Ends

/-! ### No doc text has three quotes in a row -/

theorem replicate_prefix_of_softenQuotes {cs : List Char} {n : Nat}
    (h : List.replicate n '"' <+: softenQuotes cs) : List.replicate n '"' <+: cs := by
  fun_induction softenQuotes cs generalizing n with
  | case1 rest ih =>
      cases n with
      | zero => simp
      | succ n => simp [List.replicate_succ] at h
  | case2 => exact h
  | case3 c rest hother ih =>
      cases n with
      | zero => simp
      | succ n =>
          rw [List.replicate_succ, List.cons_prefix_cons] at h ⊢
          exact ⟨h.1, ih h.2⟩

theorem not_infix_softenQuotes (cs : List Char) : ¬ quotes <:+: softenQuotes cs := by
  fun_induction softenQuotes cs with
  | case1 rest ih => simpa [List.infix_cons_iff, quotes] using ih
  | case2 => simp [quotes]
  | case3 c rest hother ih =>
      rw [List.infix_cons_iff]
      rintro (h | h)
      · obtain ⟨hc, h⟩ := List.cons_prefix_cons.mp h
        obtain ⟨tail, htail⟩ := @replicate_prefix_of_softenQuotes rest 2 h
        exact hother tail hc.symm htail.symm
      · exact ih h

/-- What stands in joined texts and has no separator in it stands in one of them. -/
theorem exists_infix_of_infix_intercalate {part : List Char} {sep : Char} (hsome : part ≠ [])
    (hsep : sep ∉ part) {texts : List (List Char)} (h : part <:+: [sep].intercalate texts) :
    ∃ cs ∈ texts, part <:+: cs := by
  induction texts with
  | nil => exact absurd (List.eq_nil_of_infix_nil h) hsome
  | cons cs texts ih =>
      cases texts with
      | nil => exact ⟨cs, List.mem_singleton_self cs, by simpa using h⟩
      | cons ds texts =>
          rw [List.intercalate_cons_cons, List.append_assoc, List.singleton_append,
            List.infix_append_iff_ne_nil, List.infix_cons_iff] at h
          rcases h with h | (h | h) | ⟨l₁, l₂, -, hne, rfl, -, h⟩
          · exact ⟨cs, List.mem_cons_self, h⟩
          · rcases List.prefix_cons_iff.mp h with rfl | ⟨tail, rfl, -⟩
            · exact absurd rfl hsome
            · exact absurd List.mem_cons_self hsep
          · obtain ⟨es, hes, h⟩ := ih h
            exact ⟨es, List.mem_cons_of_mem cs hes, h⟩
          · rcases List.prefix_cons_iff.mp h with rfl | ⟨tail, rfl, -⟩
            · exact absurd rfl hne
            · exact absurd (List.mem_append_right l₁ List.mem_cons_self) hsep

/-- The pieces between blanks stand in the text, and the first one stands in front: it is the one
that can still grow. -/
theorem blankSplit_pieces (cs : List Char) :
    (∀ first ∈ (Text.blankSplit cs).head?, first <+: cs) ∧ ∀ piece ∈ Text.blankSplit cs,
      piece <:+: cs := by
  induction cs with
  | nil => simp [Text.blankSplit]
  | cons c cs ih =>
      obtain ⟨hfirst, hall⟩ := ih
      by_cases hblank : Text.isBlank c = true
      · simp only [Text.blankSplit, if_pos hblank, List.head?_cons, Option.mem_some_iff,
          List.mem_cons]
        refine ⟨by simp, ?_⟩
        rintro piece (rfl | hpiece)
        · simp
        · exact List.infix_cons (hall piece hpiece)
      · simp only [Text.blankSplit, if_neg hblank]
        cases hsplit : Text.blankSplit cs with
        | nil => simp [Text.consWord, List.infix_cons_iff]
        | cons first others =>
            rw [hsplit] at hfirst hall
            have hcons : c :: first <+: c :: cs := List.cons_prefix_cons.mpr ⟨rfl, hfirst first rfl⟩
            simp only [Text.consWord, List.head?_cons, Option.mem_some_iff, List.mem_cons]
            refine ⟨by simpa using hcons, ?_⟩
            rintro piece (rfl | hpiece)
            · exact hcons.isInfix
            · exact List.infix_cons (hall piece (List.mem_cons_of_mem first hpiece))

theorem not_infix_docText {comments : List Comment} {text : String}
    (h : docText comments = some text) :
    ¬ quotes <:+: text.toList := by
  intro hquotes
  simp only [docText] at h
  split at h
  · cases h
  · next words _ =>
      cases h
      rw [String.toList_ofList] at hquotes
      obtain ⟨word, hword, hquotes⟩ :=
        exists_infix_of_infix_intercalate (by decide) (by decide) hquotes
      have hpiece := (blankSplit_pieces _).2 word (List.mem_filter.mp hword).1
      obtain ⟨soft, hsoft, hquotes⟩ :=
        exists_infix_of_infix_intercalate (by decide) (by decide) (hquotes.trans hpiece)
      obtain ⟨comment, -, rfl⟩ := List.mem_map.mp hsoft
      exact not_infix_softenQuotes _ hquotes

end DocText

/-! ### Doc texts of interfaces -/

namespace Interface

/-- An interface module up to the quotes that open its doc text. -/
def docFront (source : String) (i : Interface) : String :=
  banner source ++ "from abc import ABC, abstractmethod\n" ++
    "from typing import Any, Dict\n\n\n" ++
  "class " ++ i.name ++ "(ABC):\n" ++ "    "

/-- An interface module behind the quotes that close its doc text. -/
def docBack (i : Interface) : String :=
  "\n" ++ String.join (i.methods.map renderMethod)

theorem toList_render_of_doc {i : Interface} {text : String} (h : i.doc = some text)
    (source : String) :
    (render source i).toList = (docFront source i).toList ++ DocText.quotes ++ text.toList ++
      DocText.quotes ++ (docBack i).toList := by
  have opening : "\"\"\"".toList = DocText.quotes := by decide
  have closing : "\"\"\"\n".toList = DocText.quotes ++ "\n".toList := by decide
  simp only [render, h, docLine, docFront, docBack, String.toList_append, opening, closing,
    List.append_assoc]

end Interface

open DocText

/-- **A doc text is closed by the quotes behind it unless it ends in a quote or in a backslash.** An
interface has one doc text at most, between three quotes and three more. Read from the opening ones,
the literal ends exactly at those that were put behind the text if and only if the text ends neither
in a quote that no backslash takes along nor in a backslash that nothing takes along. Such a quote
ends the literal before the end of the text, and with such a backslash it goes on behind the quotes
that should end it. -/
theorem doc_ends_at_closing_quotes_iff (source : String) (s : Service) (routes : List Route)
    {text : String} (h : docText s.comments = some text) :
    let i := Interface.ofService s routes
    let after := (Interface.docBack i).toList
    let read := length? false (text.toList ++ quotes ++ after)
    (Interface.render source i).toList =
        (Interface.docFront source i).toList ++ quotes ++ text.toList ++ quotes ++ after ∧
      (read = some text.length ↔ endsInQuote text.toList = false ∧ escapes text.toList = false) ∧
      (endsInQuote text.toList = true → ∃ n < text.length, read = some n) ∧
      (escapes text.toList = true → ∀ n, read = some n → text.length < n) := by
  intro i after read
  have hfree := not_infix_docText h
  have early (hquote : endsInQuote text.toList = true) : ∃ n < text.length, read = some n := by
    rw [← String.length_toList]
    exact exists_length?_lt_of_endsInQuote hfree after hquote
  have late (hescape : escapes text.toList = true) : ∀ n, read = some n → text.length < n := by
    intro n hn
    rw [← String.length_toList]
    exact lt_of_length?_of_escapes hfree after hescape hn
  refine ⟨Interface.toList_render_of_doc h source, ⟨fun hexact => ⟨?_, ?_⟩, fun hends => ?_⟩,
    early, late⟩
  · rw [Bool.eq_false_iff]
    intro hquote
    obtain ⟨n, hn, hread⟩ := early hquote
    rw [hexact] at hread
    cases hread
    exact Nat.lt_irrefl _ hn
  · rw [Bool.eq_false_iff]
    intro hescape
    exact Nat.lt_irrefl _ (late hescape _ hexact)
  · rw [← String.length_toList]
    exact length?_exact hfree after hends.1 hends.2

/-- A service whose comments have three quotes in a row and, at the end, one behind a backslash. -/
def quotingService : Service :=
  { name := "S", comments := [⟨.leading, "\"\"\"a"⟩, ⟨.leading, "b \\\""⟩],
    options := [], methods := [] }

theorem doc_ends_at_closing_quotes_escaped :
    docText quotingService.comments = some "'''a b \\\"" ∧
      length? false ("'''a b \\\"".toList ++ quotes ++
        (Interface.docBack (Interface.ofService quotingService [])).toList) = some 9 := by
  have hdoc : docText quotingService.comments = some "'''a b \\\"" := by decide +kernel
  have law := (doc_ends_at_closing_quotes_iff "proto" quotingService [] hdoc).2.1
  exact ⟨hdoc, law.mpr (by decide)⟩

/-- A comment that ends in a quoted word: its last quote ends the doc text, and one quote is left
behind it. -/
theorem doc_ends_before_last_quote :
    ∃ f routes, Grammar.parse ⟨true, true⟩ ("// say \"hi\"\n" ++
        "service S \x7b rpc M(A) returns (A) \x7b option (google.api.http) = " ++
        "\x7b get: '/a' \x7d; \x7d \x7d") = .ok f ∧
      Route.extract {} f = .ok routes ∧ ∃ s ∈ f.services, routesOf s routes ≠ [] ∧
        docText s.comments = some "say \"hi\"" ∧ "say \"hi\"".length = 8 ∧
        length? false ("say \"hi\"".toList ++ quotes ++
          (Interface.docBack (Interface.ofService s routes)).toList) = some 7 := by
  obtain ⟨f, routes, hread, hroutes, s, hs, htest⟩ :=
    @Grammar.exists_service_of_toOption _ _ _ ⟨true, true⟩
    ("// say \"hi\"\n" ++
      "service S \x7b rpc M(A) returns (A) \x7b option (google.api.http) = " ++
      "\x7b get: '/a' \x7d; \x7d \x7d")
    (Route.extract {}) (fun s routes => ((routesOf s routes).isEmpty, docText s.comments))
    (false, some "say \"hi\"") (by decide +kernel)
  obtain ⟨hroute, hdoc⟩ := Prod.mk.inj htest
  exact ⟨f, routes, hread, hroutes, s, hs, by simpa using hroute, hdoc, by decide, rfl⟩

end ProtoRoutes.Scaffold
