import Mathlib.Data.List.Forall2
import Mathlib.Data.List.TakeWhile
import ProtoRoutes.Text.Blank

/-!
# ProtoRoutes.Proofs.Text.Trimming

Blanks around a text do not count: trimming takes them off (`trim_of_padded`) and nothing else
(`padded_trim`). In a text that is cut into pieces they end up around the first and the last of
them, so that the trimmed pieces are the same with them and without (`map_trim_splitOn`).
-/

namespace ProtoRoutes.Text

/-- A text with blanks around it. -/
def Padded (core cs : List Char) : Prop :=
  ∃ front back, cs = front ++ core ++ back ∧ (∀ c ∈ front, isBlank c = true) ∧ ∀ c ∈ back,
    isBlank c = true

/-- A text without a blank at its ends. -/
structure Tight (cs : List Char) : Prop where
  head : ∀ c ∈ cs.head?, isBlank c = false
  last : ∀ c ∈ cs.getLast?, isBlank c = false

theorem Padded.refl (cs : List Char) : Padded cs cs := ⟨[], [], by simp, by simp, by simp⟩

theorem Tight.of_visible {cs : List Char} (h : ∀ c ∈ cs, isBlank c = false) : Tight cs :=
  ⟨fun c hc => h c (List.mem_of_mem_head? hc), fun c hc => h c (List.mem_of_mem_getLast? hc)⟩

theorem trim_append_blanks {cs back : List Char} (h : ∀ c ∈ back, isBlank c = true) :
    trim (cs ++ back) = trim cs := by
  have hend : ∀ c ∈ back.reverse, isBlank c = true := by simpa using h
  simp only [trim, dropEndWhile, List.dropWhile_append]
  cases hfront : cs.dropWhile isBlank with
  | nil => simp [List.dropWhile_eq_nil_iff.mpr h]
  | cons c rest => simp [List.dropWhile_append, List.dropWhile_eq_nil_iff.mpr hend]

theorem trim_of_padded {core cs : List Char} (h : Padded core cs) : trim cs = trim core := by
  obtain ⟨front, back, rfl, hfront, hback⟩ := h
  rw [trim_append_blanks hback]
  simp [trim, List.dropWhile_append, List.dropWhile_eq_nil_iff.mpr hfront]

theorem trim_of_tight {cs : List Char} (h : Tight cs) : trim cs = cs := by
  have hhead : cs.dropWhile isBlank = cs := by
    cases cs with
    | nil => rfl
    | cons c rest => simp [h.head c rfl]
  have hlast : cs.reverse.dropWhile isBlank = cs.reverse := by
    cases hrev : cs.reverse with
    | nil => rfl
    | cons c rest =>
        have hc : isBlank c = false := h.last c (by simp [← List.head?_reverse, hrev])
        simp [hc]
  rw [trim, hhead, dropEndWhile, hlast, List.reverse_reverse]

theorem padded_trim (cs : List Char) : Padded (trim cs) cs := by
  have hfront := List.takeWhile_append_dropWhile (p := isBlank) (l := cs)
  have hback := List.takeWhile_append_dropWhile (p := isBlank) (l := (cs.dropWhile isBlank).reverse)
  refine ⟨cs.takeWhile isBlank, ((cs.dropWhile isBlank).reverse.takeWhile isBlank).reverse, ?_,
    fun c hc => List.mem_takeWhile_imp hc,
    fun c hc => List.mem_takeWhile_imp (List.mem_reverse.mp hc)⟩
  rw [trim, dropEndWhile, List.append_assoc, ← List.reverse_append, hback,
    List.reverse_reverse, hfront]

theorem Padded.notMem {sep : Char} (hsep : isBlank sep = false) {core cs : List Char}
    (h : Padded core cs) (hcore : sep ∉ core) : sep ∉ cs := by
  obtain ⟨front, back, rfl, hfront, hback⟩ := h
  intro hmem
  rcases List.mem_append.mp hmem with hmem | hmem
  · rcases List.mem_append.mp hmem with hmem | hmem
    · rw [hfront sep hmem] at hsep
      cases hsep
    · exact hcore hmem
  · rw [hback sep hmem] at hsep
    cases hsep

section Pieces

variable {sep : Char} (hsep : isBlank sep = false)

include hsep

theorem ne_separator {c : Char} (hc : isBlank c = true) : (c == sep) = false := by
  rw [beq_eq_false_iff_ne]
  rintro rfl
  rw [hc] at hsep
  cases hsep

/-- Blanks behind a text go to its last piece. -/
theorem splitOn_append_blanks {cs back : List Char} (hback : ∀ c ∈ back, isBlank c = true) :
    List.Forall₂ (fun p q => ∃ blanks, q = p ++ blanks ∧ ∀ c ∈ blanks, isBlank c = true)
      (cs.splitOn sep) ((cs ++ back).splitOn sep) := by
  induction cs with
  | nil =>
      have single : back.splitOn sep = [back] :=
        List.splitOn_eq_singleton fun hmem => by simpa using ne_separator hsep (hback sep hmem)
      rw [List.nil_append, single]
      exact .cons ⟨back, rfl, hback⟩ .nil
  | cons c cs ih =>
      rw [List.cons_append, List.splitOn_cons_eq_if_modifyHead, List.splitOn_cons_eq_if_modifyHead]
      generalize cs.splitOn sep = ps, (cs ++ back).splitOn sep = qs at ih
      split
      · exact .cons ⟨[], rfl, by simp⟩ ih
      · cases ih with
        | nil => exact .nil
        | cons hfirst hothers =>
            obtain ⟨blanks, rfl, hblanks⟩ := hfirst
            exact .cons ⟨blanks, rfl, hblanks⟩ hothers

/-- The pieces of a text with blanks around it are the same but for blanks. -/
theorem map_trim_splitOn {core cs : List Char} (h : Padded core cs) :
    (cs.splitOn sep).map trim = (core.splitOn sep).map trim := by
  obtain ⟨front, back, rfl, hfront, hback⟩ := h
  rw [List.append_assoc]
  induction front with
  | nil =>
      have hends := @splitOn_append_blanks _ hsep core back hback
      rw [List.nil_append]
      generalize core.splitOn sep = ps, (core ++ back).splitOn sep = qs at hends
      induction hends with
      | nil => rfl
      | cons hfirst _ ih =>
          obtain ⟨blanks, rfl, hblanks⟩ := hfirst
          rw [List.map_cons, List.map_cons, trim_append_blanks hblanks, ih]
  | cons c front ih =>
      obtain ⟨hc, hfront⟩ := List.forall_mem_cons.mp hfront
      rw [← ih hfront, List.cons_append, List.splitOn_cons_eq_if_modifyHead, ne_separator hsep hc]
      cases (front ++ (core ++ back)).splitOn sep with
      | nil => rfl
      | cons p ps => simp [trim, hc]

end Pieces

/-- Texts with a character between any two of them have blanks at their ends only where the first
and the last one have. -/
theorem tight_intercalate {sep : Char} {pieces : List (List Char)}
    (h : ∀ p ∈ pieces, p ≠ [] ∧ Tight p) :
    Tight ([sep].intercalate pieces) := by
  induction pieces with
  | nil => exact .of_visible (by simp [List.intercalate])
  | cons p pieces ih =>
      obtain ⟨⟨hsome, hp⟩, hpieces⟩ := List.forall_mem_cons.mp h
      cases pieces with
      | nil => simpa [List.intercalate] using hp
      | cons q pieces =>
          have rest : [sep].intercalate (q :: pieces) ≠ [] := by
            cases pieces <;> simp [List.intercalate, (hpieces q List.mem_cons_self).1]
          rw [List.intercalate_cons_cons, List.append_assoc]
          constructor
          · rw [List.head?_append_of_ne_nil _ hsome]
            exact hp.head
          · rw [List.getLast?_append_of_ne_nil _ (by simp), List.getLast?_append_of_ne_nil _ rest]
            exact (ih hpieces).last

end ProtoRoutes.Text
