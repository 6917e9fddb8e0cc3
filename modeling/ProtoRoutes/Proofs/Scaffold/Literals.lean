import ProtoRoutes.Http.Check
import ProtoRoutes.Number.Literal
import ProtoRoutes.Proofs.Grammar.Identifiers
import ProtoRoutes.Proofs.Scaffold.Arguments
import ProtoRoutes.Proofs.Scaffold.HandlerNames
import ProtoRoutes.Proofs.Scaffold.Stems

/-!
# ProtoRoutes.Proofs.Scaffold.Literals

What the string literals of a controller mean. A controller has literals for the verb, the path and
the handler of every route, and for the field that a body is put under; their texts stand between
double quotes as they are. `Literal.read?` reads a literal back by the rules of the generated
language, escapes included.

A text comes back if and only if it is plain: no quote, no end of a line and no NUL is in it, and no
backslash of it starts an escape. One direction is a computation. For the other one, a reading never
has more code points than characters, and fewer if there is an escape; so the literal cannot end
before the text does, and if it ends behind it the rest of the line has the wrong form.
-/

namespace ProtoRoutes.Scaffold

namespace Literal

/-! ### Reading -/

/-- The content of a literal behind its opening quote, as it is written, and the text behind the
closing quote. The first argument says if there is a backslash in front; then the next character
belongs to the content whatever it is, and so does the line feed behind a carriage return. -/
def content? : Bool → List Char → Option (List Char × List Char)
  | _, [] => none
  | true, c :: rest =>
    (content? (c = '\r' && rest.head? = some '\n') rest).map (Prod.map (c :: ·) id)
  | false, c :: rest =>
    if c = '"' then some ([], rest)
    else if c = '\n' || c = '\r' then none
    else (content? (c = '\\') rest).map (Prod.map (c :: ·) id)

/-- What a backslash does to the characters behind it. -/
inductive Escape where
  /-- The backslash stands for itself. -/
  | inert
  | malformed
  /-- It stands for code points together with as many characters as the width says. -/
  | codes (values : List Nat) (width : Nat)

/-- The characters that stand for one code point behind a backslash. -/
def letters : List (Char × Nat) :=
  [('\\', 92), ('\'', 39), ('"', 34), ('a', 7), ('b', 8), ('f', 12), ('n', 10), ('r', 13), ('t', 9),
   ('v', 11)]

/-- An octal digit. -/
def isOctal (c : Char) : Bool :=
  '0' ≤ c && c ≤ '7'

/-- An escape with a fixed number of hexadecimal digits behind its letter. -/
def hexEscape (width : Nat) (rest : List Char) : Escape :=
  let digits := rest.take width
  match Number.natOfDigits? 16 digits with
  | some n => if digits.length = width && n < 0x110000 then .codes [n] (width + 1) else .malformed
  | none => .malformed

/-- An escape with one to three octal digits. -/
def octalEscape (text : List Char) : Escape :=
  let digits := (text.take 3).takeWhile isOctal
  match Number.natOfDigits? 8 digits with
  | some n => .codes [n] digits.length
  | none => .malformed

/-- An escape with the name of a character in braces behind its letter. -/
def nameEscape (named : List Char → Option Nat) : List Char → Escape
  | '{' :: rest =>
    let name := rest.takeWhile (· ≠ '}')
    match named name with
    | some n => if name.length < rest.length then .codes [n] (name.length + 3) else .malformed
    | none => .malformed
  | _ => .malformed

/-- The escape of a backslash in front of a text. The table of character names is a parameter. -/
def escape (named : List Char → Option Nat) : List Char → Escape
  | [] => .malformed
  | c :: rest =>
    if c = '\r' && rest.head? = some '\n' then .codes [] 2
    else if c = '\n' || c = '\r' then .codes [] 1
    else if isOctal c then octalEscape (c :: rest)
    else if c = 'x' then hexEscape 2 rest
    else if c = 'u' then hexEscape 4 rest
    else if c = 'U' then hexEscape 8 rest
    else if c = 'N' then nameEscape named rest
    else
      match letters.lookup c with
      | some n => .codes [n] 1
      | none => .inert

/-- The code points that the content of a literal stands for. There is no NUL in a source text. -/
def decode (named : List Char → Option Nat) : List Char → Option (List Nat)
  | [] => some []
  | c :: rest =>
    if c = '\\' then
      match escape named rest with
      | .inert => (decode named rest).map (c.toNat :: ·)
      | .malformed => none
      | .codes values width => (decode named (rest.drop width)).map (values ++ ·)
    else if c = '\x00' then none
    else (decode named rest).map (c.toNat :: ·)
  termination_by cs => cs.length
  decreasing_by
    · simp
    · simp only [List.length_drop, List.length_cons]
      omega
    · simp

/-- Reads a literal at the start of a text. Three quotes start a literal of another kind. -/
def read? (named : List Char → Option Nat) : List Char → Option (List Nat × List Char)
  | '"' :: rest =>
    if ['"', '"'].isPrefixOf rest then none
    else (content? false rest).bind fun (s, behind) => (decode named s).map (·, behind)
  | _ => none

/-- Reads a literal and a word behind it. -/
def readBefore? (named : List Char → Option Nat) (word : String) (text : List Char) :
    Option (List Nat × List Char) :=
  (read? named text).bind fun (value, rest) => (word.toList.isPrefixOf? rest).map (value, ·)

/-! ### Plain texts -/

/-- A character that starts an escape behind a backslash. -/
def startsEscape (c : Char) : Bool :=
  c = '\n' || c = '\r' || isOctal c || ['x', 'u', 'U', 'N'].contains c || (letters.lookup c).isSome

/-- The characters that do not stand for themselves in a literal. -/
def special : List Char :=
  ['\\', '"', '\n', '\r']

/-- No quote, no end of a line, no NUL and no backslash that starts an escape. -/
def isPlain : List Char → Bool
  | [] => true
  | c :: rest =>
    (if c = '\\' then rest.head?.any (!startsEscape ·) else !('\x00' :: special).contains c) &&
      isPlain rest

/-- The code points of a text. -/
def codes (cs : List Char) : List Nat :=
  cs.map Char.toNat

variable {named : List Char → Option Nat}

theorem isPlain_cons_iff {c : Char} {rest : List Char} :
    isPlain (c :: rest) = true ↔
      ((c = '\\' ∧ rest.head?.any (!startsEscape ·) = true) ∨ c ∉ '\x00' :: special) ∧
        isPlain rest = true := by
  rw [isPlain, Bool.and_eq_true]
  by_cases hback : c = '\\'
  · simp [hback, special]
  · simp [hback]

/-! ### Escapes -/

/-- An escape, malformed or with at most one code point for at least one character behind the
backslash. -/
def Escape.Active : Escape → Prop
  | inert => False
  | malformed => True
  | codes values width => values.length ≤ 1 ∧ 1 ≤ width

theorem hexEscape_active (width : Nat) (rest : List Char) : (hexEscape width rest).Active := by
  unfold hexEscape
  dsimp only
  split
  · split
    · exact ⟨Nat.le_refl 1, Nat.le_add_left 1 width⟩
    · exact True.intro
  · exact True.intro

theorem octalEscape_active {c : Char} (hc : isOctal c = true) (rest : List Char) :
    (octalEscape (c :: rest)).Active := by
  unfold octalEscape
  dsimp only
  split
  · simp [Escape.Active, hc]
  · exact True.intro

theorem nameEscape_active (rest : List Char) : (nameEscape named rest).Active := by
  unfold nameEscape
  split
  · dsimp only
    split
    · split
      · exact ⟨Nat.le_refl 1, Nat.le_add_left 1 _⟩
      · exact True.intro
    · exact True.intro
  · exact True.intro

/-- A backslash with one of these characters behind it is an escape. -/
theorem escape_active {c : Char} (hc : startsEscape c = true) (rest : List Char) :
    (escape named (c :: rest)).Active := by
  generalize htext : c :: rest = text
  fun_cases escape named text with
  | case1 => cases htext
  | case2 | case3 => exact ⟨Nat.zero_le 1, by decide⟩
  | case4 d rest _ _ hoctal => exact octalEscape_active hoctal rest
  | case5 | case6 | case7 => exact hexEscape_active ..
  | case8 => exact nameEscape_active ..
  | case9 => exact ⟨Nat.le_refl 1, by decide⟩
  | case10 d rest =>
      obtain ⟨rfl, rfl⟩ := List.cons.inj htext
      simp_all [startsEscape]

theorem escape_inert {c : Char} (hc : startsEscape c = false) (rest : List Char) :
    escape named (c :: rest) = .inert := by
  simp only [startsEscape, Bool.or_eq_false_iff, decide_eq_false_iff_not, List.contains_eq_mem,
    List.mem_cons, List.not_mem_nil, or_false, not_or, Option.isSome_eq_false_iff,
    Option.isNone_iff_eq_none] at hc
  obtain ⟨⟨⟨⟨hfeed, hreturn⟩, hoctal⟩, hx, hu, hU, hN⟩, hletter⟩ := hc
  simp [escape, hfeed, hreturn, hoctal, hx, hu, hU, hN, hletter]

theorem escape_inert_iff {cs : List Char} :
    escape named cs = .inert ↔ cs.head?.any (!startsEscape ·) = true := by
  cases cs with
  | nil => simp [escape]
  | cons c rest =>
      cases hc : startsEscape c with
      | false => simp [escape_inert hc, hc]
      | true =>
          have active := @escape_active named c hc rest
          constructor
          · intro h
            rw [h] at active
            exact active.elim
          · intro h
            simp [hc] at h

theorem of_escape_codes {cs : List Char} {values : List Nat} {width : Nat}
    (h : escape named cs = .codes values width) : values.length ≤ 1 ∧ 1 ≤ width ∧
      1 ≤ cs.length := by
  cases cs with
  | nil => cases h
  | cons c rest =>
      cases hc : startsEscape c with
      | false =>
          rw [escape_inert hc] at h
          cases h
      | true =>
          have active := @escape_active named c hc rest
          rw [h] at active
          exact ⟨active.1, active.2, Nat.le_add_left 1 _⟩

/-! ### Code points -/

/-- Decoding makes no text longer. -/
theorem length_le_of_decode {cs : List Char} {values : List Nat}
    (h : decode named cs = some values) :
    values.length ≤ cs.length := by
  fun_induction decode named cs generalizing values with
  | case1 =>
      cases h
      exact Nat.le_refl 0
  | case2 rest _ ih | case6 c rest _ _ ih =>
      obtain ⟨others, hothers, rfl⟩ := Option.map_eq_some_iff.mp h
      exact Nat.succ_le_succ (ih hothers)
  | case3 | case5 => cases h
  | case4 rest first width hescape ih =>
      obtain ⟨others, hothers, rfl⟩ := Option.map_eq_some_iff.mp h
      have := ih hothers
      have := of_escape_codes hescape
      simp only [List.length_append, List.length_cons, List.length_drop] at *
      omega

/-- A plain text stands for itself. -/
theorem decode_plain {s : List Char} (hs : isPlain s = true) : decode named s = some (codes s) := by
  induction s with
  | nil =>
      rw [decode]
      rfl
  | cons c s ih =>
      rw [decode]
      obtain ⟨⟨hback, hhead⟩ | hc, hs⟩ := isPlain_cons_iff.mp hs
      · rw [if_pos hback, escape_inert_iff.mpr hhead, ih hs]
        rfl
      · rw [List.mem_cons, not_or] at hc
        have hback : c ≠ '\\' := fun h => hc.2 (h ▸ List.mem_cons_self)
        rw [if_neg hback, if_neg hc.1, ih hs]
        rfl

/-- If the first character of a text stands for itself, with the others behind it, then it is no NUL
and no backslash that starts an escape. -/
theorem decode_cons_own {c : Char} {s : List Char}
    (h : decode named (c :: s) = some (codes (c :: s))) :
    decode named s = some (codes s) ∧ c ≠ '\x00' ∧
      (c = '\\' → s.head?.any (!startsEscape ·) = true) := by
  have others {values : Option (List Nat)} (h : values.map (c.toNat :: ·) = some (codes (c :: s))) :
      values = some (codes s) := by
    obtain ⟨rest, hrest, heq⟩ := Option.map_eq_some_iff.mp h
    rw [hrest, (List.cons.inj heq).2]
    rfl
  rw [decode] at h
  split at h
  · next hback =>
      have hnul : c ≠ '\x00' := by
        rw [hback]
        decide
      split at h
      · next hinert => exact ⟨others h, hnul, fun _ => escape_inert_iff.mp hinert⟩
      · cases h
      · next values width hescape =>
          -- An escape has fewer code points than characters.
          obtain ⟨behind, hbehind, heq⟩ := Option.map_eq_some_iff.mp h
          have hlength := congrArg List.length heq
          have := length_le_of_decode hbehind
          have := of_escape_codes hescape
          simp only [codes, List.length_append, List.length_map, List.length_cons, List.length_drop]
            at *
          omega
  · next hback =>
      split at h
      · cases h
      · next hnul => exact ⟨others h, hnul, fun h => absurd h hback⟩

/-! ### Contents -/

/-- A character that stands for itself does so behind a backslash, too. -/
theorem content?_ordinary {d : Char} (hd : d ∉ special) (escaped : Bool) (rest : List Char) :
    content? escaped (d :: rest) = (content? false rest).map (Prod.map (d :: ·) id) := by
  simp only [special, List.mem_cons, List.not_mem_nil, or_false, not_or] at hd
  cases escaped with
  | false => simp [content?, hd]
  | true => simp [content?, hd]

theorem content?_inert {s : List Char} (hs : s.head?.any (!startsEscape ·) = true)
    (rest : List Char) :
    content? true (s ++ rest) = content? false (s ++ rest) := by
  cases s with
  | nil => cases hs
  | cons d s =>
      have hd : d ∉ special := by
        intro hmem
        have start : special.all startsEscape = true := by decide
        simp [List.all_eq_true.mp start d hmem] at hs
      rw [List.cons_append, content?_ordinary hd, content?_ordinary hd]

/-- A plain text ends at the first quote behind it. -/
theorem content?_plain {s : List Char} (hs : isPlain s = true) (rest : List Char) :
    content? false (s ++ '"' :: rest) = some (s, rest) := by
  induction s with
  | nil => rfl
  | cons c s ih =>
      obtain ⟨⟨rfl, hhead⟩ | hc, tail⟩ := isPlain_cons_iff.mp hs
      · show (content? true (s ++ '"' :: rest)).map _ = _
        rw [content?_inert hhead, ih tail]
        rfl
      · rw [List.cons_append, content?_ordinary fun h => hc (List.mem_cons_of_mem _ h), ih tail]
        rfl

/-- What the first character of a content is. -/
theorem content?_cons {c : Char} {text s behind : List Char}
    (h : content? false (c :: text) = some (c :: s, behind)) :
    (c = '\\' ∧ content? true text = some (s, behind)) ∨
      (c ∉ special ∧ content? false text = some (s, behind)) := by
  have tail {e : Bool} (h : (content? e text).map (Prod.map (c :: ·) id) = some (c :: s, behind)) :
      content? e text = some (s, behind) := by
    obtain ⟨⟨s', behind'⟩, hs, heq⟩ := Option.map_eq_some_iff.mp h
    cases heq
    exact hs
  rw [content?] at h
  split at h
  · cases h
  · next hquote =>
      split at h
      · cases h
      · next hline =>
          by_cases hback : c = '\\'
          · exact .inl ⟨hback, tail (by rwa [decide_eq_true hback] at h)⟩
          · refine .inr ⟨?_, tail (by rwa [decide_eq_false hback] at h)⟩
            simpa [special, hback, hquote] using hline

/-- Behind a text and a quote: the literal ends before the quote, at it, or somewhere in the rest.
-/
theorem content?_cases {s rest written behind : List Char} {escaped : Bool}
    (h : content? escaped (s ++ '"' :: rest) = some (written, behind)) :
    written.length < s.length ∨ (written = s ∧ behind = rest) ∨
      ∃ beyond, content? false rest = some (beyond, behind) := by
  induction s generalizing escaped written with
  | nil =>
      cases escaped with
      | false =>
          cases h
          exact .inr (.inl ⟨rfl, rfl⟩)
      | true =>
          obtain ⟨⟨beyond, _⟩, hbeyond, heq⟩ := Option.map_eq_some_iff.mp h
          cases heq
          exact .inr (.inr ⟨beyond, hbeyond⟩)
  | cons c s ih =>
      have step {e : Bool} (h : (content? e (s ++ '"' :: rest)).map (Prod.map (c :: ·) id) =
          some (written, behind)) : written.length < (c :: s).length ∨
          (written = c :: s ∧ behind = rest) ∨
            ∃ beyond, content? false rest = some (beyond, behind) := by
        obtain ⟨⟨tail, _⟩, htail, heq⟩ := Option.map_eq_some_iff.mp h
        cases heq
        rcases ih htail with hshort | ⟨rfl, rfl⟩ | hbeyond
        · exact .inl (Nat.succ_lt_succ hshort)
        · exact .inr (.inl ⟨rfl, rfl⟩)
        · exact .inr (.inr hbeyond)
      cases escaped with
      | true => exact step h
      | false =>
          rw [List.cons_append, content?] at h
          split at h
          · cases h
            exact .inl (Nat.succ_pos _)
          · split at h
            · cases h
            · exact step h

/-- A text that stands for itself between quotes is plain. -/
theorem isPlain_of_decode {s rest : List Char}
    (hcontent : content? false (s ++ '"' :: rest) = some (s, rest))
    (hdecode : decode named s = some (codes s)) : isPlain s = true := by
  induction s with
  | nil => rfl
  | cons c s ih =>
      obtain ⟨hothers, hnul, hback⟩ := decode_cons_own hdecode
      rw [isPlain_cons_iff]
      rw [List.cons_append] at hcontent
      rcases content?_cons hcontent with ⟨rfl, hs⟩ | ⟨hc, hs⟩
      · rw [content?_inert (hback rfl)] at hs
        exact ⟨.inl ⟨rfl, hback rfl⟩, ih hs hothers⟩
      · exact ⟨.inr (by simpa [hnul] using hc), ih hs hothers⟩

/-- In a line without quotes and backslashes no literal ends. -/
theorem content?_line {line : List Char} (hline : ∀ c ∈ line, c ≠ '"' ∧ c ≠ '\\')
    (rest : List Char) :
    content? false (line ++ '\n' :: rest) = none := by
  induction line with
  | nil => rfl
  | cons c line ih =>
      have hc := hline c List.mem_cons_self
      have tail := ih fun d hd => hline d (List.mem_cons_of_mem c hd)
      simp [content?, hc, tail]

/-! ### Literals -/

theorem head?_ne_quote {s : List Char} (hs : isPlain s = true) : s.head? ≠ some '"' := by
  rintro hhead
  obtain ⟨rest, rfl⟩ := List.head?_eq_some_iff.mp hhead
  cases hs

/-- A plain text is read back from its literal. -/
theorem read?_plain {s rest : List Char} (hs : isPlain s = true) (hrest : rest.head? ≠ some '"') :
    read? named ('"' :: (s ++ '"' :: rest)) = some (codes s, rest) := by
  have single : ['"', '"'].isPrefixOf (s ++ '"' :: rest) = false := by
    rw [Bool.eq_false_iff, Ne, List.isPrefixOf_iff_prefix]
    rintro ⟨tail, htail⟩
    cases s with
    | nil => exact hrest (by simp [(List.cons.inj htail).2.symm])
    | cons c s => exact head?_ne_quote hs (congrArg some (List.cons.inj htail).1.symm)
  simp [read?, single, content?_plain hs, decode_plain hs]

/-- Where a literal gives the text between its quotes, the text is plain or the literal is longer
than that. -/
theorem read?_own {s rest behind : List Char}
    (h : read? named ('"' :: (s ++ '"' :: rest)) = some (codes s, behind)) :
    (isPlain s = true ∧ behind = rest) ∨ ∃ beyond, content? false rest = some (beyond, behind) := by
  rw [read?] at h
  split at h
  · cases h
  · obtain ⟨⟨written, _⟩, hcontent, hvalue⟩ := Option.bind_eq_some_iff.mp h
    obtain ⟨values, hdecode, heq⟩ := Option.map_eq_some_iff.mp hvalue
    cases heq
    rcases content?_cases hcontent with hshort | ⟨rfl, rfl⟩ | hbeyond
    · have hlength := length_le_of_decode hdecode
      rw [codes, List.length_map] at hlength
      omega
    · exact .inl ⟨isPlain_of_decode hcontent hdecode, rfl⟩
    · exact .inr hbeyond

/-- A literal in front of a word gives the text between its quotes if and only if this is plain,
unless the word can also stand behind a longer literal. -/
theorem readBefore?_own_iff {word : String} {s rest behind : List Char}
    (hword : (word.toList ++ rest).head? ≠ some '"')
    (hbeyond : ∀ beyond tail, content? false (word.toList ++ rest) ≠
      some (beyond, word.toList ++ tail)) :
    readBefore? named word ('"' :: (s ++ '"' :: (word.toList ++ rest))) = some (codes s, behind) ↔
      isPlain s = true ∧ behind = rest := by
  constructor
  · intro h
    obtain ⟨⟨values, tail⟩, hread, hrest⟩ := Option.bind_eq_some_iff.mp h
    obtain ⟨_, htail, heq⟩ := Option.map_eq_some_iff.mp hrest
    cases heq
    rw [List.isPrefixOf?_eq_some_iff_append_eq] at htail
    subst htail
    rcases read?_own hread with ⟨hs, heq⟩ | ⟨beyond, hcontent⟩
    · exact ⟨hs, List.append_cancel_left heq⟩
    · exact absurd hcontent (hbeyond beyond behind)
  · rintro ⟨hs, rfl⟩
    have found : word.toList.isPrefixOf? (word.toList ++ behind) = some behind :=
      List.isPrefixOf?_eq_some_iff_append_eq.mpr rfl
    simp [readBefore?, read?_plain hs hword, found]

end Literal

open Literal
open Route (ofFile_of_extract)

/-! ### Words -/

theorem isPlain_of_isWord {cs : List Char} (h : IsWord cs) : isPlain cs = true := by
  induction cs with
  | nil => rfl
  | cons c cs ih =>
      have none : ('\x00' :: special).all (!Source.isWordChar ·) = true := by decide
      have hc : c ∉ '\x00' :: special := by
        intro hmem
        have hword := List.all_eq_true.mp none c hmem
        rw [h c List.mem_cons_self] at hword
        cases hword
      exact isPlain_cons_iff.mpr ⟨.inr hc, ih fun d hd => h d (List.mem_cons_of_mem c hd)⟩

namespace Handler

theorem isWord_nameFor {method : String} (h : IsWord method.toList) (count : Nat) :
    IsWord (nameFor method count).toList := by
  have name : IsWord (snake method).toList := by
    rw [snake, String.toList_ofList]
    exact h.snakeChars
  have base : IsWord ("handle_" ++ snake method).toList := by
    rw [String.toList_append]
    exact List.forall_mem_append.mpr ⟨isWord_of_all (by decide), name⟩
  unfold nameFor
  dsimp only
  split
  · have digits : IsWord ('_' :: Nat.toDigits 10 count) := by
      refine List.forall_mem_cons.mpr ⟨rfl, fun c hc => ?_⟩
      have hdigit : c.isDigit = true := Nat.isDigit_of_mem_toDigits (by decide) (by decide) hc
      simp [Source.isWordChar, Char.isAlphanum, hdigit]
    show IsWord ("handle_" ++ snake method ++ "_" ++ toString count).toList
    rw [toList_numbered]
    exact List.forall_mem_append.mpr ⟨base, digits⟩
  · exact base

theorem head?_nameFor (method : String) (count : Nat) :
    (nameFor method count).toList.head? = some 'h' := by
  unfold nameFor
  dsimp only
  split
  · show ("handle_" ++ snake method ++ "_" ++ toString count).toList.head? = _
    simp
  · simp

/-! ### Rows -/

/-- Reads a row of the table of routes. -/
def readRow? (named : List Char → Option Nat) (text : List Char) :
    Option (List Nat × List Nat × List Nat) := do
  let text ← "            (".toList.isPrefixOf? text
  let (verb, text) ← readBefore? named ", " text
  let (path, text) ← readBefore? named ", " text
  let (name, _) ← readBefore? named "),\n" text
  return (verb, path, name)

/-- Reads the key in a line that puts something into the request. -/
def readKey? (named : List Char → Option Nat) (text : List Char) : Option (List Nat) := do
  let text ← "        request[".toList.isPrefixOf? text
  let (key, _) ← readBefore? named "] = " text
  return key

variable {named : List Char → Option Nat}

theorem toList_row (h : Handler) :
    h.row.toList = "            (".toList ++ '"' :: (h.verb.toList ++ '"' :: (", ".toList ++ '"' ::
      (h.path.toList ++
        '"' :: (", ".toList ++ '"' :: (h.name.toList ++ '"' :: ("),\n".toList ++ [])))))) := by
  have opening : "            (\"".toList = "            (".toList ++ ['"'] := by decide
  have between : "\", \"".toList = '"' :: (", ".toList ++ ['"']) := by decide
  have closing : "\"),\n".toList = '"' :: ("),\n".toList ++ []) := by decide
  unfold row
  rw [String.toList_append, String.toList_append, String.toList_append, String.toList_append,
    String.toList_append, String.toList_append, opening, between, closing]
  simp only [List.append_assoc, List.cons_append, List.nil_append]

/-- Behind a longer literal there is no separator, but the text of the next literal. -/
theorem separator_beyond {next : List Char} (hnext : next.head? ≠ some ',')
    (beyond tail : List Char) :
    content? false (", ".toList ++ '"' :: next) ≠ some (beyond, ", ".toList ++ tail) := by
  intro h
  have heq : next = ", ".toList ++ tail := congrArg Prod.snd (Option.some.inj h)
  exact hnext (by rw [heq]; rfl)

/-- A row of the table is read back exactly if its verb and its path are plain. -/
theorem readRow?_row_iff {h : Handler} (hpath : h.path.toList.head? = some '/')
    (hname : h.name.toList.head? = some 'h') (hplain : isPlain h.name.toList = true) :
    readRow? named h.row.toList = some (codes h.verb.toList, codes h.path.toList,
      codes h.name.toList) ↔
      isPlain h.verb.toList = true ∧ isPlain h.path.toList = true := by
  have opening (text : List Char) :
      "            (".toList.isPrefixOf? ("            (".toList ++ text) = some text :=
    List.isPrefixOf?_eq_some_iff_append_eq.mpr rfl
  have verb (behind : List Char) := @readBefore?_own_iff named ", " h.verb.toList _ behind (by simp)
    (@separator_beyond (h.path.toList ++ '"' :: (", ".toList ++ '"' :: (h.name.toList ++ '"' ::
      ("),\n".toList ++ [])))) (by simp [hpath]))
  have path (behind : List Char) := @readBefore?_own_iff named ", " h.path.toList _ behind (by simp)
    (@separator_beyond (h.name.toList ++ '"' :: ("),\n".toList ++ [])) (by simp [hname]))
  have line : content? false ("),\n".toList ++ []) = none := by decide
  have name (behind : List Char) :=
    @readBefore?_own_iff named "),\n" h.name.toList [] behind (by simp)
    (fun beyond tail heq => nomatch line.symm.trans heq)
  rw [toList_row, readRow?, opening]
  simp only [Option.bind_eq_bind, Option.bind_some, Option.pure_def]
  constructor
  · intro hread
    obtain ⟨⟨v, text⟩, hverb, hread⟩ := Option.bind_eq_some_iff.mp hread
    obtain ⟨⟨p, text'⟩, hpath, hread⟩ := Option.bind_eq_some_iff.mp hread
    obtain ⟨⟨n, text''⟩, -, heq⟩ := Option.bind_eq_some_iff.mp hread
    cases heq
    obtain ⟨plain, rfl⟩ := (verb _).mp hverb
    exact ⟨plain, ((path _).mp hpath).1⟩
  · rintro ⟨hverb, hpath⟩
    rw [(verb _).mpr ⟨hverb, rfl⟩, Option.bind_some, (path _).mpr ⟨hpath, rfl⟩, Option.bind_some,
      (name _).mpr ⟨hplain, rfl⟩]
    rfl

/-! ### Bodies -/

theorem isWord_freeName {name : String} (h : IsWord name.toList) (taken : List String) (n : Nat) :
    IsWord (freeName taken n name).toList := by
  induction n generalizing name with
  | zero => exact h
  | succ n ih =>
      unfold freeName
      split
      · refine ih ?_
        rw [String.toList_append]
        exact List.forall_mem_append.mpr ⟨h, isWord_of_all (by decide)⟩
      · exact h

theorem toList_bodyLine (name field : String) :
    (bodyLine ⟨name, .field field⟩).toList = "        request[".toList ++
      '"' :: (field.toList ++ '"' ::
      ("] = ".toList ++ (name.toList ++ ['\n']))) := by
  have indented : "        request[".toList = "        ".toList ++ "request[".toList := by decide
  have opening : "request[\"".toList = "request[".toList ++ ['"'] := by decide
  have closing : "\"]".toList = ['"', ']'] := by decide
  have equals : "] = ".toList = ']' :: " = ".toList := by decide
  have newline : "\n".toList = ['\n'] := by decide
  unfold bodyLine requestKey
  rw [String.toList_append, String.toList_append, String.toList_append, String.toList_append,
    String.toList_append, String.toList_append, opening, closing, newline, indented, equals]
  simp only [List.append_assoc, List.cons_append, List.nil_append]

/-- No literal that starts in front of an assignment ends in it. -/
theorem assignment_beyond {name : String} (hname : IsWord name.toList) :
    content? false ("] = ".toList ++ (name.toList ++ ['\n'])) = none := by
  rw [← List.append_assoc]
  refine content?_line (fun c hc => ?_) []
  rcases List.mem_append.mp hc with hc | hc
  · have equals : "] = ".toList.all (fun c => c ≠ '"' && c ≠ '\\') = true := by decide
    simpa using List.all_eq_true.mp equals c hc
  · have hword := hname c hc
    constructor
    · rintro rfl
      cases hword
    · rintro rfl
      cases hword

/-- The key of a body field is read back exactly if it is plain. -/
theorem readKey?_bodyLine_iff {name field : String} (hname : IsWord name.toList) :
    readKey? named (bodyLine ⟨name, .field field⟩).toList = some (codes field.toList) ↔
      isPlain field.toList = true := by
  have opening (text : List Char) :
      "        request[".toList.isPrefixOf? ("        request[".toList ++ text) = some text :=
    List.isPrefixOf?_eq_some_iff_append_eq.mpr rfl
  have key (behind : List Char) := @readBefore?_own_iff named "] = " field.toList
    (name.toList ++ ['\n']) behind (by simp)
    (fun beyond tail heq => nomatch (assignment_beyond hname).symm.trans heq)
  rw [toList_bodyLine, readKey?, opening]
  simp only [Option.bind_eq_bind, Option.bind_some, Option.pure_def]
  constructor
  · intro hread
    obtain ⟨⟨value, text⟩, hkey, heq⟩ := Option.bind_eq_some_iff.mp hread
    cases heq
    exact ((key _).mp hkey).1
  · intro hfield
    rw [(key _).mpr ⟨hfield, rfl⟩]
    rfl

end Handler

/-- The methods that the routes of a file lead to are words. -/
theorem isWord_method {mode : Grammar.Mode} {text : String} {f : SchemaFile}
    {settings : ExtractorSettings} {routes : List Route} (hread : Grammar.parse mode text = .ok f)
    (hroutes : Route.ofFile settings f = .ok routes) {r : Route} (hr : r ∈ routes) :
    IsWord r.method.toList := by
  obtain ⟨s, hs, m, hm, b, hbuild⟩ := Route.exists_build_of_mem_ofFile hroutes hr
  obtain ⟨-, -, params, -, rfl⟩ := Route.build_eq_ok hbuild
  exact isWord_of_isIdent (((Grammar.parse_wellNamed hread).services s hs).methods m hm)

/-- **Literals mean the texts that they were made from if and only if these are plain.** For every
route of a file that was read, with its handler: the row in the table of routes reads back as the
verb, the path and the name of the handler if and only if verb and path are plain, and the key that
a body field is put under reads back as this field if and only if the field is plain. -/
theorem literals_read_back_iff_plain {mode : Grammar.Mode} {text : String} {f : SchemaFile}
    {settings : ExtractorSettings} {routes : List Route} (hread : Grammar.parse mode text = .ok f)
    (hroutes : Route.extract settings f = .ok routes) (s : Service)
    (named : List Char → Option Nat) :
    List.Forall₂ (fun r h =>
        (Handler.readRow? named h.row.toList =
            some (codes r.http.verb.toList, codes r.path.toList, codes h.name.toList) ↔
          isPlain r.http.verb.toList = true ∧ isPlain r.path.toList = true) ∧
        ∀ field, r.body = some (.field field) → ∃ b, h.bodyArg = some b ∧
          (Handler.readKey? named (Handler.bodyLine b).toList = some (codes field.toList) ↔
            isPlain field.toList = true))
      (routesOf s routes) (Controller.ofService s routes).handlers := by
  have hfile := ofFile_of_extract hroutes
  refine Handler.forall₂_ofRoutes (fun r hr count => ?_) []
  have hmem := (List.mem_filter.mp hr).1
  have hword := Handler.isWord_nameFor (isWord_method hread hfile hmem) count
  constructor
  · exact Handler.readRow?_row_iff (Template.head?_of_check (Route.built_of_ofFile hfile r hmem).1)
      (Handler.head?_nameFor r.method count) (isPlain_of_isWord hword)
  · intro field hfield
    have hbody : IsWord (safeName "body").toList := isWord_of_all (by decide)
    refine ⟨⟨_, .field field⟩, congrArg (Option.map _) hfield, ?_⟩
    exact Handler.readKey?_bodyLine_iff (Handler.isWord_freeName hbody _ _)

/-- A method with one rule. -/
def ruled (rule : String) : String :=
  "service S \x7b rpc M(A) returns (A) \x7b option (google.api.http) = \x7b " ++ rule ++
    " \x7d; \x7d \x7d"

/-- The backslash in this path starts no escape. -/
theorem literals_read_back_inert :
    ∃ f routes, Grammar.parse ⟨true, false⟩ (ruled "post: '/\\\\q' body: 'f'") = .ok f ∧
      Route.extract {} f = .ok routes ∧ ∃ s ∈ f.services, ∃ h b,
        (routesOf s routes).map (·.path) = ["/\\q"] ∧
        (Controller.ofService s routes).handlers = [h] ∧ h.bodyArg = some b ∧
        Handler.readRow? (fun _ => none) h.row.toList =
          some (codes "POST".toList, codes "/\\q".toList, codes h.name.toList) ∧
        Handler.readKey? (fun _ => none) (Handler.bodyLine b).toList = some (codes "f".toList) := by
  obtain ⟨f, routes, hread, hroutes, s, hs, htest⟩ :=
    @Grammar.exists_service_of_toOption _ _ _ ⟨true, false⟩
    (ruled "post: '/\\\\q' body: 'f'") (Route.extract {})
    (fun s routes => decide ((routesOf s routes).map (fun r => (r.http.verb, r.path, r.body)) =
      [("POST", "/\\q", some (RequestBody.field "f"))])) true (by decide +kernel)
  obtain ⟨r, hone, hr⟩ := List.map_eq_singleton_iff.mp (of_decide_eq_true htest)
  obtain ⟨hverb, hpath, hbody⟩ : r.http.verb = "POST" ∧ r.path = "/\\q" ∧
    r.body = some (.field "f") := by
    simpa only [Prod.mk.injEq] using hr
  have hall := literals_read_back_iff_plain hread hroutes s fun _ => none
  rw [hone, List.forall₂_cons_left_iff] at hall
  obtain ⟨h, others, ⟨hrow, hkey⟩, hothers, hhandlers⟩ := hall
  rw [List.forall₂_nil_left_iff] at hothers
  obtain ⟨b, hb, hfield⟩ := hkey "f" hbody
  rw [hverb, hpath] at hrow
  exact ⟨f, routes, hread, hroutes, s, hs, h, b, by rw [hone, List.map_singleton, hpath],
    hothers ▸ hhandlers, hb, hrow.mpr (by decide), hfield.mpr (by decide)⟩

/-- The routes pass every check, and a path with a quote in it is not read back from its row. -/
theorem literals_misread_quote :
    ∃ f routes, Grammar.parse ⟨true, false⟩ (ruled "get: '/a\"b'") = .ok f ∧
      Route.extract {} f = .ok routes ∧ ∃ s ∈ f.services,
        ∃ h ∈ (Controller.ofService s routes).handlers,
        h.path = "/a\"b" ∧ ∀ named, Handler.readRow? named h.row.toList ≠
          some (codes h.verb.toList, codes h.path.toList, codes h.name.toList) := by
  obtain ⟨f, routes, hread, hroutes, s, hs, hhandler⟩ := @Grammar.exists_service_of_toOption _ _ _
    ⟨true, false⟩ (ruled "get: '/a\"b'") (Route.extract {})
    (fun s routes => (Controller.ofService s routes).handlers.map fun h => (h.path, h.name))
    [("/a\"b", "handle_m")] (by decide +kernel)
  obtain ⟨h, hone, hh⟩ := List.map_eq_singleton_iff.mp hhandler
  obtain ⟨hpath, hname⟩ := Prod.mk.inj hh
  refine ⟨f, routes, hread, hroutes, s, hs, h, hone ▸ List.mem_singleton_self h, hpath,
    fun named hrow => ?_⟩
  have plain := (Handler.readRow?_row_iff (by rw [hpath]; decide) (by rw [hname]; decide)
    (by rw [hname]; decide)).mp hrow
  rw [hpath] at plain
  exact absurd plain.2 (by decide)

end ProtoRoutes.Scaffold
