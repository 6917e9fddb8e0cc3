import Mathlib.Data.List.Chain
import ProtoRoutes.Proofs.Scaffold.Stems
import ProtoRoutes.Proofs.Text.Ascii

/-!
# ProtoRoutes.Proofs.Scaffold.SnakeCase

Snake case in one pass. `snake` goes over a name several times: it splits acronyms, then words, then
collapses underscores. Here the same is said by positions: an underscore belongs behind each
position where a word ends (`endsWord`), and an underscore goes if another one is behind it.

The second split sees the result of the first. This makes no difference, because the first one puts
its underscores in front of capitals and behind capitals, and the second looks for a capital behind
something that is none.
-/

namespace ProtoRoutes.Scaffold

open Text (not_small_of_isUpper toLower_ascii toLower_of_not_isUpper lowerFrom_ascii)

/-! ### By positions -/

/-- Whether a word ends at a position: at a capital in front of a capital that a small letter
follows, and at a small letter or digit in front of a capital. -/
def endsWord (cs : List Char) (i : Nat) : Bool :=
  cs[i]?.any Char.isUpper && cs[i + 1]?.any Char.isUpper && cs[i + 2]?.any Char.isLower ||
    cs[i]?.any (fun c => c.isLower || c.isDigit) && cs[i + 1]?.any Char.isUpper

/-- A text with an underscore behind each position where a word ends. -/
def separated (cs : List Char) : List Char :=
  (cs.mapIdx fun i c => if endsWord cs i then [c, '_'] else [c]).flatten

/-- A text without the underscores that another one follows, so that one of each run is left. -/
def singled (cs : List Char) : List Char :=
  (cs.mapIdx fun i c => if c = '_' ∧ cs[i + 1]? = some '_' then [] else [c]).flatten

/-- Dashes and dots become underscores. -/
def underscored (cs : List Char) : List Char :=
  cs.map fun c => if c = '-' ∨ c = '.' then '_' else c

/-- A separator stands behind a character that ends a word. -/
theorem separated_cons (c : Char) (cs : List Char) :
    separated (c :: cs) = (if endsWord (c :: cs) 0 then [c, '_'] else [c]) ++ separated cs := by
  simp [separated, List.mapIdx_cons, endsWord]

theorem singled_cons (c : Char) (cs : List Char) :
    singled (c :: cs) = (if c = '_' ∧ cs.head? = some '_' then [] else [c]) ++ singled cs := by
  simp [singled, List.mapIdx_cons, List.head?_eq_getElem?]

/-! ### The two splits -/

theorem endsWord_of_not_isUpper {c : Char} (h : c.isUpper = false) (cs : List Char) :
    endsWord (c :: cs) 0 = ((c.isLower || c.isDigit) && cs.head?.any Char.isUpper) := by
  simp [endsWord, h, List.head?_eq_getElem?]

theorem endsWord_of_isUpper {c : Char} (h : c.isUpper = true) (cs : List Char) :
    endsWord (c :: cs) 0 = (cs.head?.any Char.isUpper && cs.tail.head?.any Char.isLower) := by
  simp [endsWord, h, not_small_of_isUpper h, List.head?_eq_getElem?]

/-- A split between words takes two characters at a time. The second is a capital, behind which no
word ends. -/
theorem splitWords_cons (c : Char) (cs : List Char) :
    splitWords (c :: cs) =
      (if (c.isLower || c.isDigit) && cs.head?.any Char.isUpper then [c, '_'] else [c]) ++
        splitWords cs := by
  cases cs with
  | nil => simp [splitWords]
  | cons d rest =>
      rw [splitWords]
      by_cases hsplit : ((isSmall c || c.isDigit) && isCapital d) = true
      · have here : ((c.isLower || c.isDigit) && (d :: rest).head?.any Char.isUpper) = true :=
          hsplit
        have capital := not_small_of_isUpper (Bool.and_eq_true_iff.mp hsplit).2
        have behind : splitWords (d :: rest) = d :: splitWords rest := by
          cases rest with
          | nil => simp [splitWords]
          | cons e rest => simp [splitWords, isSmall, capital]
        rw [if_pos hsplit, if_pos here, behind]
        rfl
      · have here : ¬ ((c.isLower || c.isDigit) && (d :: rest).head?.any Char.isUpper) = true :=
          hsplit
        rw [if_neg hsplit, if_neg here]
        rfl

theorem splitWords_append {front : List Char} (h : ∀ c ∈ front, (c.isLower || c.isDigit) = false)
    (cs : List Char) : splitWords (front ++ cs) = front ++ splitWords cs := by
  induction front with
  | nil => rfl
  | cons c front ih =>
      obtain ⟨hc, hfront⟩ := List.forall_mem_cons.mp h
      rw [List.cons_append, splitWords_cons, ih hfront, hc]
      rfl

theorem splitRun_cons_cons (c d : Char) (run : List Char) (follows : Bool) :
    splitRun (c :: d :: run) follows =
      if run = [] ∧ follows = true then [c, '_', d] else c :: splitRun (d :: run) follows := by
  cases run with
  | nil => cases follows <;> simp [splitRun]
  | cons e run => cases follows <;> simp [splitRun]

/-- A run of capitals. A word can end only behind its last capital but one. -/
theorem separated_run {run : List Char} (hrun : ∀ c ∈ run, c.isUpper = true) {behind : List Char}
    (hbehind : behind.head?.any Char.isUpper = false) :
    separated (run ++ behind) = splitRun run (behind.head?.any Char.isLower) ++
      separated behind := by
  induction run with
  | nil => simp [splitRun]
  | cons c run ih =>
      obtain ⟨hc, hrest⟩ := List.forall_mem_cons.mp hrun
      rw [List.cons_append, separated_cons, endsWord_of_isUpper hc, ih hrest]
      cases run with
      | nil => simp [hbehind, splitRun]
      | cons d run =>
          rw [splitRun_cons_cons]
          cases run with
          | nil =>
              have hd : d.isUpper = true := hrest d List.mem_cons_self
              cases hfollows : behind.head?.any Char.isLower <;> simp [hd, hfollows, splitRun]
          | cons e run =>
              have he : e.isUpper = true := hrest e (by simp)
              have large := (Bool.or_eq_false_iff.mp (not_small_of_isUpper he)).1
              simp [large]

theorem head?_splitAcronyms (cs : List Char) : (splitAcronyms cs).head? = cs.head? := by
  fun_cases splitAcronyms cs with
  | case1 => rfl
  | case2 c rest hcapital =>
      cases hrun : rest.takeWhile isCapital with
      | nil => simp [splitRun]
      | cons d run =>
          rw [splitRun_cons_cons]
          split <;> rfl
  | case3 c rest hcapital => rfl

/-- **Both splits at once.** -/
theorem splitWords_splitAcronyms (cs : List Char) :
    splitWords (splitAcronyms cs) = separated cs := by
  fun_induction splitAcronyms cs with
  | case1 => rfl
  | case2 c rest hcapital behind ih =>
      have capitals : ∀ d ∈ c :: rest.takeWhile isCapital, d.isUpper = true :=
        List.forall_mem_cons.mpr ⟨hcapital, List.all_eq_true.mp List.all_takeWhile⟩
      have plain : ∀ d ∈ splitRun (c :: rest.takeWhile isCapital) (behind.head?.any isSmall),
          (d.isLower || d.isDigit) = false := by
        intro d hd
        rcases mem_splitRun hd with rfl | hd
        · rfl
        · exact not_small_of_isUpper (capitals d hd)
      have stops : behind.head?.any Char.isUpper = false := by
        cases hhead : behind.head? with
        | none => rfl
        | some d =>
            have := List.head?_dropWhile_not isCapital rest
            simpa [behind, hhead, isCapital] using this
      rw [splitWords_append plain, ih]
      have whole : c :: rest = c :: rest.takeWhile isCapital ++ behind := by
        rw [List.cons_append, List.takeWhile_append_dropWhile]
      rw [whole]
      exact (separated_run capitals stops).symm
  | case3 c rest hcapital ih =>
      have small : c.isUpper = false := by simpa [isCapital] using hcapital
      rw [splitWords_cons, head?_splitAcronyms, ih, separated_cons, endsWord_of_not_isUpper small]

/-! ### Runs of underscores -/

/-- Collapsing keeps the last one of each row of underscores. -/
theorem collapse_eq_singled (cs : List Char) : collapse cs = singled cs := by
  fun_induction collapse cs with
  | case1 => rfl
  | case2 c => simp [singled]
  | case3 c d rest hdouble ih =>
      have both : c = '_' ∧ d = '_' := by simpa using hdouble
      rw [ih, singled_cons c, if_pos ⟨both.1, by rw [both.2]; rfl⟩, List.nil_append]
  | case4 c d rest hsingle ih =>
      have apart : ¬ (c = '_' ∧ (d :: rest).head? = some '_') := by simpa using hsingle
      rw [ih, singled_cons c, if_neg apart, List.singleton_append]

/-- Two underscores do not stand side by side. -/
def Apart (a b : Char) : Prop :=
  ¬ (a = '_' ∧ b = '_')

/-- The first character stays the first, or is an underscore like the next one. -/
theorem head?_singled (cs : List Char) : (singled cs).head? = cs.head? := by
  induction cs with
  | nil => rfl
  | cons c cs ih =>
      rw [singled_cons]
      split
      · next hdouble => rw [List.nil_append, ih, hdouble.1, hdouble.2, List.head?_cons]
      · rfl

theorem isChain_singled (cs : List Char) : (singled cs).IsChain Apart := by
  induction cs with
  | nil => exact .nil
  | cons c cs ih =>
      rw [singled_cons]
      split
      · exact ih
      · next hsingle =>
          refine List.isChain_cons.mpr ⟨fun d hd hdouble => hsingle ⟨hdouble.1, ?_⟩, ih⟩
          rw [← head?_singled, ← hdouble.2]
          exact hd

theorem singled_of_isChain {cs : List Char} (h : cs.IsChain Apart) : singled cs = cs := by
  induction cs with
  | nil => rfl
  | cons c cs ih =>
      obtain ⟨hhead, hrest⟩ := List.isChain_cons.mp h
      rw [singled_cons, if_neg fun hdouble => hhead '_' hdouble.2 ⟨hdouble.1, rfl⟩, ih hrest,
        List.singleton_append]

/-! ### Names in snake case -/

theorem replaceChar_replaceChar (cs : List Char) :
    Text.replaceChar '.' '_' (Text.replaceChar '-' '_' cs) = underscored cs := by
  simp only [Text.replaceChar, underscored, List.map_map]
  refine List.map_congr_left fun c _ => ?_
  by_cases hdash : c = '-'
  · simp [hdash]
  · by_cases hdot : c = '.' <;> simp [hdash, hdot]

/-- The characters of a text between the two splits and lower case: those of the text, and
underscores. -/
theorem mem_singled_separated {cs : List Char} {c : Char} (h : c ∈ singled (separated cs)) :
    c = '_' ∨ c ∈ cs := by
  rw [← collapse_eq_singled, ← splitWords_splitAcronyms] at h
  rcases mem_splitWords (mem_collapse h) with h | h
  · exact .inl h
  · exact mem_splitAcronyms h

theorem mem_underscored {cs : List Char} {c : Char} (h : c ∈ underscored cs) :
    c = '_' ∨ c ∈ cs ∧ c ≠ '-' ∧ c ≠ '.' := by
  obtain ⟨d, hd, rfl⟩ := List.mem_map.mp h
  split
  · exact .inl rfl
  · next hplain => exact .inr ⟨hd, not_or.mp hplain⟩

/-- What becomes of a name in front of lower case. -/
theorem mem_words {cs : List Char} {c : Char} (h : c ∈ singled (separated (underscored cs))) :
    c = '_' ∨ c ∈ cs ∧ c ≠ '-' ∧ c ≠ '.' := by
  rcases mem_singled_separated h with h | h
  · exact .inl h
  · exact mem_underscored h

theorem snakeChars_eq {cs : List Char} (h : ∀ c ∈ cs, c.toNat < 128) :
    snakeChars cs = (singled (separated (underscored cs))).map Char.toLower := by
  unfold snakeChars Text.lower
  rw [replaceChar_replaceChar, splitWords_splitAcronyms, collapse_eq_singled]
  refine lowerFrom_ascii (fun c hc => ?_) []
  rcases mem_words hc with rfl | hc
  · decide
  · exact h c hc.1

/-- A text in snake case. -/
structure IsSnake (cs : List Char) : Prop where
  ascii : ∀ c ∈ cs, c.toNat < 128
  lower : ∀ c ∈ cs, c.isUpper = false
  unbroken : ∀ c ∈ cs, c ≠ '-' ∧ c ≠ '.'
  apart : cs.IsChain Apart

/-- The result is in snake case. -/
theorem isSnake_snakeChars {cs : List Char} (h : ∀ c ∈ cs, c.toNat < 128) :
    IsSnake (snakeChars cs) := by
  have ascii : ∀ c ∈ singled (separated (underscored cs)), c.toNat < 128 := by
    intro c hc
    rcases mem_words hc with rfl | hc
    · decide
    · exact h c hc.1
  rw [snakeChars_eq h]
  refine ⟨?_, ?_, ?_, ?_⟩
  · intro c hc
    obtain ⟨d, hd, rfl⟩ := List.mem_map.mp hc
    exact (toLower_ascii (ascii d hd)).1
  · intro c hc
    obtain ⟨d, hd, rfl⟩ := List.mem_map.mp hc
    exact (toLower_ascii (ascii d hd)).2.1
  · intro c hc
    obtain ⟨d, hd, rfl⟩ := List.mem_map.mp hc
    obtain ⟨-, -, -, hdash, hdot⟩ := toLower_ascii (ascii d hd)
    rcases mem_words hd with rfl | ⟨-, noDash, noDot⟩
    · decide
    · exact ⟨mt hdash noDash, mt hdot noDot⟩
  · rw [List.isChain_map]
    refine (isChain_singled _).imp_of_mem_imp fun a b ha hb happart hdouble => happart ⟨?_, ?_⟩
    · exact (toLower_ascii (ascii a ha)).2.2.1 hdouble.1
    · exact (toLower_ascii (ascii b hb)).2.2.1 hdouble.2

theorem separated_of_lower {cs : List Char} (h : ∀ c ∈ cs, c.isUpper = false) :
    separated cs = cs := by
  induction cs with
  | nil => rfl
  | cons c cs ih =>
      obtain ⟨hc, hcs⟩ := List.forall_mem_cons.mp h
      have hnext : cs.head?.any Char.isUpper = false := by
        cases cs with
        | nil => rfl
        | cons d cs => exact hcs d List.mem_cons_self
      rw [separated_cons, endsWord_of_not_isUpper hc, hnext, Bool.and_false, ih hcs]
      rfl

/-- A text in snake case stays as it is. -/
theorem IsSnake.snakeChars {cs : List Char} (h : IsSnake cs) : snakeChars cs = cs := by
  have whole : underscored cs = cs := by
    refine (List.map_congr_left fun c hc => ?_).trans (List.map_id cs)
    exact if_neg (not_or.mpr (h.unbroken c hc))
  rw [snakeChars_eq h.ascii, whole, separated_of_lower h.lower, singled_of_isChain h.apart]
  refine (List.map_congr_left fun c hc => ?_).trans (List.map_id cs)
  exact toLower_of_not_isUpper (h.lower c hc)

/-- **Snake case is made in one pass.** A name in ASCII becomes snake case if dashes and dots become
underscores, an underscore is put behind each position where a word ends, one underscore of each run
is left, and capitals become small. So there is no capital, dash or dot in the result, nor two
underscores side by side, and it is the snake case of itself. -/
theorem snake_eq_one_pass {name : String} (hascii : ∀ c ∈ name.toList, c.toNat < 128) :
    (snake name).toList = (singled (separated (underscored name.toList))).map Char.toLower ∧
      (∀ c ∈ (snake name).toList, c.isUpper = false ∧ c ≠ '-' ∧ c ≠ '.') ∧
      ¬ ['_', '_'] <:+: (snake name).toList ∧
      snake (snake name) = snake name := by
  have made : (snake name).toList = snakeChars name.toList := String.toList_ofList
  have isSnake := isSnake_snakeChars hascii
  refine ⟨?_, ?_, ?_, ?_⟩
  · rw [made, snakeChars_eq hascii]
  · rw [made]
    exact fun c hc => ⟨isSnake.lower c hc, isSnake.unbroken c hc⟩
  · rw [made]
    rintro ⟨front, back, hwhole⟩
    rw [List.append_assoc] at hwhole
    exact List.isChain_iff_forall_rel_of_append_cons_cons.mp isSnake.apart hwhole.symm ⟨rfl, rfl⟩
  · rw [snake, made, isSnake.snakeChars, snake]

/-- Acronyms, digits, dashes and underscores at once. -/
theorem snake_eq_one_pass_mixed :
    snake "get-HTTP2Info__XMLa.B" = "get_http2_info_xm_la_b" ∧
      snake (snake "get-HTTP2Info__XMLa.B") = "get_http2_info_xm_la_b" := by
  have made : snake "get-HTTP2Info__XMLa.B" = "get_http2_info_xm_la_b" := by decide +kernel
  have ascii : ("get-HTTP2Info__XMLa.B".toList.all fun c => decide (c.toNat < 128)) = true := by
    decide
  obtain ⟨-, -, -, again⟩ :=
    @snake_eq_one_pass "get-HTTP2Info__XMLa.B" fun c hc =>
      of_decide_eq_true (List.all_eq_true.mp ascii c hc)
  exact ⟨made, again.trans made⟩

end ProtoRoutes.Scaffold
