import ProtoRoutes.Proofs.Files.Writing
import ProtoRoutes.Proofs.Scaffold.Claims
import ProtoRoutes.Proofs.Source.Spelling

/-!
# ProtoRoutes.Proofs.Scaffold.Stems

Stems and the files that are named for them. Different stems give different file names, since an
interface and a controller end differently. And the stem of a word has no slash in it, so its files
lie directly in the directory that they are written to.
-/

namespace ProtoRoutes.Scaffold

open Files (IsName)
open Source (isWordChar)

/-- The names of the files that are written for a service. -/
def fileNamesOf (settings : GeneratorSettings) (s : Service) : List String :=
  (if settings.generateServiceInterfaces then [stem s.name ++ "_service.py"] else []) ++
    (if settings.generateControllers then [stem s.name ++ "_controller.py"] else [])

theorem map_fileName_modulesOf (settings : GeneratorSettings) (source : String)
    (routes : List Route) (s : Service) : (modulesOf settings source routes s).map Module.fileName =
      fileNamesOf settings s := by
  unfold modulesOf fileNamesOf
  simp only [List.map_append]
  congr 1
  · split <;> rfl
  · split <;> rfl

/-- A service has two file names at most. -/
theorem mem_fileNamesOf {settings : GeneratorSettings} {s : Service} {name : String}
    (h : name ∈ fileNamesOf settings s) :
    name = stem s.name ++ "_service.py" ∨ name = stem s.name ++ "_controller.py" := by
  unfold fileNamesOf at h
  rcases List.mem_append.mp h with h | h
  · split at h
    · exact .inl (List.mem_singleton.mp h)
    · cases h
  · split at h
    · exact .inr (List.mem_singleton.mp h)
    · cases h

/-- Services and controllers have different endings, so their files are different ones. -/
theorem service_ne_controller (a b : String) : a ++ "_service.py" ≠ b ++ "_controller.py" := by
  intro h
  have backwards := congrArg (fun s : String => s.toList.reverse) h
  simp at backwards

/-- Services with different stems have different files. -/
theorem nodup_fileNames {settings : GeneratorSettings} {services : List Service}
    (h : (services.map (stem ·.name)).Nodup) : (services.flatMap (fileNamesOf settings)).Nodup := by
  refine List.nodup_flatMap.mpr ⟨fun s _ => ?_, ?_⟩
  · unfold fileNamesOf
    have hdiffer := service_ne_controller (stem s.name) (stem s.name)
    split <;> split <;> simp [hdiffer]
  · rw [List.nodup_iff_pairwise_ne, List.pairwise_map] at h
    refine h.imp fun {a b} hstems name ha hb => ?_
    rcases mem_fileNamesOf ha with rfl | rfl
    · rcases mem_fileNamesOf hb with heq | heq
      · exact hstems ((String.append_left_inj _).mp heq)
      · exact service_ne_controller _ _ heq
    · rcases mem_fileNamesOf hb with heq | heq
      · exact service_ne_controller _ _ heq.symm
      · exact hstems ((String.append_left_inj _).mp heq)

/-! ### Stems of words -/

/-- Letters, digits and underscores. -/
def IsWord (cs : List Char) : Prop :=
  ∀ c ∈ cs, isWordChar c = true

theorem isWord_of_all {cs : List Char} (h : cs.all isWordChar = true) : IsWord cs :=
  List.all_eq_true.mp h

theorem isWord_of_isIdent {name : String} (h : Source.isIdent name = true) :
    IsWord name.toList := by
  unfold Source.isIdent at h
  split at h
  · cases h
  · next c cs htext =>
      obtain ⟨hc, hcs⟩ := Bool.and_eq_true_iff.mp h
      rw [htext]
      refine List.forall_mem_cons.mpr ⟨?_, List.all_eq_true.mp hcs⟩
      simp only [Source.isWordStart, isWordChar, Char.isAlphanum, Bool.or_eq_true] at hc ⊢
      exact hc.imp_left .inl

theorem IsWord.replaceChar {cs : List Char} (h : IsWord cs) (old : Char) :
    IsWord (Text.replaceChar old '_' cs) := by
  intro c hc
  obtain ⟨d, hd, rfl⟩ := List.mem_map.mp hc
  split
  · rfl
  · exact h d hd

theorem mem_splitRun {run : List Char} {follows : Bool} {c : Char} (h : c ∈ splitRun run follows) :
    c = '_' ∨ c ∈ run := by
  unfold splitRun at h
  split at h
  · rcases List.mem_append.mp h with h | h
    · exact .inr (List.dropLast_subset run h)
    · rcases List.mem_cons.mp h with h | h
      · exact .inl h
      · exact .inr (List.mem_of_getLast? (by simpa using h))
  · exact .inr h

theorem mem_splitAcronyms {cs : List Char} {c : Char} (h : c ∈ splitAcronyms cs) :
    c = '_' ∨ c ∈ cs := by
  fun_induction splitAcronyms cs with
  | case1 => exact .inr h
  | case2 d rest hcapital behind ih =>
      rcases List.mem_append.mp h with h | h
      · rcases mem_splitRun h with h | h
        · exact .inl h
        · rcases List.mem_cons.mp h with rfl | h
          · exact .inr List.mem_cons_self
          · exact .inr (List.mem_cons_of_mem d ((List.takeWhile_prefix _).subset h))
      · rcases ih h with h | h
        · exact .inl h
        · exact .inr (List.mem_cons_of_mem d ((List.dropWhile_suffix _).subset h))
  | case3 d rest hcapital ih =>
      rcases List.mem_cons.mp h with rfl | h
      · exact .inr List.mem_cons_self
      · exact (ih h).imp_right (List.mem_cons_of_mem d)

theorem mem_splitWords {cs : List Char} {c : Char} (h : c ∈ splitWords cs) : c = '_' ∨ c ∈ cs := by
  fun_induction splitWords cs with
  | case1 => exact .inr h
  | case2 d => exact .inr h
  | case3 d e rest hsplit ih =>
      simp only [List.mem_cons] at h ⊢
      rcases h with h | h | h | h
      · exact .inr (.inl h)
      · exact .inl h
      · exact .inr (.inr (.inl h))
      · exact (ih h).imp_right fun h => .inr (.inr h)
  | case4 d e rest hsplit ih =>
      rcases List.mem_cons.mp h with rfl | h
      · exact .inr List.mem_cons_self
      · exact (ih h).imp_right (List.mem_cons_of_mem d)

theorem mem_collapse {cs : List Char} {c : Char} (h : c ∈ collapse cs) : c ∈ cs := by
  fun_induction collapse cs with
  | case1 => exact h
  | case2 d => exact h
  | case3 d e rest hdouble ih => exact List.mem_cons_of_mem d (ih h)
  | case4 d e rest hdouble ih =>
      rcases List.mem_cons.mp h with rfl | h
      · exact List.mem_cons_self
      · exact List.mem_cons_of_mem d (ih h)

theorem isWordChar_ranges {c : Char} (h : isWordChar c = true) :
    (65 ≤ c.val.toNat ∧ c.val.toNat ≤ 90) ∨ (97 ≤ c.val.toNat ∧ c.val.toNat ≤ 122) ∨
      (48 ≤ c.val.toNat ∧ c.val.toNat ≤ 57) ∨ c = '_' := by
  rcases Bool.or_eq_true_iff.mp h with h | h
  · rcases Bool.or_eq_true_iff.mp (show (c.isAlpha || c.isDigit) = true from h) with h | h
    · rcases Bool.or_eq_true_iff.mp (show (c.isUpper || c.isLower) = true from h) with h | h
      · exact .inl (of_decide_eq_true h)
      · obtain ⟨low, high⟩ := Bool.and_eq_true_iff.mp h
        exact .inr (.inl ⟨of_decide_eq_true low, of_decide_eq_true high⟩)
    · obtain ⟨low, high⟩ := Bool.and_eq_true_iff.mp h
      exact .inr (.inr (.inl ⟨of_decide_eq_true low, of_decide_eq_true high⟩))
  · exact .inr (.inr (.inr (of_decide_eq_true h)))

theorem toNat_lt_of_isWordChar {c : Char} (h : isWordChar c = true) : c.toNat < 0x80 := by
  show c.val.toNat < 128
  rcases isWordChar_ranges h with h | h | h | rfl
  · omega
  · omega
  · omega
  · decide

theorem isWordChar_of_isLower {c : Char} (h : c.isLower = true) : isWordChar c = true := by
  refine Bool.or_eq_true_iff.mpr (.inl ?_)
  refine Bool.or_eq_true_iff.mpr (.inl ?_)
  exact Bool.or_eq_true_iff.mpr (.inr h)

theorem isWordChar_toLower {c : Char} (h : isWordChar c = true) : isWordChar c.toLower = true := by
  unfold Char.toLower
  split
  · next hupper =>
      have hlow : 65 ≤ c.val.toNat := UInt32.le_iff_toNat_le.mp hupper.1
      have hhigh : c.val.toNat ≤ 90 := UInt32.le_iff_toNat_le.mp hupper.2
      have hval : (c.val + ('a'.val - 'A'.val)).toNat = c.val.toNat + 32 := by
        rw [UInt32.toNat_add]
        exact Nat.mod_eq_of_lt (show c.val.toNat + 32 < _ by omega)
      refine isWordChar_of_isLower (Bool.and_eq_true_iff.mpr ⟨?_, ?_⟩)
      · refine decide_eq_true (UInt32.le_iff_toNat_le.mpr ?_)
        show 97 ≤ (c.val + ('a'.val - 'A'.val)).toNat
        omega
      · refine decide_eq_true (UInt32.le_iff_toNat_le.mpr ?_)
        show (c.val + ('a'.val - 'A'.val)).toNat ≤ 122
        omega
  · exact h

theorem IsWord.lowerFrom {cs : List Char} (h : IsWord cs) (before : List Char) :
    IsWord (Text.lowerFrom before cs) := by
  induction cs generalizing before with
  | nil => exact h
  | cons c cs ih =>
      have hc := h c List.mem_cons_self
      unfold Text.lowerFrom Text.lowerChar
      rw [if_pos (toNat_lt_of_isWordChar hc)]
      refine List.forall_mem_cons.mpr ⟨isWordChar_toLower hc, ?_⟩
      exact ih (fun d hd => h d (List.mem_cons_of_mem c hd)) _

/-- The stem of a word is a word. -/
theorem IsWord.snakeChars {cs : List Char} (h : IsWord cs) : IsWord (snakeChars cs) := by
  refine IsWord.lowerFrom (fun c hc => ?_) []
  rcases mem_splitWords (mem_collapse hc) with rfl | hc
  · rfl
  · rcases mem_splitAcronyms hc with rfl | hc
    · rfl
    · exact (h.replaceChar '-').replaceChar '.' c hc

theorem IsWord.slash_notMem {cs : List Char} (h : IsWord cs) : '/' ∉ cs :=
  fun hslash => nomatch h '/' hslash

/-- The stem of a word has no slash. -/
theorem slash_notMem_stem {name : String} (h : IsWord name.toList) : '/' ∉ (stem name).toList := by
  have part : IsWord (name.toList.take (name.toList.length - "Service".toList.length)) :=
    fun c hc => h c (List.mem_of_mem_take hc)
  unfold stem snake
  simp only
  split
  · rw [String.toList_ofList]
    exact part.snakeChars.slash_notMem
  · rw [String.toList_ofList]
    exact h.snakeChars.slash_notMem

/-- A text without a slash can be used as a name with an ending that is longer than two characters.
-/
theorem isName_append {text ending : String} (htext : '/' ∉ text.toList)
    (hending : '/' ∉ ending.toList) (hlong : 2 < ending.length) : IsName (text ++ ending) ∧
      Files.Tree.IsPlain (text ++ ending) := by
  have long : 2 < (text ++ ending).length := by
    rw [String.length_append]
    omega
  have differs {short : String} (hshort : short.length ≤ 2) : text ++ ending ≠ short := by
    intro heq
    rw [heq] at long
    omega
  refine ⟨⟨differs (by decide), ?_⟩, differs (by decide), differs (by decide)⟩
  rw [String.toList_append, List.mem_append]
  exact not_or.mpr ⟨htext, hending⟩

/-- The files of a service whose name is a word can be written to a directory. -/
theorem isName_of_mem_fileNamesOf {settings : GeneratorSettings} {s : Service}
    (hword : IsWord s.name.toList) {name : String} (h : name ∈ fileNamesOf settings s) :
    IsName name ∧ Files.Tree.IsPlain name := by
  have hstem := slash_notMem_stem hword
  rcases mem_fileNamesOf h with rfl | rfl
  · exact isName_append hstem (by decide) (by decide)
  · exact isName_append hstem (by decide) (by decide)

end ProtoRoutes.Scaffold
