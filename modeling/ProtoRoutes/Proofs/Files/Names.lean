import ProtoRoutes.Files.Tree

/-!
# ProtoRoutes.Proofs.Files.Names

Locations, paths and their texts. A name has no slash in it, so the names of a location can be read
off its text (`pieces_text`), and locations made of names are told apart by their texts. The
canonical location of a path that was given as a text is made of names, as long as the working
directory is (`canonical?_names`). A path that is written and read again stays the same but for its
dots (`Path.ofText_text`), and leads to where it led (`Tree.follow_dotless`).
-/

namespace ProtoRoutes.Files

/-- What files and directories are called: something without a slash. -/
def IsName (name : String) : Prop :=
  name ≠ "" ∧ '/' ∉ name.toList

theorem notMem_of_mem_splitOn {sep : Char} {cs piece : List Char} (h : piece ∈ cs.splitOn sep) :
    sep ∉ piece := by
  induction cs generalizing piece with
  | nil =>
      rw [List.splitOn_nil, List.mem_singleton] at h
      simp [h]
  | cons c cs ih =>
      rw [List.splitOn_cons_eq_if_modifyHead] at h
      by_cases hc : (c == sep) = true
      · rw [if_pos hc, List.mem_cons] at h
        rcases h with rfl | h
        · simp
        · exact ih h
      · rw [if_neg hc] at h
        obtain ⟨first, others, hsplit⟩ := List.exists_cons_of_ne_nil (List.splitOn_ne_nil sep cs)
        rw [hsplit, List.modifyHead_cons, List.mem_cons] at h
        rcases h with rfl | h
        · have hfirst : sep ∉ first := ih (by rw [hsplit]; exact List.mem_cons_self)
          intro hmem
          rcases List.mem_cons.mp hmem with rfl | hmem
          · simp at hc
          · exact hfirst hmem
        · exact ih (by rw [hsplit]; exact List.mem_cons_of_mem _ h)

theorem isName_of_mem_pieces {text name : String} (h : name ∈ Path.pieces text) : IsName name := by
  obtain ⟨piece, hpiece, rfl⟩ := List.mem_map.mp h
  obtain ⟨hmem, hnonempty⟩ := List.mem_filter.mp hpiece
  constructor
  · intro hempty
    have hnil : piece = [] := by simpa using congrArg String.toList hempty
    simp [hnil] at hnonempty
  · rw [String.toList_ofList]
    exact notMem_of_mem_splitOn hmem

/-- Texts with a separator between any two of them come apart again. -/
theorem filter_splitOn_pieces {sep : Char} {pieces : List (List Char)}
    (h : ∀ p ∈ pieces, p ≠ [] ∧ sep ∉ p) :
    (([sep].intercalate pieces).splitOn sep).filter (!·.isEmpty) = pieces := by
  cases pieces with
  | nil => rfl
  | cons first rest =>
      rw [List.splitOn_intercalate sep (fun p hp => (h p hp).2) (by simp)]
      refine List.filter_eq_self.mpr fun p hp => ?_
      simpa using (h p hp).1

/-- Names with a slash between any two of them come apart again. -/
theorem filter_splitOn_intercalate {names : List String} (h : ∀ name ∈ names, IsName name) :
    ((['/'].intercalate (names.map String.toList)).splitOn '/').filter (!·.isEmpty) =
      names.map String.toList := by
  apply filter_splitOn_pieces
  intro p hp
  obtain ⟨name, hname, rfl⟩ := List.mem_map.mp hp
  exact ⟨by simpa using (h name hname).1, (h name hname).2⟩

/-- Slashes in front of a text separate nothing. -/
theorem filter_splitOn_slashes (n : Nat) (cs : List Char) :
    ((List.replicate n '/' ++ cs).splitOn '/').filter (!·.isEmpty) =
      (cs.splitOn '/').filter (!·.isEmpty) := by
  induction n with
  | zero => rfl
  | succ n ih =>
      rw [List.replicate_succ, List.cons_append, List.splitOn_cons_eq_if_modifyHead,
        if_pos (by decide),
        List.filter_cons_of_neg (by simp), ih]

/-- The names of a location can be read off its text. -/
theorem pieces_text {loc : Location} (h : ∀ name ∈ loc, IsName name) :
    Path.pieces (Location.text loc) = loc := by
  have chars : (Location.text loc).toList =
      List.replicate 1 '/' ++ ['/'].intercalate (loc.map String.toList) := by
    unfold Location.text
    rw [String.toList_append, String.toList_intercalate]
    rfl
  unfold Path.pieces
  rw [chars, filter_splitOn_slashes, filter_splitOn_intercalate h, List.map_map]
  simp

theorem text_inj {a b : Location} (ha : ∀ name ∈ a, IsName name) (hb : ∀ name ∈ b, IsName name)
    (h : Location.text a = Location.text b) : a = b := by
  rw [← pieces_text ha, ← pieces_text hb, h]

namespace Path

/-- A path that can be written: its root is one that texts have, and its parts are names. -/
structure IsWritable (p : Path) : Prop where
  root : ∃ n, p.root = rootOf n
  names : ∀ name ∈ p.parts, IsName name

theorem ofText_isWritable (text : String) : (ofText text).IsWritable :=
  ⟨⟨_, rfl⟩, fun _ hname => isName_of_mem_pieces (List.mem_filter.mp hname).1⟩

theorem IsWritable.join {p q : Path} (hp : p.IsWritable) (hq : q.IsWritable) :
    (p.join q).IsWritable := by
  unfold Path.join
  split
  · exact ⟨hp.root, List.forall_mem_append.mpr ⟨hp.names, hq.names⟩⟩
  · exact hq

theorem exists_rootOf (n : Nat) : ∃ k, (rootOf n).toList = List.replicate k '/' ∧
    rootOf k = rootOf n := by
  unfold rootOf
  split
  · exact ⟨0, rfl, rfl⟩
  · exact ⟨2, rfl, rfl⟩
  · exact ⟨1, rfl, rfl⟩

theorem takeWhile_intercalate {names : List String} (h : ∀ name ∈ names, IsName name) :
    (['/'].intercalate (names.map String.toList)).takeWhile (· = '/') = [] := by
  cases names with
  | nil => rfl
  | cons name rest =>
      obtain ⟨hnonempty, hslash⟩ := h name List.mem_cons_self
      cases hcs : name.toList with
      | nil => exact absurd (String.toList_eq_nil_iff.mp hcs) hnonempty
      | cons c cs =>
          rw [hcs] at hslash
          have hc : ¬ c = '/' := fun heq => hslash (heq ▸ List.mem_cons_self)
          cases rest with
          | nil => simp [List.intercalate, hcs, hc]
          | cons other rest => simp [List.intercalate, hcs, hc]

/-- The text of a path stands for that path, without its dots. -/
theorem ofText_text {p : Path} (h : p.IsWritable) :
    ofText p.text = ⟨p.root, p.parts.filter (· ≠ ".")⟩ := by
  obtain ⟨⟨n, hroot⟩, hnames⟩ := h
  obtain ⟨k, hk, hsame⟩ := exists_rootOf n
  by_cases hnone : (p.root.isEmpty && p.parts.isEmpty) = true
  · obtain ⟨root, parts⟩ := p
    simp only [Bool.and_eq_true, String.isEmpty_iff, List.isEmpty_iff] at hnone
    obtain ⟨rfl, rfl⟩ := hnone
    rfl
  · have chars : p.text.toList =
        List.replicate k '/' ++ ['/'].intercalate (p.parts.map String.toList) := by
      rw [text, if_neg hnone, String.toList_append, String.toList_intercalate, hroot, hk]
      rfl
    have slashes : p.text.toList.takeWhile (· = '/') = List.replicate k '/' := by
      rw [chars, List.takeWhile_append_of_pos (by simp), takeWhile_intercalate hnames,
        List.append_nil]
    have parts : pieces p.text = p.parts := by
      rw [pieces, chars, filter_splitOn_slashes, filter_splitOn_intercalate hnames, List.map_map]
      simp
    rw [ofText, slashes, parts, List.length_replicate, hsame, hroot]

end Path

namespace Tree

/-- The working directory and those above it have names. -/
def Named (t : Tree) : Prop :=
  ∀ name ∈ t.cwd, IsName name

theorem canonicalFrom_names (t : Tree) {parts : List String} {loc dest : Location}
    (hparts : ∀ name ∈ parts, IsName name) (hloc : ∀ name ∈ loc, IsName name)
    (hcanonical : t.canonicalFrom loc parts = some dest) : ∀ name ∈ dest, IsName name := by
  induction parts generalizing loc with
  | nil =>
      rw [canonicalFrom, Option.some.injEq] at hcanonical
      subst hcanonical
      exact hloc
  | cons part rest ih =>
      rw [canonicalFrom] at hcanonical
      have hrest : ∀ name ∈ rest, IsName name := fun name hname =>
        hparts name (List.mem_cons_of_mem part hname)
      split at hcanonical
      · refine ih hrest (fun name hname => ?_) hcanonical
        exact hloc name ((List.dropLast_sublist loc).subset hname)
      · split at hcanonical
        · refine ih hrest ?_ hcanonical
          refine List.forall_mem_append.mpr ⟨hloc, ?_⟩
          simpa using hparts part List.mem_cons_self
        · cases hcanonical

/-- The canonical location of a path is made of names. -/
theorem canonical?_names {t : Tree} (hnamed : t.Named) {text : String} {loc : Location}
    (hcanonical : t.canonical? (.ofText text) = some loc) : ∀ name ∈ loc, IsName name := by
  refine t.canonicalFrom_names (fun name hname => ?_) (fun name hname => ?_) hcanonical
  · exact isName_of_mem_pieces (List.mem_filter.mp hname).1
  · unfold startOf at hname
    split at hname
    · exact hnamed name hname
    · cases hname

/-- Dots in a path lead nowhere else. -/
theorem follow_dotless (t : Tree) {parts : List String} {loc dest : Location}
    (h : t.follow loc parts = .ok dest) : t.follow loc (parts.filter (· ≠ ".")) = .ok dest := by
  induction parts generalizing loc with
  | nil => exact h
  | cons part rest ih =>
      rw [follow] at h
      cases hentry : t.find? loc with
      | none => rw [hentry] at h; cases h
      | some entry =>
          rw [hentry] at h
          cases entry with
          | file bytes => cases h
          | directory =>
              simp only at h
              by_cases hdot : part = "."
              · rw [if_pos hdot] at h
                rw [List.filter_cons_of_neg (by simpa using hdot)]
                exact ih h
              · rw [if_neg hdot] at h
                rw [List.filter_cons_of_pos (by simpa using hdot), follow, hentry]
                simp only [hdot, if_false]
                split at h
                · next hup => rw [if_pos hup]; exact ih h
                · next hup => rw [if_neg hup]; exact ih h

end Tree

end ProtoRoutes.Files
