import ProtoRoutes.Proofs.Files.Names

/-!
# ProtoRoutes.Proofs.Files.Writing

What writing leaves alone. Directories are made where nothing was and files are written where no
directory is, so a tree that is written to keeps its directories, and a path that leads somewhere
goes on leading there (`Keeps`). Of the files only those change that one of the written paths leads
to, and these change under all of their names (`Spares`). Every change of a tree does that, also
where it fails (`Careful`).
-/

namespace ProtoRoutes.Files

/-! ### Paths below a directory -/

namespace Tree

/-! ### What is where -/

theorem lookup_map_set (entries : List (Location × Entry)) (loc l : Location) (e : Entry) :
    (entries.map fun (k, old) => if k = loc then (k, e) else (k, old)).lookup l =
      if l = loc then (entries.lookup loc).map fun _ => e else entries.lookup l := by
  induction entries with
  | nil => simp
  | cons entry entries ih =>
      obtain ⟨k, old⟩ := entry
      by_cases hk : k = loc
      · subst hk
        by_cases hl : l = k
        · subst hl
          simp
        · have hne : (l == k) = false := by simpa using hl
          simp only [List.map_cons, if_true, List.lookup_cons, hne, ih, hl, if_false]
      · by_cases hl : l = k
        · subst hl
          simp [hk]
        · have hne : (l == k) = false := by simpa using hl
          have hne' : (loc == k) = false := by simpa using Ne.symm hk
          simp only [List.map_cons, hk, if_false, List.lookup_cons, hne, hne', ih]

theorem lookup_put (t : Tree) (loc : Location) (e : Entry) (l : Location) :
    (t.put loc e).entries.lookup l = if l = loc then some e else t.entries.lookup l := by
  unfold put
  by_cases hold : (t.entries.lookup loc).isSome = true
  · obtain ⟨old, hold'⟩ := Option.isSome_iff_exists.mp hold
    rw [if_pos hold, lookup_map_set, hold']
    rfl
  · have hnone : t.entries.lookup loc = none := Option.not_isSome_iff_eq_none.mp hold
    rw [if_neg hold, List.lookup_append]
    by_cases hl : l = loc
    · subst hl
      simp [hnone]
    · have hne : (l == loc) = false := by simpa using hl
      simp [List.lookup_cons, hne, hl]

@[simp]
theorem put_cwd (t : Tree) (loc : Location) (e : Entry) : (t.put loc e).cwd = t.cwd := by
  unfold put
  split <;> rfl

@[simp]
theorem put_links (t : Tree) (loc : Location) (e : Entry) : (t.put loc e).links = t.links := by
  unfold put
  split <;> rfl

@[simp]
theorem put_shared (t : Tree) (loc : Location) (e : Entry) : (t.put loc e).shared = t.shared := by
  unfold put
  split <;> rfl

/-- A tree with an entry has that entry, and else what it had. -/
theorem find?_put (t : Tree) {loc : Location} (hloc : loc ≠ []) (e : Entry) (l : Location) :
    (t.put loc e).find? l = if l = loc then some e else t.find? l := by
  unfold find?
  rw [lookup_put, put_links, put_shared]
  by_cases hl : l = loc
  · subst hl
    simp [hloc]
  · simp [hl]

/-- An entry where no file has several names gives none of them to another file. -/
theorem number?_put {t : Tree} {loc : Location} (hnone : t.number? loc = none) (e : Entry)
    (l : Location) : (t.put loc e).number? l = t.number? l := by
  by_cases hl : l = loc
  · subst hl
    rw [hnone, number?, lookup_put]
    simp
  · rw [number?, lookup_put, put_links, if_neg hl]
    rfl

/-! ### Names of one file -/

/-- Whether two locations are names of one file. -/
def isSameFile (t : Tree) (l k : Location) : Bool :=
  l = k || (t.number? l).isSome && t.number? l = t.number? k

/-- Two places are one file if they are the same place or have the same number. -/
theorem isSameFile_iff {t : Tree} {l k : Location} : t.isSameFile l k = true ↔
    l = k ∨ ∃ n, t.number? l = some n ∧ t.number? k = some n := by
  unfold isSameFile
  cases t.number? l with
  | none => simp
  | some n => simp [@eq_comm _ (some n)]

theorem isSameFile_refl (t : Tree) (l : Location) : t.isSameFile l l = true :=
  isSameFile_iff.mpr (.inl rfl)

/-- Under a name with a number, the bytes of the file with this number are found. -/
theorem find?_of_number? {t : Tree} {l : Location} {n : Nat} (h : t.number? l = some n) :
    t.find? l = some (.file (t.shared n)) := by
  unfold number? at h
  split at h
  · cases h
  · next hplain =>
      simp only [Bool.or_eq_true, not_or, Option.not_isSome_iff_eq_none] at hplain
      simp [find?, hplain, h]

/-- A location without a number is found in the entries. -/
theorem find?_of_number?_eq_none {t : Tree} {l : Location} (hl : l ≠ []) (h : t.number? l = none) :
    t.find? l = t.entries.lookup l := by
  have hlower : l.isEmpty = false := by simpa using hl
  unfold number? at h
  rw [hlower, Bool.false_or] at h
  unfold find?
  cases hentry : t.entries.lookup l with
  | some e => simp [hlower]
  | none =>
      rw [hentry] at h
      have hlinks : t.links.lookup l = none := h
      simp [hlower, hlinks]

@[simp]
theorem store_cwd (t : Tree) (loc : Location) (bytes : ByteArray) :
    (t.store loc bytes).cwd = t.cwd := by
  unfold store
  split
  · rfl
  · exact put_cwd t loc _

/-- A write leaves every file the names that it has. -/
theorem number?_store (t : Tree) (loc : Location) (bytes : ByteArray) (l : Location) :
    (t.store loc bytes).number? l = t.number? l := by
  unfold store
  cases hnumber : t.number? loc with
  | some n => rfl
  | none => exact number?_put hnumber _ l

/-- What is stored in a file is found under all of its names. -/
theorem find?_store_of_same {t : Tree} {loc l : Location} (hloc : loc ≠ []) (bytes : ByteArray)
    (h : t.isSameFile l loc = true) : (t.store loc bytes).find? l = some (.file bytes) := by
  have hnames := number?_store t loc bytes l
  unfold store at hnames ⊢
  cases hnumber : t.number? loc with
  | some n =>
      have hl : t.number? l = some n := by
        rcases isSameFile_iff.mp h with rfl | ⟨k, hl, hk⟩
        · exact hnumber
        · rw [hl, ← hk, hnumber]
      rw [hnumber, hl] at hnames
      rw [find?_of_number? hnames]
      simp
  | none =>
      rcases isSameFile_iff.mp h with rfl | ⟨k, -, hk⟩
      · simp [find?_put t hloc]
      · rw [hnumber] at hk
        cases hk

/-- What is stored in a file changes no other one. -/
theorem find?_store_of_other {t : Tree} {loc l : Location} (hloc : loc ≠ []) (bytes : ByteArray)
    (h : t.isSameFile l loc = false) : (t.store loc bytes).find? l = t.find? l := by
  have hnames := number?_store t loc bytes l
  unfold store at hnames ⊢
  cases hnumber : t.number? loc with
  | none =>
      have hne : l ≠ loc := by
        rintro rfl
        rw [isSameFile_refl] at h
        cases h
      simp [find?_put t hloc, hne]
  | some n =>
      rw [hnumber] at hnames
      cases hl : t.number? l with
      | some k =>
          have hne : k ≠ n := by
            rintro rfl
            rw [isSameFile_iff.mpr (.inr ⟨k, hl, hnumber⟩)] at h
            cases h
          rw [hl] at hnames
          rw [find?_of_number? hnames, find?_of_number? hl]
          simp [hne]
      | none =>
          by_cases htop : l = []
          · subst htop
            rfl
          rw [hl] at hnames
          rw [find?_of_number?_eq_none htop hnames, find?_of_number?_eq_none htop hl]

/-! ### What is kept -/

/-- The second tree has a directory where the first one has, and something where the first one has.
-/
structure Keeps (t t' : Tree) : Prop where
  cwd : t'.cwd = t.cwd
  directories : ∀ l, t.find? l = some .directory → t'.find? l = some .directory
  present : ∀ l, (t.find? l).isSome → (t'.find? l).isSome

section Keeps

variable {t t' : Tree} {loc : Location}

theorem Keeps.startOf (h : Keeps t t') (p : Path) : t'.startOf p = t.startOf p := by
  simp [Tree.startOf, h.cwd]

/-- A path that leads somewhere goes on leading there. -/
theorem Keeps.follow (h : Keeps t t') {parts : List String} {dest : Location}
    (hfollow : t.follow loc parts = .ok dest) : t'.follow loc parts = .ok dest := by
  induction parts generalizing loc with
  | nil =>
      rw [Tree.follow] at hfollow ⊢
      split at hfollow
      · next hthere =>
          rw [if_pos (h.present loc hthere)]
          exact hfollow
      · cases hfollow
  | cons part rest ih =>
      rw [Tree.follow] at hfollow ⊢
      split at hfollow
      · cases hfollow
      · cases hfollow
      · next hdirectory =>
          rw [h.directories loc hdirectory]
          simp only
          split at hfollow
          · next hdot =>
              rw [if_pos hdot]
              exact ih hfollow
          · next hdot =>
              rw [if_neg hdot]
              split at hfollow
              · next hup =>
                  rw [if_pos hup]
                  exact ih hfollow
              · next hup =>
                  rw [if_neg hup]
                  exact ih hfollow

theorem resolve?_eq_some_iff {p : Path} {dest : Location} :
    t.resolve? p = some dest ↔ t.follow (t.startOf p) p.parts = .ok dest := by
  unfold resolve?
  cases t.follow (t.startOf p) p.parts with
  | error e => simp [Except.toOption]
  | ok loc => simp [Except.toOption]

/-- A path that leads somewhere leads there afterwards. -/
theorem Keeps.resolve? (h : Keeps t t') {p : Path} {dest : Location}
    (hresolve : t.resolve? p = some dest) : t'.resolve? p = some dest := by
  rw [resolve?_eq_some_iff] at hresolve ⊢
  rw [h.startOf]
  exact h.follow hresolve

/-- A directory has no other name, so that it stays when a file is written. -/
theorem Keeps.store (hloc : loc ≠ []) (hfree : t.find? loc ≠ some .directory)
    (bytes : ByteArray) : Keeps t (t.store loc bytes) := by
  refine ⟨store_cwd _ _ _, fun l hl => ?_, fun l hl => ?_⟩
  · rw [find?_store_of_other hloc, hl]
    rw [Bool.eq_false_iff]
    intro hsame
    rcases isSameFile_iff.mp hsame with rfl | ⟨n, hn, -⟩
    · exact hfree hl
    · rw [find?_of_number? hn] at hl
      cases hl
  · cases hsame : t.isSameFile l loc with
    | true =>
        rw [find?_store_of_same hloc bytes hsame]
        rfl
    | false =>
        rw [find?_store_of_other hloc bytes hsame]
        exact hl

end Keeps

/-- The second tree has what the first one has, but files that some paths lead to may have other
bytes. Each file keeps its names. -/
structure Spares (paths : List Path) (t t' : Tree) : Prop extends Keeps t t' where
  numbers : ∀ l, t'.number? l = t.number? l
  files : ∀ l bytes, t.find? l = some (.file bytes) →
    (∀ p ∈ paths, ∀ k, t'.resolve? p = some k → t.isSameFile l k = false) →
    t'.find? l = some (.file bytes)

section Spares

variable {paths : List Path} {t t' t'' : Tree} {loc : Location}

theorem Spares.isSameFile (h : Spares paths t t') (l k : Location) :
    t'.isSameFile l k = t.isSameFile l k := by
  simp [Tree.isSameFile, h.numbers]

theorem Spares.refl (t : Tree) : Spares paths t t where
  cwd := rfl
  directories _ h := h
  present _ h := h
  numbers _ := rfl
  files _ _ h _ := h

theorem Spares.trans (h : Spares paths t t') (h' : Spares paths t' t'') : Spares paths t t'' where
  cwd := h'.cwd.trans h.cwd
  directories l hl := h'.directories l (h.directories l hl)
  present l hl := h'.present l (h.present l hl)
  numbers l := (h'.numbers l).trans (h.numbers l)
  files l bytes hl hother := by
    -- Where a path leads in between, it leads in the end.
    have first := h.files l bytes hl fun p hp k hk => hother p hp k (h'.resolve? hk)
    refine h'.files l bytes first fun p hp k hk => ?_
    rw [h.isSameFile]
    exact hother p hp k hk

theorem Spares.mono {paths' : List Path} (h : Spares paths t t') (hsub : paths ⊆ paths') :
    Spares paths' t t' :=
  { h with files := fun l bytes hl hother => h.files l bytes hl fun p hp => hother p (hsub hp) }

/-- What is stored in a file that a path leads to spares all others. -/
theorem Spares.store {p : Path} {bytes : ByteArray} (hloc : loc ≠ [])
    (hfree : t.find? loc ≠ some .directory)
    (hresolve : (t.store loc bytes).resolve? p = some loc) :
    Spares [p] t (t.store loc bytes) where
  toKeeps := .store hloc hfree bytes
  numbers := number?_store t loc bytes
  files l old hl hother := by
    rw [find?_store_of_other hloc bytes (hother p (List.mem_singleton_self p) loc hresolve), hl]

end Spares

/-! ### Careful changes -/

section Careful

variable {α β : Type} {paths : List Path}

/-- The tree that a change leaves, whatever it comes to. -/
def left : EStateM.Result Error Tree α → Tree
  | .ok _ t => t
  | .error _ t => t

/-- A change that spares all but files that some paths lead to, also where it fails. -/
def Careful (paths : List Path) (x : Change α) : Prop :=
  ∀ t, Spares paths t (left (x t))

theorem Careful.pure (a : α) : Careful paths (Pure.pure a : Change α) :=
  fun t => .refl t

/-- Careful changes one after another are careful. -/
theorem Careful.bind {x : Change α} {f : α → Change β} (hx : Careful paths x)
    (hf : ∀ a, Careful paths (f a)) : Careful paths (x >>= f) := by
  intro t
  have first := hx t
  show Spares paths t (left (EStateM.bind x f t))
  unfold EStateM.bind
  cases hrun : x t with
  | ok a t' =>
      rw [hrun] at first
      exact first.trans (hf a t')
  | error e t' =>
      rw [hrun] at first
      exact first

end Careful

/-! ### Written files -/

/-- A component that is no dot. -/
def IsPlain (name : String) : Prop :=
  name ≠ "." ∧ name ≠ ".."

variable {above : List String} {t t' : Tree} {p : Path} {name : String} {bytes : ByteArray}

end Tree

end ProtoRoutes.Files
