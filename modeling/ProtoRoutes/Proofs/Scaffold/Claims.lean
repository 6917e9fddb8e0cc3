import Mathlib.Data.List.Nodup
import ProtoRoutes.Http.Extract
import ProtoRoutes.Proofs.Grammar.Identifiers
import ProtoRoutes.Scaffold.Modules

/-!
# ProtoRoutes.Proofs.Scaffold.Claims

Claims on stems are made for a whole file or not at all. A claim first goes through the routed
services of the file: each stem is looked up among those of the services in front and among the
claims of earlier files. Only when none of them is taken are they put into the claims. So a conflict
leaves the claims as they were, at whichever service it is found.

The lookup passes over an owner without a name in the same file. Only services without a name have
the empty stem (`stem_eq_empty`), so what can be claimed together is this: services with different
stems, and among them any number without a name (`Free`). `claimServices_cases` says once what a
file can do to claims; what a row of files leaves follows from it.
-/

namespace ProtoRoutes.Scaffold

/-! ### The empty stem -/

theorem lower_ne_nil {cs : List Char} (h : cs ≠ []) : Text.lower cs ≠ [] := by
  obtain ⟨c, rest, rfl⟩ := List.exists_cons_of_ne_nil h
  have first (before after : List Char) : Text.lowerChar before c after ≠ [] := by
    unfold Text.lowerChar
    repeat' split
    all_goals simp
  simp [Text.lower, Text.lowerFrom, first]

theorem collapse_ne_nil {cs : List Char} (h : cs ≠ []) : collapse cs ≠ [] := by
  fun_induction collapse cs with
  | case1 => exact h
  | case2 c => simp
  | case3 c d rest _ ih => exact ih (by simp)
  | case4 c d rest _ ih => simp

theorem splitWords_ne_nil {cs : List Char} (h : cs ≠ []) : splitWords cs ≠ [] := by
  fun_cases splitWords cs with
  | case1 => exact h
  | case2 c => simp
  | case3 c d rest => simp
  | case4 c d rest => simp

theorem splitAcronyms_ne_nil {cs : List Char} (h : cs ≠ []) : splitAcronyms cs ≠ [] := by
  fun_cases splitAcronyms cs with
  | case1 => exact h
  | case2 c rest _ behind =>
      have run : splitRun (c :: rest.takeWhile isCapital) (behind.head?.any isSmall) ≠ [] := by
        unfold splitRun
        split
        · simp
        · simp
      simp [run]
  | case3 c rest _ => simp

/-- Snake case leaves no name empty. -/
theorem snakeChars_ne_nil {cs : List Char} (h : cs ≠ []) : snakeChars cs ≠ [] := by
  refine lower_ne_nil (collapse_ne_nil (splitWords_ne_nil (splitAcronyms_ne_nil ?_)))
  simpa [Text.replaceChar] using h

/-- Something is left of a text when a word is cut off its end that is not the whole text. -/
theorem take_ne_nil_of_endsWith {word cs : List Char} (hends : Text.endsWith word cs = true)
    (hne : cs ≠ word) : cs.take (cs.length - word.length) ≠ [] := by
  have hback : word.reverse <+: cs.reverse := List.isPrefixOf_iff_prefix.mp hends
  have hlonger : word.length < cs.length := by
    refine lt_of_le_of_ne (by simpa using hback.length_le) fun hsame => hne ?_
    exact (List.reverse_injective (hback.eq_of_length (by simpa using hsame))).symm
  rw [← List.length_pos_iff, List.length_take]
  omega

/-- Only a service without a name has the empty stem. -/
theorem stem_eq_empty {name : String} (h : stem name = "") : name = "" := by
  by_contra hname
  unfold stem at h
  dsimp only at h
  split at h
  · next hservice =>
      rw [Bool.and_eq_true, decide_eq_true_eq] at hservice
      have hleft := take_ne_nil_of_endsWith hservice.1 hservice.2
      exact snakeChars_ne_nil hleft (String.ofList_eq_empty_iff.mp h)
  · have hchars : name.toList ≠ [] := by simpa using hname
    exact snakeChars_ne_nil hchars (String.ofList_eq_empty_iff.mp h)

/-! ### Services that can claim together -/

/-- What a service claims: its stem, under its name. -/
def claimOf (s : Service) : String × String :=
  (stem s.name, s.name)

/-- What services claim, each of them once. -/
def claimsOf (services : List Service) : Claims :=
  (services.map claimOf).eraseDups

/-- Services with names. -/
def Named (services : List Service) : Prop :=
  ∀ s ∈ services, s.name ≠ ""

/-- The services of a file that is read have names. -/
theorem named_of_parse {mode : Grammar.Mode} {text : String} {f : SchemaFile}
    (h : Grammar.parse mode text = .ok f) (routes : List Route) :
    Named (routedServices f routes) := by
  intro s hs hname
  have ident := ((Grammar.parse_wellNamed h).services s (List.mem_of_mem_filter hs)).name
  rw [hname] at ident
  exact absurd ident (by decide)

/-- Two services that can both claim their stems: these are different, or neither service has a
name. -/
def Compatible (s t : Service) : Prop :=
  stem s.name = stem t.name → s.name = "" ∧ t.name = ""

/-- Services that can claim their stems: each of them beside the others, and beside what is claimed.
-/
structure Free (claims : Claims) (services : List Service) : Prop where
  compatible : services.Pairwise Compatible
  unclaimed : ∀ s ∈ services, stem s.name ∉ claims.map Prod.fst

section Claimed

variable {claims : Claims} {front back services : List Service} {s t : Service}

/-- A service without a name can claim beside every other one: the other one has no name either, or
another stem. -/
theorem Compatible.of_nameless (h : s.name = "") : Compatible s t := by
  intro hsame
  refine ⟨h, stem_eq_empty ?_⟩
  rw [← hsame, h]
  decide +kernel

theorem mem_claimsOf {claim : String × String} :
    claim ∈ claimsOf services ↔ ∃ s ∈ services, claimOf s = claim := by
  rw [claimsOf, List.mem_eraseDups, List.mem_map]

theorem mem_stems_claimsOf {key : String} :
    key ∈ (claimsOf services).map Prod.fst ↔ ∃ s ∈ services, stem s.name = key := by
  simp [mem_claimsOf, claimOf]

/-- Services with other stems claim behind the ones in front. -/
theorem claimsOf_append (h : ∀ s ∈ back, ∀ t ∈ front, stem s.name ≠ stem t.name) :
    claimsOf (front ++ back) = claimsOf front ++ claimsOf back := by
  have kept : (back.map claimOf).removeAll (front.map claimOf) = back.map claimOf := by
    refine List.filter_eq_self.mpr fun claim hclaim => ?_
    obtain ⟨s, hs, rfl⟩ := List.mem_map.mp hclaim
    have hnew : claimOf s ∉ front.map claimOf := by
      intro hmem
      obtain ⟨t, ht, hsame⟩ := List.mem_map.mp hmem
      exact h s hs t ht (congrArg Prod.fst hsame).symm
    simpa using hnew
  rw [claimsOf, List.map_append, List.eraseDups_append, kept]
  rfl

/-- A claim that was made already is not made again. -/
theorem claimsOf_concat_of_mem (h : claimOf s ∈ front.map claimOf) :
    claimsOf (front ++ [s]) = claimsOf front := by
  rw [claimsOf, List.map_append, List.eraseDups_append]
  simp [List.removeAll, List.mem_map.mp h, claimsOf]

namespace Free

theorem of_append (h : Free claims (front ++ back)) : Free claims front where
  compatible := (List.pairwise_append.mp h.compatible).1
  unclaimed s hs := h.unclaimed s (List.mem_append_left back hs)

/-- Services are free together if the ones at the back are free behind the claims of those in
front. -/
theorem append (hfront : Free claims front) (hback : Free (claims ++ claimsOf front) back) :
    Free claims (front ++ back) := by
  have apart : ∀ s ∈ back, stem s.name ∉ claims.map Prod.fst ∧
      ∀ t ∈ front, stem s.name ≠ stem t.name := by
    intro s hs
    have hnew := hback.unclaimed s hs
    rw [List.map_append, List.mem_append, not_or] at hnew
    refine ⟨hnew.1, fun t ht hsame => hnew.2 ?_⟩
    exact mem_stems_claimsOf.mpr ⟨t, ht, hsame.symm⟩
  constructor
  · refine List.pairwise_append.mpr ⟨hfront.compatible, hback.compatible, ?_⟩
    intro t ht s hs hsame
    exact absurd hsame.symm ((apart s hs).2 t ht)
  · intro s hs
    rcases List.mem_append.mp hs with hs | hs
    · exact hfront.unclaimed s hs
    · exact (apart s hs).1

theorem concat_iff (hfront : Free claims front) :
    Free claims (front ++ [s]) ↔
      (∀ t ∈ front, Compatible t s) ∧ stem s.name ∉ claims.map Prod.fst := by
  constructor
  · intro h
    have cross := (List.pairwise_append.mp h.compatible).2.2
    exact ⟨fun t ht => cross t ht s (List.mem_singleton_self s), h.unclaimed s (by simp)⟩
  · rintro ⟨hcompatible, hnew⟩
    constructor
    · refine List.pairwise_append.mpr ⟨hfront.compatible, List.pairwise_singleton _ s, ?_⟩
      intro t ht u hu
      rw [List.mem_singleton.mp hu]
      exact hcompatible t ht
    · intro u hu
      rcases List.mem_append.mp hu with hu | hu
      · exact hfront.unclaimed u hu
      · rw [List.mem_singleton.mp hu]
        exact hnew

/-- A claim that cannot be added to those in front is there already. -/
theorem mem_or_new (h : Free claims (front ++ [s])) :
    claimOf s ∈ front.map claimOf ∨ ∀ t ∈ front, stem s.name ≠ stem t.name := by
  by_cases hmem : ∃ t ∈ front, stem t.name = stem s.name
  · obtain ⟨t, ht, hsame⟩ := hmem
    obtain ⟨hname, hname'⟩ := (h.of_append.concat_iff.mp h).1 t ht hsame
    exact .inl (List.mem_map.mpr ⟨t, ht, by rw [claimOf, claimOf, hname, hname']⟩)
  · push Not at hmem
    exact .inr fun t ht => (hmem t ht).symm

/-- What free services claim has every stem once. -/
theorem nodup_claimsOf (h : Free claims services) : ((claimsOf services).map Prod.fst).Nodup := by
  induction services using List.reverseRecOn with
  | nil => exact List.nodup_nil
  | append_singleton front s ih =>
      rcases h.mem_or_new with hmem | hnew
      · rw [claimsOf_concat_of_mem hmem]
        exact ih h.of_append
      · rw [claimsOf_append (by simpa using hnew), List.map_append]
        refine List.nodup_append.mpr ⟨ih h.of_append, List.nodup_singleton _, ?_⟩
        rintro _ hkey _ hlast rfl
        obtain ⟨t, ht, hsame⟩ := mem_stems_claimsOf.mp hkey
        obtain ⟨u, hu, rfl⟩ := mem_stems_claimsOf.mp hlast
        rw [List.mem_singleton.mp hu] at hsame
        exact hnew t ht hsame.symm

/-- Among free services, those with names have different stems. -/
theorem nodup_of_named (h : Free claims services) :
    ((services.filter (·.name ≠ "")).map (stem ·.name)).Nodup := by
  rw [List.nodup_iff_pairwise_ne, List.pairwise_map, List.pairwise_filter]
  refine h.compatible.imp fun {s t} hcompatible hs _ hsame => ?_
  exact absurd (hcompatible hsame).1 (by simpa using hs)

theorem of_nodup (h : (services.map (stem ·.name)).Nodup)
    (hnew : ∀ s ∈ services, stem s.name ∉ claims.map Prod.fst) : Free claims services where
  compatible := by
    rw [List.nodup_iff_pairwise_ne, List.pairwise_map] at h
    exact h.imp fun hne hsame => absurd hsame hne
  unclaimed := hnew

end Free

/-! ### Dictionaries -/

namespace Claims

theorem lookup_eq_none_iff {key : String} :
    claims.lookup key = none ↔ key ∉ claims.map Prod.fst := by
  rw [List.lookup_eq_none_iff]
  constructor
  · intro h hmem
    obtain ⟨entry, hentry, rfl⟩ := List.mem_map.mp hmem
    simpa using h entry hentry
  · intro h entry hentry
    simp only [bne_iff_ne]
    intro hsame
    exact h (hsame ▸ List.mem_map_of_mem hentry)

theorem mem_of_lookup {key owner : String} (h : claims.lookup key = some owner) :
    (key, owner) ∈ claims := by
  obtain ⟨before, behind, rfl, -⟩ := List.lookup_eq_some_iff.mp h
  simp

theorem put_of_notMem {key owner : String} (h : key ∉ claims.map Prod.fst) :
    put claims key owner = claims ++ [(key, owner)] := by
  simp [put, lookup_eq_none_iff.mpr h]

/-- Claims with new stems are put behind the old ones. -/
theorem update_of_new {others : Claims} (hothers : (others.map Prod.fst).Nodup)
    (hnew : ∀ key ∈ others.map Prod.fst, key ∉ claims.map Prod.fst) :
    update claims others = claims ++ others := by
  induction others generalizing claims with
  | nil => simp [update]
  | cons e others ih =>
      rw [List.map_cons] at hothers hnew
      obtain ⟨hfirst, hrest⟩ := List.forall_mem_cons.mp hnew
      obtain ⟨hlast, hothers⟩ := List.nodup_cons.mp hothers
      have rest := @ih (claims ++ [e]) hothers fun key hkey hmem => by
        rw [List.map_append, List.mem_append] at hmem
        rcases hmem with hmem | hmem
        · exact hrest key hkey hmem
        · rw [List.map_singleton, List.mem_singleton] at hmem
          exact hlast (hmem ▸ hkey)
      rw [update, List.foldl_cons, put_of_notMem hfirst]
      rw [update] at rest
      rw [rest, List.append_assoc, List.singleton_append]

/-- A further free service puts its claim behind those of the services in front, or finds it
there. -/
theorem put_of_free (h : Free claims (front ++ [s])) :
    put (claimsOf front) (stem s.name) s.name = claimsOf (front ++ [s]) := by
  rcases h.mem_or_new with hmem | hnew
  · obtain ⟨t, ht, hsame⟩ := List.mem_map.mp hmem
    have hold : ((claimsOf front).lookup (stem s.name)).isSome = true := by
      rw [Option.isSome_iff_ne_none, Ne, lookup_eq_none_iff, not_not]
      exact mem_stems_claimsOf.mpr ⟨t, ht, congrArg Prod.fst hsame⟩
    rw [claimsOf_concat_of_mem hmem, put, if_pos hold]
    refine (List.map_congr_left fun entry hentry => ?_).trans (List.map_id _)
    obtain ⟨u, hu, rfl⟩ := mem_claimsOf.mp hentry
    by_cases hstem : stem u.name = stem s.name
    · obtain ⟨hname, hname'⟩ := (h.of_append.concat_iff.mp h).1 u hu hstem
      simp [claimOf, hname, hname']
    · simp [claimOf, hstem]
  · have hkey : stem s.name ∉ (claimsOf front).map Prod.fst := by
      intro hkey
      obtain ⟨t, ht, hsame⟩ := mem_stems_claimsOf.mp hkey
      exact hnew t ht hsame.symm
    rw [put_of_notMem hkey, claimsOf_append (by simpa using hnew)]
    rfl

/-- The stem of a further free service has no owner that counts. -/
theorem owner?_of_free (h : Free claims (front ++ [s])) :
    owner? claims (claimsOf front) (stem s.name) = none := by
  obtain ⟨hcompatible, hnew⟩ := h.of_append.concat_iff.mp h
  have own : ((claimsOf front).lookup (stem s.name)).filter (· ≠ "") = none := by
    cases hlookup : (claimsOf front).lookup (stem s.name) with
    | none => rfl
    | some owner =>
        obtain ⟨t, ht, hclaim⟩ := mem_claimsOf.mp (mem_of_lookup hlookup)
        obtain ⟨hstem, hname⟩ := Prod.mk.inj hclaim
        simp [← hname, (hcompatible t ht hstem).1]
  exact Option.or_eq_none_iff.mpr ⟨own, lookup_eq_none_iff.mpr hnew⟩

/-- A service whose stem has no owner that counts is free. -/
theorem free_of_owner? (hfront : Free claims front)
    (h : owner? claims (claimsOf front) (stem s.name) = none) : Free claims (front ++ [s]) := by
  obtain ⟨hown, hearlier⟩ := Option.or_eq_none_iff.mp h
  refine hfront.concat_iff.mpr ⟨fun t ht hsame => ?_, lookup_eq_none_iff.mp hearlier⟩
  cases hlookup : (claimsOf front).lookup (stem s.name) with
  | none =>
      have hnone := lookup_eq_none_iff.mp hlookup
      exact absurd (mem_stems_claimsOf.mpr ⟨t, ht, hsame⟩) hnone
  | some owner =>
      -- The owner was passed over, so that it has no name, and then no service with its stem has.
      obtain ⟨u, hu, hclaim⟩ := mem_claimsOf.mp (mem_of_lookup hlookup)
      obtain ⟨hstem, hname⟩ := Prod.mk.inj hclaim
      have hnameless : u.name = "" := by
        rw [hlookup] at hown
        simpa [hname] using hown
      have hs := (Compatible.of_nameless hnameless (t := s) hstem).2
      exact ⟨(Compatible.of_nameless hs (t := t) hsame.symm).2, hs⟩

end Claims

end Claimed

/-! ### One file -/

theorem get_bind {ε σ α : Type} (f : σ → EStateM ε σ α) (s : σ) : (get >>= f) s = f s s :=
  rfl

section File

variable {claims own : Claims} {front services : List Service} {s : Service}

theorem gatherStems_of_some {owner : String}
    (h : Claims.owner? claims own (stem s.name) = some owner) :
    gatherStems own (s :: services) claims = .error ⟨stem s.name, owner, s.name⟩ claims := by
  rw [gatherStems, get_bind, h]
  rfl

theorem gatherStems_of_none (h : Claims.owner? claims own (stem s.name) = none) :
    gatherStems own (s :: services) claims =
      gatherStems (Claims.put own (stem s.name) s.name) services claims := by
  rw [gatherStems, get_bind, h]

/-- The stems of free services are gathered, behind those of the services in front. -/
theorem gatherStems_of_free (h : Free claims (front ++ services)) :
    gatherStems (claimsOf front) services claims = .ok (claimsOf (front ++ services)) claims := by
  induction services generalizing front with
  | nil =>
      rw [List.append_nil]
      rfl
  | cons s services ih =>
      rw [List.append_cons] at h ⊢
      have hnext : Free claims (front ++ [s]) := h.of_append
      rw [gatherStems_of_none (Claims.owner?_of_free hnext), Claims.put_of_free hnext]
      exact ih h

/-- If services are not free, the walk comes to one that it stops at. -/
theorem gatherStems_of_not_free (hfront : Free claims front)
    (h : ¬ Free claims (front ++ services)) :
    ∃ c, gatherStems (claimsOf front) services claims = .error c claims := by
  -- On the services that are left: those in front are the ones whose stems were gathered.
  induction services generalizing front with
  | nil =>
      rw [List.append_nil] at h
      exact absurd hfront h
  | cons s services ih =>
      cases howner : Claims.owner? claims (claimsOf front) (stem s.name) with
      | some owner => exact ⟨_, gatherStems_of_some howner⟩
      | none =>
          have hnext := Claims.free_of_owner? hfront howner
          rw [gatherStems_of_none howner, Claims.put_of_free hnext]
          rw [List.append_cons] at h
          exact ih hnext h

variable {f : SchemaFile} {routes : List Route}

theorem claimServices_of_ok
    (h : gatherStems [] (routedServices f routes) claims = .ok own claims) :
    claimServices f routes claims = .ok (routedServices f routes) (Claims.update claims own) := by
  show EStateM.bind _ _ _ = _
  rw [EStateM.bind, h]
  rfl

theorem claimServices_of_error {c : StemConflict}
    (h : gatherStems [] (routedServices f routes) claims = .error c claims) :
    claimServices f routes claims = .error c claims := by
  show EStateM.bind _ _ _ = _
  rw [EStateM.bind, h]

/-- A file claims the stems of its routed services if they are free. -/
theorem claimServices_of_free (h : Free claims (routedServices f routes)) :
    claimServices f routes claims =
      .ok (routedServices f routes) (claims ++ claimsOf (routedServices f routes)) := by
  rw [claimServices_of_ok (@gatherStems_of_free claims [] _ h), List.nil_append,
    Claims.update_of_new h.nodup_claimsOf]
  intro key hkey
  obtain ⟨s, hs, rfl⟩ := mem_stems_claimsOf.mp hkey
  exact h.unclaimed s hs

/-- A file claims the stems of its routed services, or nothing if they are not free. -/
theorem claimServices_cases (claims : Claims) (f : SchemaFile) (routes : List Route) :
    (Free claims (routedServices f routes) ∧ claimServices f routes claims =
      .ok (routedServices f routes) (claims ++ claimsOf (routedServices f routes))) ∨
    (¬ Free claims (routedServices f routes) ∧
      ∃ c, claimServices f routes claims = .error c claims) := by
  by_cases hfree : Free claims (routedServices f routes)
  · exact .inl ⟨hfree, claimServices_of_free hfree⟩
  · have hnone : Free claims [] := ⟨.nil, by simp⟩
    obtain ⟨c, hgather⟩ := @gatherStems_of_not_free claims [] _ hnone hfree
    exact .inr ⟨hfree, c, claimServices_of_error hgather⟩

end File

/-! ### Files one after another -/

/-- Claims for files with their routes, one after another and whether they succeed or not: the
claims in the end, and the services of the files that have succeeded. -/
def claimEach (claims : Claims) : List (SchemaFile × List Route) → Claims × List Service
  | [] => (claims, [])
  | (f, routes) :: rest =>
    match claimServices f routes claims with
    | .ok services next => ((claimEach next rest).1, services ++ (claimEach next rest).2)
    | .error _ next => claimEach next rest

/-- The services of all files that have succeeded are free together, and what is claimed in the end
is what they claim. -/
theorem claimEach_spec (claims : Claims) (calls : List (SchemaFile × List Route)) :
    Free claims (claimEach claims calls).2 ∧
      (claimEach claims calls).1 = claims ++ claimsOf (claimEach claims calls).2 := by
  induction calls generalizing claims with
  | nil => exact ⟨⟨.nil, by simp [claimEach]⟩, by simp [claimEach, claimsOf]⟩
  | cons call calls ih =>
      obtain ⟨f, routes⟩ := call
      rcases claimServices_cases claims f routes with ⟨hfree, hclaim⟩ | ⟨-, c, hclaim⟩
      · obtain ⟨hrest, hlast⟩ := ih (claims ++ claimsOf (routedServices f routes))
        rw [claimEach, hclaim]
        refine ⟨hfree.append hrest, ?_⟩
        rw [hlast, claimsOf_append, List.append_assoc]
        intro s hs t ht hsame
        have hnew := hrest.unclaimed s hs
        rw [List.map_append, List.mem_append, not_or] at hnew
        exact hnew.2 (mem_stems_claimsOf.mpr ⟨t, ht, hsame.symm⟩)
      · rw [claimEach, hclaim]
        exact ih claims

/-- **Stems are claimed for whole files and for one service each.** A service is routed if a route
bears its name. After any row of files, the claims are the stems of the services that have
succeeded, with their names and each stem once, and the services with names have different ones. A
further file fails if two of its routed services with names have the same stem or a routed service
has one that is claimed; it fails only if two routed services have the same stem or one has a stem
that is claimed, and then the claims are what they were. Else it gives its routed services, in
order, and their stems are added with their names. In a file that is read, all services have names
(`named_of_parse`). -/
theorem claims_atomic_and_injective {calls : List (SchemaFile × List Route)} {claims : Claims}
    {owners : List Service} (hcalls : claimEach [] calls = (claims, owners)) :
    ((owners.filter (·.name ≠ "")).map (stem ·.name)).Nodup ∧
    claims = (owners.map claimOf).eraseDups ∧ (claims.map Prod.fst).Nodup ∧
    ∀ f routes,
      (¬ (((routedServices f routes).filter (·.name ≠ "")).map (stem ·.name)).Nodup ∨
          (∃ s ∈ routedServices f routes, stem s.name ∈ claims.map Prod.fst) →
        ∃ c, claimServices f routes claims = .error c claims) ∧
      (∀ c claims', claimServices f routes claims = .error c claims' → claims' = claims ∧
        (¬ ((routedServices f routes).map (stem ·.name)).Nodup ∨
          ∃ s ∈ routedServices f routes, stem s.name ∈ claims.map Prod.fst)) ∧
      (∀ services claims', claimServices f routes claims = .ok services claims' →
        services = routedServices f routes ∧
          claims' = claims ++ (services.map claimOf).eraseDups) := by
  obtain ⟨hfree, hclaims⟩ := claimEach_spec [] calls
  rw [hcalls, List.nil_append] at hclaims
  rw [hcalls] at hfree
  obtain rfl : claims = claimsOf owners := hclaims
  refine ⟨hfree.nodup_of_named, rfl, hfree.nodup_claimsOf, fun f routes => ?_⟩
  rcases claimServices_cases (claimsOf owners) f routes with
    ⟨hnext, hclaim⟩ | ⟨htaken, c, hclaim⟩
  · refine ⟨?_, ?_, ?_⟩
    · rintro (hclash | ⟨s, hs, hmem⟩)
      · exact absurd hnext.nodup_of_named hclash
      · exact absurd hmem (hnext.unclaimed s hs)
    · intro c claims' hconflict
      rw [hclaim] at hconflict
      cases hconflict
    · intro services claims' hok
      rw [hclaim] at hok
      cases hok
      exact ⟨rfl, rfl⟩
  · refine ⟨fun _ => ⟨c, hclaim⟩, ?_, ?_⟩
    · intro d claims' hconflict
      rw [hclaim] at hconflict
      cases hconflict
      refine ⟨rfl, ?_⟩
      by_contra hnone
      push Not at hnone
      exact htaken (.of_nodup hnone.1 hnone.2)
    · intro services claims' hok
      rw [hclaim] at hok
      cases hok

/-- A file with services that have nothing but names, and a route to each of them. -/
def served (names : List String) : SchemaFile × List Route :=
  ({ SchemaFile.empty with services := names.map (⟨·, [], [], []⟩) },
    names.map (⟨·, "Get", .get, "/", [], [], none, ⟨"A", none, false⟩, ⟨"A", none, false⟩⟩))

/-- The second file has a conflict at its second service. Its first one has claimed nothing, so that
the third file can have its stem, and a fourth one cannot. -/
theorem claims_atomic_and_injective_retried :
    ∃ claims owners,
      claimEach [] [served ["User"], served ["Order", "UserService"], served ["Order"]] =
        (claims, owners) ∧
      claims = [("user", "User"), ("order", "Order")] ∧ (claims.map Prod.fst).Nodup ∧
      ∃ c, claimServices (served ["OrderService"]).1 (served ["OrderService"]).2 claims =
        .error c claims := by
  obtain ⟨-, -, hdistinct, hnext⟩ := @claims_atomic_and_injective
    [served ["User"], served ["Order", "UserService"], served ["Order"]] _ _ rfl
  refine ⟨_, _, rfl, by decide +kernel, hdistinct, ?_⟩
  refine (hnext (served ["OrderService"]).1 (served ["OrderService"]).2).1 (.inr ?_)
  exact ⟨_, List.mem_singleton_self _, by decide +kernel⟩

/-- Whether a service has a method with a rule. -/
def hasRule (s : Service) : Bool :=
  s.methods.any (·.rule.isSome)

/-- Claims go by the names of services. In the first file only one service has a method, but the
other one bears its name, so that the file fails. In the second file no service has a name, and two
of them claim the same stem. -/
theorem claims_go_by_names :
    (∃ f routes, Grammar.parse ⟨false, true⟩ ("service A \x7b rpc M(X) returns (Y) \x7b option " ++
        "(google.api.http) = \x7b get: \"/a\" \x7d; \x7d \x7d service A \x7b \x7d") = .ok f ∧
      Route.ofFile {} f = .ok routes ∧ f.services.map hasRule = [true, false] ∧
      ∃ c, claimServices f routes [] = .error c []) ∧
    ¬ ((routedServices (served ["", ""]).1 (served ["", ""]).2).map (stem ·.name)).Nodup ∧
      ∃ services claims,
        claimServices (served ["", ""]).1 (served ["", ""]).2 [] = .ok services claims := by
  have nameless : ∀ s ∈ routedServices (served ["", ""]).1 (served ["", ""]).2, s.name = "" := by
    decide +kernel
  have free : Free [] (routedServices (served ["", ""]).1 (served ["", ""]).2) :=
    ⟨List.pairwise_of_forall_mem_list fun s hs t _ => .of_nameless (nameless s hs), by simp⟩
  refine ⟨?_, by decide +kernel, _, _, claimServices_of_free free⟩
  obtain ⟨f, hread, htest⟩ := Grammar.exists_ok_of_toOption
    (x := Grammar.parse ⟨false, true⟩ ("service A \x7b rpc M(X) returns (Y) \x7b option " ++
      "(google.api.http) = \x7b get: \"/a\" \x7d; \x7d \x7d service A \x7b \x7d"))
    (b := true)
    (g := fun f => f.services.map hasRule = [true, false] &&
      (Route.ofFile {} f).toOption.any fun routes => !(claim [] f routes).isOk)
    (by decide +kernel)
  rw [Bool.and_eq_true] at htest
  cases hroutes : Route.ofFile {} f with
  | error e =>
      rw [hroutes] at htest
      cases htest.2
  | ok routes =>
      refine ⟨f, routes, hread, hroutes, of_decide_eq_true htest.1, ?_⟩
      rcases claimServices_cases [] f routes with ⟨-, hclaim⟩ | ⟨-, hconflict⟩
      · rw [hroutes] at htest
        simp [Except.toOption, claim, hclaim, Except.isOk, Except.toBool] at htest
      · exact hconflict

end ProtoRoutes.Scaffold
