import ProtoRoutes.Proofs.Files.Names
import ProtoRoutes.Schema.TypeRef

/-!
# ProtoRoutes.Proofs.Schema.TypeRefs

How the name of a type is divided into a package and a type. The segments of the name fall into a
front without any that starts in upper case, and a back that does so or is the last segment alone
(`Parts`). Every list of segments falls apart in this way, and in no other, so the division can be
read off the two parts of a reference (`Divided`), and dividing the name again changes nothing.
-/

namespace ProtoRoutes.TypeRef

/-- A reference that is divided where its type begins: no segment of the package starts in upper
case, and the type is one segment or starts in upper case. A package is not empty. -/
structure Divided (r : TypeRef) : Prop where
  package_ne_empty : r.package ≠ some ""
  package : ∀ p, r.package = some p → ∀ segment ∈ p.toList.splitOn '.', startsUpper segment = false
  name : '.' ∉ r.name.toList ∨ startsUpper r.name.toList = true

/-! ### Segments -/

/-- The segments of a package and those of a type. -/
structure Parts (front back : List (List Char)) : Prop where
  front_lower : ∀ s ∈ front, startsUpper s = false
  back_start : (∃ s, back = [s]) ∨ ∃ s rest, back = s :: rest ∧ startsUpper s = true

variable {front back : List (List Char)}

theorem Parts.back_ne_nil (h : Parts front back) : back ≠ [] := by
  rcases h.back_start with ⟨s, rfl⟩ | ⟨s, rest, rfl, -⟩ <;> simp

theorem exists_parts {segments : List (List Char)} (h : segments ≠ []) :
    ∃ front back, segments = front ++ back ∧ Parts front back := by
  induction segments with
  | nil => exact absurd rfl h
  | cons s rest ih =>
      by_cases hupper : startsUpper s = true
      · exact ⟨[], s :: rest, rfl, by simp, .inr ⟨s, rest, rfl, hupper⟩⟩
      · cases rest with
        | nil => exact ⟨[], [s], rfl, by simp, .inl ⟨s, rfl⟩⟩
        | cons t rest =>
            obtain ⟨front, back, hsplit, parts⟩ := ih (by simp)
            refine ⟨s :: front, back, by rw [hsplit, List.cons_append], ?_, parts.back_start⟩
            exact List.forall_mem_cons.mpr ⟨by simpa using hupper, parts.front_lower⟩

/-- The search for the first segment in upper case stops where the back begins. -/
theorem Parts.start_eq (h : Parts front back) :
    ((front ++ back).findIdx? startsUpper).getD ((front ++ back).length - 1) = front.length := by
  have passed : front.findIdx? startsUpper = none := List.findIdx?_eq_none_iff.mpr h.front_lower
  rw [List.findIdx?_append, passed, Option.none_or]
  rcases h.back_start with ⟨s, rfl⟩ | ⟨s, rest, rfl, hs⟩
  · cases hs : startsUpper s <;> simp [List.findIdx?_cons, hs]
  · simp [List.findIdx?_cons, hs]

/-! ### Names and their segments -/

theorem dotted_splitOn (text : String) : dotted (text.toList.splitOn '.') = text := by
  rw [dotted, List.intercalate_splitOn, String.ofList_toList]

theorem splitOn_dotted {segments : List (List Char)} (hne : segments ≠ [])
    (h : ∀ s ∈ segments, '.' ∉ s) :
    (dotted segments).toList.splitOn '.' = segments := by
  rw [dotted, String.toList_ofList, List.splitOn_intercalate '.' h hne]

/-- The segments of the package. -/
def packageSegments (r : TypeRef) : List (List Char) :=
  (r.package.map fun p => p.toList.splitOn '.').getD []

theorem splitOn_fullName {r : TypeRef} (h : r.package ≠ some "") :
    r.fullName.toList.splitOn '.' = r.packageSegments ++ r.name.toList.splitOn '.' := by
  unfold fullName packageSegments
  cases hp : r.package with
  | none => simp
  | some p =>
      have named : p ≠ "" := fun hempty => h (hempty ▸ hp)
      simp only [if_neg named, String.toList_append, List.append_assoc, Option.map_some,
        Option.getD_some]
      exact List.splitOn_append_cons_self _ _

/-- The first segment of a text starts with its first character, if this is no dot. -/
theorem exists_splitOn_cons {c : Char} (hc : c ≠ '.') (cs : List Char) :
    ∃ first others, (c :: cs).splitOn '.' = (c :: first) :: others := by
  obtain ⟨first, others, hsplit⟩ := List.exists_cons_of_ne_nil (List.splitOn_ne_nil '.' cs)
  refine ⟨first, others, ?_⟩
  rw [List.splitOn_cons_eq_if_modifyHead, if_neg (by simpa using hc), hsplit, List.modifyHead_cons]

/-! ### References from their parts -/

/-- The reference with these segments. -/
def ofParts (stream : Bool) (front back : List (List Char)) : TypeRef :=
  ⟨dotted back, if front.length = 0 then none else some (dotted front), stream⟩

theorem parse_eq_ofParts {name : String} (stream : Bool)
    (hsegments : (name.toList.dropWhile (· = '.')).splitOn '.' = front ++ back)
    (h : Parts front back) :
    parse stream name = ofParts stream front back := by
  simp only [parse, hsegments, h.start_eq, List.take_left, List.drop_left, ofParts]

/-- A dotted name starts in upper case if its first segment does. -/
theorem startsUpper_dotted {s : List Char} (rest : List (List Char)) (h : startsUpper s = true) :
    startsUpper (dotted (s :: rest)).toList = true := by
  cases s with
  | nil => cases h
  | cons c cs =>
      rw [dotted, String.toList_ofList]
      cases rest with
      | nil => simpa [List.intercalate] using h
      | cons t rest => simpa [List.intercalate, startsUpper] using h

section

variable {cs : List Char} (hsegments : cs.splitOn '.' = front ++ back)

include hsegments

theorem splitOn_package {stream : Bool} {p : String}
    (hp : (ofParts stream front back).package = some p) :
    p.toList.splitOn '.' = front ∧ front ≠ [] := by
  by_cases hfront : front.length = 0
  · simp [ofParts, hfront] at hp
  · have hne : front ≠ [] := by simpa using hfront
    simp only [ofParts, if_neg hfront, Option.some.injEq] at hp
    rw [← hp]
    exact ⟨splitOn_dotted hne fun s hs =>
      Files.notMem_of_mem_splitOn (hsegments ▸ List.mem_append_left _ hs),
      hne⟩

/-- A package is not empty: its first segment starts with the first character of the name, which is
no dot. -/
theorem package_ne_empty_ofParts (hdot : cs.head? ≠ some '.') (stream : Bool)
    (h : Parts front back) :
    (ofParts stream front back).package ≠ some "" := by
  intro hempty
  obtain ⟨hfront, hne⟩ := splitOn_package hsegments hempty
  have single : front = [[]] := by rw [← hfront]; rfl
  cases cs with
  | nil => simp [single, h.back_ne_nil] at hsegments
  | cons c cs =>
      obtain ⟨first, others, hsplit⟩ := exists_splitOn_cons (by simpa using hdot) cs
      simp [hsplit, single] at hsegments

theorem divided_ofParts (hdot : cs.head? ≠ some '.') (stream : Bool) (h : Parts front back) :
    (ofParts stream front back).Divided where
  package_ne_empty := package_ne_empty_ofParts hsegments hdot stream h
  package := by
    intro p hp segment hsegment
    exact h.front_lower segment ((splitOn_package hsegments hp).1 ▸ hsegment)
  name := by
    rcases h.back_start with ⟨s, rfl⟩ | ⟨s, rest, rfl, hs⟩
    · left
      have member : s ∈ cs.splitOn '.' := by simp [hsegments]
      have undotted : '.' ∉ s := Files.notMem_of_mem_splitOn member
      simpa [ofParts, dotted, List.intercalate] using undotted
    · exact .inr (startsUpper_dotted rest hs)

theorem fullName_ofParts (hdot : cs.head? ≠ some '.') (stream : Bool) (h : Parts front back) :
    (ofParts stream front back).fullName.toList = cs := by
  have undotted : ∀ s ∈ back, '.' ∉ s := fun s hs =>
    Files.notMem_of_mem_splitOn (hsegments ▸ List.mem_append_right _ hs)
  have inFront : (ofParts stream front back).packageSegments = front := by
    unfold packageSegments
    cases hp : (ofParts stream front back).package with
    | none =>
        have hnil : front.length = 0 := by
          by_cases hfront : front.length = 0
          · exact hfront
          · simp [ofParts, hfront] at hp
        rw [List.eq_nil_of_length_eq_zero hnil]
        rfl
    | some p => exact (splitOn_package hsegments hp).1
  have joined := splitOn_fullName (package_ne_empty_ofParts hsegments hdot stream h)
  rw [inFront, show (ofParts stream front back).name = dotted back from rfl,
    splitOn_dotted h.back_ne_nil undotted, ← hsegments] at joined
  have whole := congrArg (['.'].intercalate) joined
  rwa [List.intercalate_splitOn, List.intercalate_splitOn] at whole

end

/-! ### Parts from references -/

theorem Divided.parts {r : TypeRef} (h : r.Divided) :
    Parts r.packageSegments (r.name.toList.splitOn '.') where
  front_lower := by
    intro s hs
    unfold packageSegments at hs
    cases hp : r.package with
    | none => simp [hp] at hs
    | some p => exact h.package p hp s (by simpa [hp] using hs)
  back_start := by
    rcases h.name with hdot | hupper
    · exact .inl ⟨_, List.splitOn_eq_singleton hdot⟩
    · right
      cases hname : r.name.toList with
      | nil => rw [hname] at hupper; cases hupper
      | cons c cs =>
          rw [hname] at hupper
          have letter : c ≠ '.' := by
            rintro rfl
            exact absurd (show Text.isUpper '.' = true from hupper) (by decide)
          obtain ⟨first, others, hsplit⟩ := exists_splitOn_cons letter cs
          exact ⟨c :: first, others, hsplit, hupper⟩

theorem ofParts_segments (r : TypeRef) :
    ofParts r.stream r.packageSegments (r.name.toList.splitOn '.') = r := by
  obtain ⟨name, package, stream⟩ := r
  cases package with
  | none => simp [ofParts, packageSegments, dotted_splitOn]
  | some p => simp [ofParts, packageSegments, dotted_splitOn, List.splitOn_ne_nil]

/-- **A divided reference is what its name makes.** -/
theorem Divided.parse_fullName {r : TypeRef} (h : r.Divided)
    (hdot : r.fullName.toList.head? ≠ some '.') :
    parse r.stream r.fullName = r := by
  have unrooted : r.fullName.toList.dropWhile (· = '.') = r.fullName.toList := by
    cases hname : r.fullName.toList with
    | nil => rfl
    | cons c cs =>
        rw [hname, List.head?_cons] at hdot
        have hc : c ≠ '.' := fun hc => hdot (by rw [hc])
        simp [hc]
  have hsegments := splitOn_fullName h.package_ne_empty
  rw [← unrooted] at hsegments
  rw [parse_eq_ofParts r.stream hsegments h.parts, ofParts_segments]

/-! ### Splitting loses nothing -/

theorem head?_dropWhile_dot (cs : List Char) : (cs.dropWhile (· = '.')).head? ≠ some '.' := by
  intro h
  have := List.head?_dropWhile_not (· = '.') cs
  simp [h] at this

theorem parse_divided (stream : Bool) (name : String) :
    (parse stream name).Divided ∧
      (parse stream name).fullName.toList = name.toList.dropWhile (· = '.') := by
  have hdot := head?_dropWhile_dot name.toList
  obtain ⟨front, back, hsplit, parts⟩ :=
    exists_parts (List.splitOn_ne_nil '.' (name.toList.dropWhile (· = '.')))
  rw [parse_eq_ofParts stream hsplit parts]
  exact ⟨divided_ofParts hsplit hdot stream parts, fullName_ofParts hsplit hdot stream parts⟩

/-- **Splitting a type name loses nothing.** Package and type put together are the name without the
dots in front of it, and this name makes the same reference again. No segment of the package starts
in upper case, and the type is one segment or starts in upper case. There is no other reference of
which this is true. -/
theorem parse_divides_uniquely (stream : Bool) (name : String) :
    (∃ dots, name.toList = List.replicate dots '.' ++ (parse stream name).fullName.toList) ∧
      (parse stream name).fullName.toList.head? ≠ some '.' ∧
      parse stream (parse stream name).fullName = parse stream name ∧
      (∀ p, (parse stream name).package = some p →
        ∀ segment ∈ p.toList.splitOn '.', startsUpper segment = false) ∧
      ('.' ∉ (parse stream name).name.toList ∨ startsUpper (parse stream name).name.toList = true) ∧
      ∀ r : TypeRef, r.stream = stream → r.fullName = (parse stream name).fullName → r.Divided →
        r = parse stream name := by
  obtain ⟨divided, full⟩ := parse_divided stream name
  have start : (parse stream name).fullName.toList.head? ≠ some '.' :=
    full ▸ head?_dropWhile_dot name.toList
  have again : parse stream (parse stream name).fullName = parse stream name :=
    divided.parse_fullName start
  refine ⟨⟨(name.toList.takeWhile (· = '.')).length, ?_⟩, start, again, divided.package,
    divided.name, ?_⟩
  · have dots : name.toList.takeWhile (· = '.') =
        List.replicate (name.toList.takeWhile (· = '.')).length '.' := by
      rw [List.eq_replicate_iff]
      exact ⟨rfl, fun c hc => by simpa using List.all_eq_true.mp List.all_takeWhile c hc⟩
    rw [full, ← dots, List.takeWhile_append_dropWhile]
  · rintro r rfl hfull hr
    rw [← again, ← hfull, hr.parse_fullName (hfull ▸ start)]

/-- Empty segments, and dots at both ends. -/
theorem parse_divides_awkward :
    (parse false "..a..B.c.").package = some "a." ∧
      (∀ segment ∈ "a.".toList.splitOn '.', startsUpper segment = false) ∧
      TypeRef.fullName ⟨"B.c.", some "a.", false⟩ = (parse false "..a..B.c.").fullName ∧
      ⟨"B.c.", some "a.", false⟩ = parse false "..a..B.c." := by
  obtain ⟨-, -, -, lower, -, unique⟩ := parse_divides_uniquely false "..a..B.c."
  have package : (parse false "..a..B.c.").package = some "a." := by decide +kernel
  have full : TypeRef.fullName ⟨"B.c.", some "a.", false⟩ = (parse false "..a..B.c.").fullName := by
    decide +kernel
  refine ⟨package, lower "a." package, full, unique _ rfl full ⟨by decide, ?_, .inr (by decide)⟩⟩
  rintro p ⟨⟩
  exact lower "a." package

end ProtoRoutes.TypeRef
