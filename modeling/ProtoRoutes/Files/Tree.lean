import ProtoRoutes.Files.Path

/-!
# ProtoRoutes.Files.Tree

A file tree as a value, with a working directory. Everything the program reads comes from a tree,
and everything it writes makes a new one. A directory has exactly one location, its components from
the top. A file may have several names (hard links): what is written under one of them is read under
all. There are no symbolic links.

A path is followed component by component: each one but the last must lead to a directory, also in
front of a `..`. The canonical location of a path is found with less: every component must be there,
but a `..` takes back the one in front of it even if that is a file.
-/

namespace ProtoRoutes.Files

/-- Where a file or directory is: the components of its path from the top. -/
abbrev Location := List String

/-- A location as text. -/
def Location.text (loc : Location) : String :=
  "/" ++ "/".intercalate loc

/-- What is at a location. -/
inductive Entry where
  | file (bytes : ByteArray)
  | directory

/-- Whether two entries are files with the same bytes, or directories. -/
def Entry.isSame : Entry → Entry → Bool
  | file a, file b => a.data.toList == b.data.toList
  | directory, directory => true
  | _, _ => false

/-- A file tree. -/
structure Tree where
  /-- The working directory. -/
  cwd : Location
  /-- The directories, and the files that have one name. -/
  entries : List (Location × Entry)
  /-- The names of the files that have several, each with the number of its file. -/
  links : List (Location × Nat) := []
  /-- The bytes of the files that have several names. -/
  shared : Nat → ByteArray := fun _ => .empty

/-- Why a tree cannot be changed as asked. -/
inductive Error where
  | exists
  | notFound
  | notDirectory
  | isDirectory
  deriving DecidableEq, Repr

namespace Tree

/-- The tree with nothing but a working directory. -/
def empty (cwd : Location) : Tree where
  cwd
  entries := (List.range cwd.length).map fun n => (cwd.take (n + 1), .directory)

/-- All names in a tree. -/
def names (t : Tree) : List Location :=
  (t.entries.map (·.1) ++ t.links.map (·.1)).eraseDups

/-- The number of the file at a location, if it has several names. -/
def number? (t : Tree) (loc : Location) : Option Nat :=
  if loc.isEmpty || (t.entries.lookup loc).isSome then none else t.links.lookup loc

/-- What is at a location. The top is a directory. -/
def find? (t : Tree) (loc : Location) : Option Entry :=
  if loc.isEmpty then some .directory
  else (t.entries.lookup loc).or ((t.links.lookup loc).map fun n => .file (t.shared n))

/-- Whether a directory is at a location. -/
def isDirectory (t : Tree) (loc : Location) : Bool :=
  match t.find? loc with
  | some .directory => true
  | _ => false

/-- Follows components from a location. -/
def follow (t : Tree) (loc : Location) : List String → Except Error Location
  | [] => if (t.find? loc).isSome then .ok loc else .error .notFound
  | part :: rest =>
    match t.find? loc with
    | none => .error .notFound
    | some (.file _) => .error .notDirectory
    | some .directory =>
      if part = "." then t.follow loc rest
      else if part = ".." then t.follow loc.dropLast rest
      else t.follow (loc ++ [part]) rest

/-- Whether components lead somewhere. -/
def leads (t : Tree) (loc : Location) (parts : List String) : Bool :=
  (t.follow loc parts).toOption.isSome

/-- Whether components lead to a directory. -/
def leadsToDirectory (t : Tree) (loc : Location) (parts : List String) : Bool :=
  (t.follow loc parts).toOption.any t.isDirectory

/-- Where a path starts. -/
def startOf (t : Tree) (p : Path) : Location :=
  if p.root.isEmpty then t.cwd else []

/-- The location that a path leads to, if something is there. -/
def resolve? (t : Tree) (p : Path) : Option Location :=
  (t.follow (t.startOf p) p.parts).toOption

/-- Makes components canonical, behind those of a location. -/
def canonicalFrom (t : Tree) (loc : Location) : List String → Option Location
  | [] => some loc
  | part :: rest =>
    if part = ".." then t.canonicalFrom loc.dropLast rest
    else if (t.find? (loc ++ [part])).isSome then t.canonicalFrom (loc ++ [part]) rest
    else none

/-- The canonical location of a path, if all its components are there. -/
def canonical? (t : Tree) (p : Path) : Option Location :=
  t.canonicalFrom (t.startOf p) p.parts

/-- The bytes of the file that a path leads to, if it is a file. -/
def bytes? (t : Tree) (p : Path) : Option ByteArray :=
  match (t.resolve? p).bind t.find? with
  | some (.file bytes) => some bytes
  | _ => none

/-- Whether a path leads to a file. -/
def isFile (t : Tree) (p : Path) : Bool :=
  (t.bytes? p).isSome

/-- Everything below a path whose name satisfies a test, as paths in the order of their texts. -/
def findBelow (t : Tree) (p : Path) (test : String → Bool) : List String :=
  match t.resolve? p with
  | none => []
  | some loc =>
    let below := t.names.filter fun l =>
      loc.isPrefixOf l && loc.length < l.length && test (l.getLast?.getD "")
    (below.map fun l => (p.join ⟨"", l.drop loc.length⟩).text).mergeSort

/-- What is in a tree and not in another one, or not with the same content. -/
def differences (old new : Tree) : List (Location × Entry) :=
  (new.names.filterMap fun loc => (new.find? loc).map (loc, ·)).filter fun (loc, e) =>
    !(old.find? loc).any e.isSame

/-! ### Changes -/

/-- The tree with an entry at a location. -/
def put (t : Tree) (loc : Location) (e : Entry) : Tree :=
  if (t.entries.lookup loc).isSome then
    { t with entries := t.entries.map fun (l, old) => if l = loc then (l, e) else (l, old) }
  else { t with entries := t.entries ++ [(loc, e)] }

/-- The tree with these bytes in the file at a location, under all of its names. A file that is not
there yet gets this one name. -/
def store (t : Tree) (loc : Location) (bytes : ByteArray) : Tree :=
  match t.number? loc with
  | some n => { t with shared := fun k => if k = n then bytes else t.shared k }
  | none => t.put loc (.file bytes)

/-- The tree without a name. -/
def remove (t : Tree) (loc : Location) : Tree :=
  { t with entries := t.entries.filter (·.1 ≠ loc), links := t.links.filter (·.1 ≠ loc) }

/-- A change of a tree. What was done before an error stays. -/
abbrev Change := EStateM Error Tree

/-- Makes the directory that components lead to, in one that is there already. The directories `.`
and `..` are there already themselves. -/
def makeDirectory (start : Location) (parts : List String) : Change Unit := fun t =>
  match parts.getLast?, t.follow start parts.dropLast with
  | none, _ => .error .exists t
  | some _, .error e => .error e t
  | some name, .ok parent =>
    if !t.isDirectory parent then .error .notDirectory t
    else if [".", ".."].contains name || (t.find? (parent ++ [name])).isSome then .error .exists t
    else .ok () (t.put (parent ++ [name]) .directory)

/-- Makes the directory that components lead to, unless there is one. -/
def ensureDirectory (start : Location) (parts : List String) : Change Unit := fun t =>
  match makeDirectory start parts t with
  | .ok _ t => .ok () t
  | .error e t => if t.leadsToDirectory start parts then .ok () t else .error e t

/-- Makes a change, where it is no error that something is there already. -/
def tolerateExisting (x : Change Unit) : Change Unit := fun t =>
  match x t with
  | .error .exists t => .ok () t
  | result => result

/-- Makes the directory that components lead to, which are given from the last to the first. What is
above it is made first if it is missing; a file in its way is only noticed when something is put
into it, and a dot at the end puts nothing there. -/
def ensureAll (start : Location) : List String → Change Unit
  | [] => pure ()
  | name :: above => do
    let parts := (name :: above).reverse
    if above.isEmpty || (← get).leads start above.reverse then ensureDirectory start parts
    else
      tolerateExisting (ensureAll start above)
      if name = "." then pure () else ensureDirectory start parts

/-- Makes a directory and those above it, where they are missing. -/
def makeDirectories (directory : String) : Change Unit := do
  if directory.isEmpty then throw .notFound
  else ensureAll ((← get).startOf (.ofText directory)) (Path.pieces directory).reverse

/-- Writes a file into a directory that is there already. -/
def write (p : Path) (bytes : ByteArray) : Change Unit := fun t =>
  match t.follow (t.startOf p) p.parts.dropLast with
  | .error e => .error e t
  | .ok parent =>
    let loc := parent ++ p.parts.getLast?.toList
    if !t.isDirectory parent then .error .notDirectory t
    else if t.isDirectory loc then .error .isDirectory t
    else .ok () (t.store loc bytes)

/-- Writes a file and makes the directories above it. -/
def addFile (p : Path) (bytes : ByteArray) : Change Unit := do
  ensureAll ((← get).startOf p) p.parts.dropLast.reverse
  write p bytes

end Tree

end ProtoRoutes.Files
