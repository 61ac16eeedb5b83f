import Packwright.Bytes
import Packwright.Files.OsError
import Packwright.Files.Path

/-
  A file system as a map from locations to files and directories. The operations follow POSIX:
  every name on the way to an entry has to be a directory, and only the last step differs.
  A name is looked up when the walk reaches it, so a name that is too long does not hide what is
  wrong before it.

  The map starts at the working directory. The directories above it and the root of the file
  system are there as well, and nothing is known of what they hold.
-/

namespace Packwright

/-- A file or a directory. -/
inductive FileNode where
  | file (content : Bytes)
  | directory
deriving DecidableEq

/-- The names from the working directory to an entry, innermost first. Above the working directory
the outermost names are pairs of dots, and below the root of the file system it is a slash. -/
abbrev Location := List String

namespace Location

/-- The root of the file system. -/
def root : Location := ["/"]

/-- Whether a location is the working directory or one above it. -/
def isAbove (l : Location) : Bool := l.all (· == "..")

/-- Whether a location is a directory that is there without an entry of its own. -/
def isGiven (l : Location) : Bool := l == root || isAbove l

/-- The directory above a location. The root is its own. -/
def parent (l : Location) : Location :=
  if l == root then l else if isAbove l then ".." :: l else l.tail

end Location

/-- A file system. -/
structure FileTree where
  entries : List (Location × FileNode) := []

namespace FileTree

/-- The file or directory at a location. -/
def get? (t : FileTree) (l : Location) : Option FileNode :=
  if Location.isGiven l then some .directory else t.entries.lookup l

/-- The file system without the entry at a location. -/
def erase (t : FileTree) (l : Location) : FileTree :=
  ⟨t.entries.filter fun e => e.1 ≠ l⟩

/-- The file system with an entry at a location. -/
def set (t : FileTree) (l : Location) (node : FileNode) : FileTree :=
  ⟨(l, node) :: (t.erase l).entries⟩

theorem lookup_filter_ne {entries : List (Location × FileNode)} {l m : Location} (h : m ≠ l) :
    (entries.filter fun e => e.1 ≠ l).lookup m = entries.lookup m := by
  induction entries with
  | nil => rfl
  | cons e rest ih =>
    by_cases he : e.1 = l
    · have hm : (m == e.1) = false := by simpa [he] using h
      rw [List.filter_cons_of_neg (by simpa using he), ih, List.lookup_cons, hm]
    · rw [List.filter_cons_of_pos (by simpa using he), List.lookup_cons, List.lookup_cons, ih]

/-- Removing an entry leaves the others. -/
theorem get?_erase_of_ne (t : FileTree) {l m : Location} (h : m ≠ l) :
    (t.erase l).get? m = t.get? m := by
  unfold get? erase
  rw [lookup_filter_ne h]

/-- Setting an entry leaves the others. -/
theorem get?_set_of_ne (t : FileTree) (node : FileNode) {l m : Location} (h : m ≠ l) :
    (t.set l node).get? m = t.get? m := by
  have hm : (m == l) = false := by simpa using h
  unfold get? set erase
  rw [List.lookup_cons, hm, lookup_filter_ne h]

/-- An entry that was set is there, unless its location is given. -/
theorem get?_set_self (t : FileTree) {l : Location} (node : FileNode)
    (h : Location.isGiven l = false) : (t.set l node).get? l = some node := by
  simp [get?, set, h]

/-- The most bytes that a name can have. -/
def nameLimit : Nat := 255

/-- The number of bytes that a path stays below. -/
def pathLimit : Nat := 4096

/-- Whether there can be an entry of a name. -/
def checkName (name : String) : Except OsError Unit :=
  if name.utf8ByteSize ≤ nameLimit then .ok () else .error .nameTooLong

/-- Whether a location is a directory. -/
def checkDirectory (t : FileTree) (l : Location) : Except OsError Unit :=
  match t.get? l with
  | some .directory => .ok ()
  | some (.file _) => .error .notDirectory
  | none => .error .notFound

/-- Goes from a directory through a name. -/
def enter (t : FileTree) (l : Location) (name : String) : Except OsError Location := do
  t.checkDirectory l
  if name = "." then return l
  else if name = ".." then return Location.parent l
  else
    checkName name
    return name :: l

/-- What the last name of a path says. -/
inductive LastName where
  /-- An entry of the directory. -/
  | entry (name : String)
  /-- The directory itself or the one above it. -/
  | dots

/-- Where a path leads: the directory that its last name stands in, and that name. -/
structure Target where
  directory : Location
  last : LastName
  hasFinalSlash : Bool

/-- Where a target is. -/
def Target.location (t : Target) : Location :=
  match t.last with
  | .entry name => name :: t.directory
  | .dots => t.directory

/-- Whether the last name of a target can be looked up. -/
def Target.checkName (t : Target) : Except OsError Unit :=
  match t.last with
  | .entry name => FileTree.checkName name
  | .dots => .ok ()

/-- Whether a path can be followed at all. -/
def checkPath (p : Path) : Except OsError Unit :=
  if p.toList.contains '\x00' then .error .containsNul
  else if p.utf8ByteSize < pathLimit then .ok ()
  else .error .nameTooLong

/-- Follows a path up to its last name, which is not looked up. -/
def follow (t : FileTree) (p : Path) : Except OsError Target := do
  checkPath p
  let start := if p.isAbsolute then Location.root else []
  match p.names.reverse with
  | [] => if p.isAbsolute then return ⟨start, .dots, true⟩ else throw .notFound
  | last :: above =>
    let directory ← above.reverse.foldlM t.enter start
    if last = "." ∨ last = ".." then
      return ⟨← t.enter directory last, .dots, p.hasFinalSlash⟩
    else
      t.checkDirectory directory
      return ⟨directory, .entry last, p.hasFinalSlash⟩

/-- The file or directory that a path leads to. -/
def find (t : FileTree) (p : Path) : Except OsError FileNode := do
  let target ← t.follow p
  target.checkName
  match t.get? target.location with
  | none => throw .notFound
  | some .directory => return .directory
  | some node => if target.hasFinalSlash then throw .notDirectory else return node

/-- Whether a path leads to something. -/
def contains (t : FileTree) (p : Path) : Bool :=
  match t.find p with
  | .ok _ => true
  | .error _ => false

/-- Whether a path leads to a directory. -/
def isDirectory (t : FileTree) (p : Path) : Bool :=
  match t.find p with
  | .ok .directory => true
  | _ => false

/-- The content of a file. -/
def read (t : FileTree) (p : Path) : Except OsError Bytes := do
  match ← t.find p with
  | .file content => .ok content
  | .directory => .error .isDirectory

/-- Writes a file, which is created if there is none. -/
def write (t : FileTree) (p : Path) (content : Bytes) : Except OsError FileTree := do
  let target ← t.follow p
  match target.last with
  | .dots => throw .isDirectory
  | .entry name =>
    if target.hasFinalSlash then throw .isDirectory
    checkName name
    match t.get? target.location with
    | some .directory => throw .isDirectory
    | _ => return t.set target.location (.file content)

/-- Creates a directory. -/
def makeDirectory (t : FileTree) (p : Path) : Except OsError FileTree := do
  let target ← t.follow p
  target.checkName
  match target.last, t.get? target.location with
  | .entry _, none => .ok (t.set target.location .directory)
  | _, _ => .error .alreadyExists

/-- Creates a directory, unless it is there. -/
def ensureDirectory (t : FileTree) (p : Path) : Except OsError Unit × FileTree :=
  match t.makeDirectory p with
  | .ok t => (.ok (), t)
  | .error e => (if t.isDirectory p then .ok () else .error e, t)

/-- Creates the directories of a list of paths, each of which is above the one before, unless
they are there. Those that were created before a failure stay. -/
def makeChain (t : FileTree) : List Path → Except OsError Unit × FileTree
  | [] => (.ok (), t)
  | p :: above =>
    if p.isEmpty then (.ok (), t)
    else match t.makeDirectory p with
      | .error .notFound =>
        match makeChain t above with
        | (.ok _, t) => t.ensureDirectory p
        | failure => failure
      | _ => t.ensureDirectory p

/-- Creates a directory and those above it, unless they are there. -/
def makeDirectories (t : FileTree) (p : Path) : Except OsError Unit × FileTree :=
  t.makeChain p.ancestors

/-- Moves a file over another. -/
def rename (t : FileTree) (source target : Path) : Except OsError FileTree := do
  let origin ← t.follow source
  let goal ← t.follow target
  match origin.last, goal.last with
  | .entry _, .entry _ =>
    origin.checkName
    match t.get? origin.location with
    | none => throw .notFound
    | some .directory => throw .isDirectory
    | some node =>
      goal.checkName
      if origin.hasFinalSlash || goal.hasFinalSlash then throw .notDirectory
      match t.get? goal.location with
      | some .directory => throw .isDirectory
      | _ => return (t.erase origin.location).set goal.location node
  | _, _ => throw .busy

/-- Removes a file. -/
def remove (t : FileTree) (p : Path) : Except OsError FileTree := do
  let target ← t.follow p
  target.checkName
  match t.get? target.location with
  | none => .error .notFound
  | some .directory => .error .isDirectory
  | some _ => if target.hasFinalSlash then .error .notDirectory else .ok (t.erase target.location)

end FileTree

end Packwright
