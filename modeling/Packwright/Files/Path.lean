/-
  Paths as texts. A path is a list of names divided by slashes; a repeated or final slash, and a
  dot behind another name, divide or add nothing. A schema descriptor goes to the file at a path, or
  to the standard output.
-/

namespace Packwright

/-- A path as it was written. -/
abbrev Path := String

namespace Path

/-- The parts of a path between its slashes. -/
def split (cs : List Char) : List (List Char) :=
  cs.foldr (fun c parts =>
    if c = '/' then [] :: parts
    else match parts with
      | part :: rest => (c :: part) :: rest
      | [] => [[c]]) [[]]

/-- Whether a path starts at the root. -/
def isAbsolute (p : Path) : Bool := p.toList.head? = some '/'

/-- The names of a path, dots included. -/
def names (p : Path) : List String :=
  ((split p.toList).filter fun part => !part.isEmpty).map String.ofList

/-- Whether a path ends in a slash. -/
def hasFinalSlash (p : Path) : Bool := p.toList.getLast? = some '/'

/-- A path below another. An absolute path stands for itself. -/
def join (p q : Path) : Path :=
  if q.isAbsolute then q
  else if p.isEmpty || p.hasFinalSlash then p ++ q
  else p ++ "/" ++ q

/-- The reversed path without what stands behind its last name: slashes, and dots that follow a
slash. -/
def dropTail : List Char → List Char
  | [] => []
  | ['/'] => ['/']
  | '/' :: rest => dropTail rest
  | '.' :: '/' :: rest => dropTail ('/' :: rest)
  | cs => cs

/-- The path of the directory that the last name stands in; none for the root and the empty
path. -/
def parent? (p : Path) : Option Path :=
  match dropTail p.toList.reverse with
  | [] | ['/'] => none
  | cs => some (String.ofList (dropTail (cs.dropWhile (· ≠ '/'))).reverse)

/-- The last name of a path, if it names an entry of its directory. -/
def fileName? (p : Path) : Option String :=
  match dropTail p.toList.reverse with
  | [] | ['/'] | ['.'] | ['.', '.'] | '.' :: '.' :: '/' :: _ => none
  | cs => some (String.ofList (cs.takeWhile (· ≠ '/')).reverse)

/-- The path with another last name. -/
def withFileName (p : Path) (name : String) : Path :=
  match p.fileName?, p.parent? with
  | some _, some parent => join parent name
  | _, _ => join p name

/-- The path and the directories above it, innermost first. -/
def ancestors (p : Path) : List Path :=
  go (p.length + 1) p
where
  /-- At most `fuel` of them; each is shorter than the one before. -/
  go : Nat → Path → List Path
    | 0, _ => []
    | fuel + 1, p => p :: (p.parent?.map (go fuel)).getD []

end Path

/-- A destination of printed text. -/
inductive Destination where
  | standardOutput
  | file (p : Path)
deriving DecidableEq

namespace Destination

/-- The destination that a text names; a dash is the standard output. -/
def ofText (s : String) : Destination :=
  if s = "-" then standardOutput else file s

/-- The name of a destination in reports. -/
def text : Destination → String
  | standardOutput => "<stdout>"
  | file p => p

end Destination

end Packwright
