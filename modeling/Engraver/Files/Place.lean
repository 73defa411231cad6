import Engraver.Files

/-!
# Places and paths

A path leads from the root when it begins with a slash, and from the working folder otherwise. Its
names are followed one by one: a point stays in the folder, two points go up, and the root lies above
itself.
-/

namespace Engraver

/-- What is found at the end of a path. -/
inductive Place where
  | file (bytes : ByteArray)
  | folder (entries : List (String × Place))

/-- A place on a walk, with the folders that the walk came through, the nearest first. -/
structure Location where
  here : Place
  above : List Place := []

namespace Location

def longestName : Nat := 255

def longestPath : Nat := 4095

/-- The names of a path, between its slashes. -/
def names : List Char → List (List Char)
  | [] => [[]]
  | c :: cs =>
    if c = '/' then [] :: names cs
    else
      match names cs with
      | name :: rest => (c :: name) :: rest
      | [] => [[c]]

/-- The root of the folders that a location lies in. -/
def root (l : Location) : Location :=
  ⟨l.above.getLast?.getD l.here, []⟩

/-- Follow one name. An empty name stands between two slashes, or behind the last one; like a point it
stays where it is, and like any name it leads on only from a folder. -/
def follow (l : Location) (name : String) : Except FileError Location :=
  match l.here with
  | .file _ => .error .notDirectory
  | .folder entries =>
    if name = "" ∨ name = "." then .ok l
    else if name = ".." then
      match l.above with
      | up :: above => .ok ⟨up, above⟩
      | [] => .ok l
    else if longestName < name.utf8ByteSize then .error .nameTooLong
    else
      match entries.lookup name with
      | some place => .ok ⟨place, l.here :: l.above⟩
      | none => .error .notFound

def read (l : Location) (path : String) : Contents :=
  if path.isEmpty then .error .notFound
  else if longestPath < path.utf8ByteSize then .error .nameTooLong
  else
    let cs := path.toList
    let start := if cs.head? = some '/' then l.root else l
    match (names cs).foldlM (fun l name => l.follow (.ofList name)) start with
    | .error cause => .error cause
    | .ok ⟨.file bytes, _⟩ => .ok bytes
    | .ok ⟨.folder _, _⟩ => .error .isDirectory

end Location

end Engraver
