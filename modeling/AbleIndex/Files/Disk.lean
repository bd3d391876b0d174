import AbleIndex.Files.Path
import AbleIndex.Sorted.Map

namespace AbleIndex

abbrev Location := List String

inductive Node
  | directory
  | file (content : ByteArray)
  | link (target : String)
  deriving Inhabited

def Node.isDirectory : Node → Bool
  | directory => true
  | _ => false

/-- The entries of a disk. The root itself is always a directory and has no entry. -/
structure Disk where
  entries : SortedMap Location Node := ∅
  deriving Inhabited

inductive LookupError
  | notFound
  | notDirectory
  | tooManyLinks
  | nameTooLong
  | holdsNul
  | endsInSlash
  deriving DecidableEq

namespace Disk

def node? (d : Disk) : Location → Option Node
  | [] => some .directory
  | loc => d.entries.find? loc

def isDirectoryAt (d : Disk) (loc : Location) : Bool := (d.node? loc).any Node.isDirectory

def linkLimit : Nat := 40

def nameLimit : Nat := 255

def pathLimit : Nat := 4095

/-- Walks segments from a location up to the first link. Every segment needs a directory to start
from; only the last name may lead to nothing, and only if `fresh` is set. At a link, `follow` takes
over with the target in its place. -/
def walkUntilLink (d : Disk) (fresh : Bool)
    (follow : Location → List String → Except LookupError Location) (loc : Location) :
    List String → Except LookupError Location
  | [] => .ok loc
  | s :: rest =>
    if ¬ d.isDirectoryAt loc then .error .notDirectory
    else if s = "" ∨ s = "." then d.walkUntilLink fresh follow loc rest
    else if s = ".." then d.walkUntilLink fresh follow loc.dropLast rest
    else if fresh && rest ≠ [] && rest.all String.isEmpty then .error .endsInSlash
    else if nameLimit < s.utf8ByteSize then .error .nameTooLong
    else
      match d.node? (loc ++ [s]) with
      | none => if fresh && rest.isEmpty then .ok (loc ++ [s]) else .error .notFound
      | some (.link target) =>
        follow (if Path.isAbsolute target then [] else loc) (Path.segments target ++ rest)
      | some _ => d.walkUntilLink fresh follow (loc ++ [s]) rest

def walk (d : Disk) (fresh : Bool) : Nat → Location → List String → Except LookupError Location
  | 0 => d.walkUntilLink fresh fun _ _ => .error .tooManyLinks
  | links + 1 => d.walkUntilLink fresh (d.walk fresh links)

def reach (d : Disk) (loc : Location) (segments : List String) : Except LookupError Location :=
  d.walk false linkLimit loc segments

def locate (d : Disk) (cwd : Location) (s : String) : Except LookupError Location :=
  if s = "" then .error .notFound
  else if ¬ Path.isUsable s then .error .holdsNul
  else if pathLimit < s.utf8ByteSize then .error .nameTooLong
  else d.reach (if Path.isAbsolute s then [] else cwd) (Path.segments s)

def lookup (d : Disk) (cwd : Location) (s : String) : Except LookupError Node := do
  let loc ← d.locate cwd s
  match d.node? loc with
  | some n => .ok n
  | none => .error .notFound

def isDirectory (d : Disk) (cwd : Location) (s : String) : Bool :=
  match d.lookup cwd s with
  | .ok .directory => true
  | _ => false

def target (d : Disk) (loc : Location) : Except LookupError Node := do
  let loc ← d.reach loc.dropLast [loc.getLastD ""]
  match d.node? loc with
  | some n => .ok n
  | none => .error .notFound

def ancestors (loc : Location) : List Location :=
  (List.range (loc.length - 1)).map fun n => loc.take (n + 1)

def put (d : Disk) (loc : Location) (n : Node) : Disk :=
  let dirs := (ancestors loc).foldl
    (fun (es : SortedMap Location Node) a => es.alter a fun old => old.getD .directory) d.entries
  ⟨dirs.insert loc n⟩

end Disk

end AbleIndex
