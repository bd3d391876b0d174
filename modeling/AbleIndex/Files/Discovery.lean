import AbleIndex.Files.Host

namespace AbleIndex

def isHidden (name : String) : Bool := name.toList.head? = some '.'

def Settings.enters (s : Settings) (dir : String) : Bool := !isHidden dir && dir ∉ s.excludedDirs

def Settings.isSourceName (s : Settings) (name : String) : Bool :=
  s.sourceExtension.toList.isSuffixOf name.toList

namespace Disk

/-- Whether an entry of a directory can be read as a file of admissible size, which is told by its names alone
and not by the length of its path. Without a limit it is enough that it is no directory. -/
def isSourceEntry (d : Disk) (limit : Option Int) (loc : Location) : Bool :=
  match d.target loc, limit with
  | .ok .directory, _ => false
  | _, none => true
  | .ok (.file content), some n => (content.size : Int) ≤ n
  | _, some _ => false

def isVisibleSource (d : Disk) (s : Settings) (dir : Location) (name : String) : Bool :=
  !isHidden name && s.isSourceName name && d.isSourceEntry s.maxFileBytes (dir ++ [name])

def namesIn (d : Disk) (dir : Location) : List String :=
  d.entries.keys.filterMap fun entry => if entry.dropLast = dir then entry.getLast? else none

/-- Walks through a directory and those below it, as many levels down as are given, and lists the source
files as the names that lead to them. Each name is taken in its turn, and what lies below it comes before
the next one. There is no `pathLimit` here: a walk opens directories by their full paths, and one that lies
too deep for that is an error of the listing, as one that may not be opened is; disks have no such errors. -/
def walkSources (d : Disk) (s : Settings) : Nat → Location → List (List String)
  | 0, _ => []
  | levels + 1, dir =>
    (d.namesIn dir).flatMap fun name =>
      (if d.isVisibleSource s dir name then [[name]] else []) ++
        if s.enters name && d.isDirectoryAt (dir ++ [name]) then
          (d.walkSources s levels (dir ++ [name])).map (name :: ·)
        else []

def height (d : Disk) : Nat := d.entries.keys.foldr (fun entry n => max entry.length n) 0

def sourcesBelow (d : Disk) (s : Settings) (root : Location) : List (List String) :=
  d.walkSources s d.height root

end Disk

def Host.sourceFiles (h : Host) (s : Settings) (root : String) : List Path :=
  match h.disk.locate h.cwd.parts root with
  | .error _ => []
  | .ok loc =>
    if h.disk.isDirectoryAt loc then
      (h.disk.sourcesBelow s loc).map (Path.ofString root).append
    else []

def Host.listSources? (h : Host) (s : Settings) (root : String) : Option (List Path) :=
  if Path.isUsable root then some (h.sourceFiles s root) else none

end AbleIndex
