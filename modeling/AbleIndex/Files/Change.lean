import AbleIndex.Files.Host

/-!
Changes to a disk. What is written to a file goes where the links on the way lead, also if the last of
them leads to nothing yet. Directories and links are made, and entries taken away, in the place that is
named.
-/

namespace AbleIndex

inductive ChangeError
  | lookup (e : LookupError)
  | taken
  | isDirectory
  deriving DecidableEq

namespace Disk

def place (d : Disk) (base : Location) (names : List String) : Except LookupError Location :=
  match names.getLast? with
  | none => .ok base
  | some name => do
    let dir ← d.reach base (names.dropLast ++ ["."])
    if ¬ Path.isUsable name then .error .holdsNul
    else if name = ".." then .ok dir.dropLast
    else if nameLimit < name.utf8ByteSize then .error .nameTooLong
    else .ok (dir ++ [name])

def make (d : Disk) (base : Location) (names : List String) (n : Node) : Except ChangeError Disk :=
  match d.place base names with
  | .error e => .error (.lookup e)
  | .ok loc => if (d.node? loc).isSome then .error .taken else .ok (d.put loc n)

def writeFile (d : Disk) (base : Location) (names : List String) (content : ByteArray) :
    Except ChangeError Disk :=
  if ¬ names.all Path.isUsable then .error (.lookup .holdsNul)
  else
    match d.walk true linkLimit base names with
    | .error e => .error (.lookup e)
    | .ok loc => if d.isDirectoryAt loc then .error .isDirectory else .ok (d.put loc (.file content))

def makeLink (d : Disk) (base : Location) (names : List String) (target : String) :
    Except ChangeError Disk :=
  if ¬ Path.isUsable target then .error (.lookup .holdsNul)
  else if target = "" then .error (.lookup .notFound)
  else if pathLimit < target.utf8ByteSize then .error (.lookup .nameTooLong)
  else d.make base names (.link target)

def leadsToDirectory (d : Disk) (base : Location) (names : List String) : Bool :=
  match d.reach base names with
  | .error _ => false
  | .ok loc => d.isDirectoryAt loc

def makeInside (d : Disk) (base : Location) (names : List String) :
    Disk × Except ChangeError Unit :=
  match d.make base names .directory with
  | .ok d => (d, .ok ())
  | .error e => (d, if d.leadsToDirectory base names then .ok () else .error e)

/-- Makes a directory after those above it. The names that lead to it are given last one first.
Directories that have been made stay when a later one cannot be made. -/
def makeDirectories (d : Disk) (base : Location) : List String → Disk × Except ChangeError Unit
  | [] => (d, .ok ())
  | name :: above =>
    let names := above.reverse ++ [name]
    if (d.reach base above.reverse).isOk then d.makeInside base names
    else
      match d.makeDirectories base above with
      | (d, .ok ()) | (d, .error .taken) => d.makeInside base names
      | (d, .error e) => (d, .error e)

def after (d : Disk) : Except ChangeError Disk → Disk × Except ChangeError Unit
  | .ok d => (d, .ok ())
  | .error e => (d, .error e)

def write (d : Disk) (base : Location) (names : List String) (n : Node) :
    Disk × Except ChangeError Unit :=
  let (d, made) := d.makeDirectories base names.dropLast.reverse
  match made, n with
  | .error e, _ => (d, .error e)
  | .ok (), .directory => d.makeDirectories base names.reverse
  | .ok (), .file content => d.after (d.writeFile base names content)
  | .ok (), .link target => d.after (d.makeLink base names target)

def remove (d : Disk) (base : Location) (names : List String) : Except ChangeError Disk :=
  match d.place base names with
  | .error e => .error (.lookup e)
  | .ok loc =>
    if (d.node? loc).isSome then .ok ⟨d.entries.filterKeys fun l => ¬ loc.isPrefixOf l⟩
    else .error (.lookup .notFound)

end Disk

namespace Host

def baseOf (h : Host) (p : Path) : Location :=
  match p.anchor with
  | .relative => h.cwd.parts
  | _ => []

def write (h : Host) (s : String) (n : Node) : Host × Except ChangeError Unit :=
  let p := Path.ofString s
  let (disk, r) := h.disk.write (h.baseOf p) p.parts n
  ({ h with disk }, r)

def remove (h : Host) (s : String) : Host × Except ChangeError Unit :=
  let p := Path.ofString s
  let (disk, r) := h.disk.after (h.disk.remove (h.baseOf p) p.parts)
  ({ h with disk }, r)

end Host

end AbleIndex
