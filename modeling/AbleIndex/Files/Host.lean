import AbleIndex.Files.Disk
import AbleIndex.Settings

namespace AbleIndex

structure Host where
  disk : Disk := {}
  cwd : Path := ⟨.slash, []⟩
  home : String := "/"
  homes : List (String × String) := []
  env : Environment := []
  /-- The characters that standard output takes. -/
  encodes : Char → Bool := fun _ => true
  cwdResolved : cwd.IsResolved := by decide +kernel

instance : Inhabited Host := ⟨{}⟩

inductive ReadError
  | lookup (e : LookupError)
  | isDirectory
  | undecodable
  deriving DecidableEq

namespace Host

def withDisk (h : Host) (d : Disk) : Host := { h with disk := d }

def absolute (h : Host) (s : String) : Path := Path.absolute h.cwd s

theorem isResolved_absolute (h : Host) (s : String) : (h.absolute s).IsResolved :=
  Path.isResolved_absolute h.cwdResolved s

def lookup (h : Host) (s : String) : Except LookupError Node := h.disk.lookup h.cwd.parts s

def isDirectory (h : Host) (s : String) : Bool := h.disk.isDirectory h.cwd.parts s

def homeOf? (h : Host) (user : String) : Option String :=
  if user = "" then some h.home else h.homes.lookup user

/-- A tilde stands for the home directory of the user named behind it, up to a slash. Before a user who
is not known it stands for itself, and a name that no user can have gives no path. -/
def expandHome? (h : Host) (s : String) : Option String :=
  match s.toList with
  | '~' :: rest =>
    let user := String.ofList (rest.takeWhile (· ≠ '/'))
    if ¬ Path.isUsable user then none
    else match h.homeOf? user with
      | none => some s
      | some home =>
        let base := (home.toList.reverse.dropWhile (· = '/')).reverse
        let text := base ++ rest.dropWhile (· ≠ '/')
        some (if text = [] then "/" else String.ofList text)
  | _ => some s

def decode (content : ByteArray) : Except ReadError String :=
  match String.fromUTF8? content with
  | some s => .ok (String.ofList (Text.unifyLineEnds s.toList))
  | none => .error .undecodable

def readText (h : Host) (s : String) : Except ReadError String :=
  match h.lookup s with
  | .error e => .error (.lookup e)
  | .ok (.file content) => decode content
  | .ok _ => .error .isDirectory

def read (h : Host) (p : Path) : Except ReadError String := h.readText p.text

/-- The path without links that leads to the same entry; one that leads nowhere is only made
absolute. -/
def realPath (h : Host) (s : String) : Path :=
  match h.disk.locate h.cwd.parts s with
  | .ok loc => ⟨.slash, loc⟩
  | .error _ => h.absolute s

end Host

end AbleIndex
