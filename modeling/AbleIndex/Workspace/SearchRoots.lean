import AbleIndex.Files.Host

namespace AbleIndex

inductive RootError
  | impossibleUser
  deriving DecidableEq

namespace Host

def workspaceRoot? (h : Host) : Option String → Option Path
  | none => none
  | some s => if s = "" then none else some (h.absolute s)

/-- A configured directory: the home directory is filled in, and what is relative goes on from the
workspace, or from the current directory if there is none. -/
def configuredRoot (h : Host) (workspace : Option Path) (s : String) : Except RootError Path :=
  match h.expandHome? s, workspace with
  | none, _ => .error .impossibleUser
  | some s, some root =>
    .ok (if Path.isAbsolute s then h.absolute s else h.absolute (Path.join root.text s))
  | some s, none => .ok (h.absolute s)

def libraryRoot? (h : Host) (s : Settings) (workspace : Path) : Option String :=
  let lib := Path.join workspace.text s.libraryDir
  if h.isDirectory lib then some lib else none

/-- The path texts of the search roots, each at its first occurrence. All but the workspace have to
exist. -/
def searchRootTexts (h : Host) (s : Settings) (workspace : Option Path) :
    Except RootError (List String) := do
  let configured ← (s.searchPaths ++ s.variablePaths h.env).mapM (h.configuredRoot workspace)
  let own := match workspace with
    | none => []
    | some root => root.text :: (h.libraryRoot? s root).toList
  return (own ++ (configured.map Path.text).filter h.isDirectory).eraseDups

def searchRoots (h : Host) (s : Settings) (workspace : Option Path) :
    Except RootError (List Path) :=
  (h.searchRootTexts s workspace).map (·.map Path.ofString)

end Host

end AbleIndex
