import AbleIndex.Symbols.Extractor
import AbleIndex.Workspace.ModuleName
import AbleIndex.Workspace.SearchRoots

/-!
The index of a workspace: the modules found so far, each with its names and its file, and for every
file the module it was stored as. When two files have the same module name the later one counts.
-/

namespace AbleIndex

structure ModuleEntry where
  name : String
  symbols : SymbolTable
  file : String
  deriving DecidableEq, Inhabited

structure Workspace where
  settings : Settings := {}
  root : Option Path := none
  searchRoots : List Path := []
  modules : NameMap ModuleEntry := ∅
  fileModules : NameMap String := ∅
  deriving DecidableEq, Inhabited

namespace Workspace

/-- Changes the settings, the workspace directory or neither, and looks up the search roots anew.
Where they cannot be told the old ones stay. -/
def configure (h : Host) (w : Workspace) (root : Option Path) (settings : Option Settings) :
    Workspace × Except RootError Unit :=
  let root := root.or w.root
  let settings := settings.getD w.settings
  match h.searchRoots settings root with
  | .ok searchRoots => ({ w with root, settings, searchRoots }, .ok ())
  | .error e => ({ w with root, settings }, .error e)

def new (h : Host) (settings : Settings) : Except RootError Workspace :=
  (h.searchRoots settings none).map fun searchRoots => { settings, searchRoots }

def clear (w : Workspace) : Workspace := { w with modules := ∅, fileModules := ∅ }

def store (w : Workspace) (name file : String) (symbols : SymbolTable) : Workspace :=
  { w with
    modules := w.modules.insert name ⟨name, symbols, file⟩
    fileModules := w.fileModules.insert file name }

def moduleName? (w : Workspace) (p : Path) : Option String :=
  AbleIndex.moduleName? w.settings w.searchRoots p

def indexedName? (w : Workspace) (p : Path) : Option String :=
  -- a stem can be empty, and an empty name is none
  (w.moduleName? p).filter (· ≠ "")

def update (w : Workspace) (p : Path) (text : String) : Workspace × Option String :=
  match w.indexedName? p with
  | none => (w, none)
  | some name => (w.store name p.text (.ofText text), some name)

def entryFor? (w : Workspace) (p : Path) : Option ModuleEntry :=
  (w.indexedName? p).bind w.modules.find?

def mergedSymbols (w : Workspace) : SymbolTable :=
  w.modules.values.foldl (fun t e => t.merge e.symbols) {}

end Workspace

end AbleIndex
