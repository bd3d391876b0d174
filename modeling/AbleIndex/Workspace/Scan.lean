import AbleIndex.Workspace.Basic

namespace AbleIndex

structure ScanReport where
  scanned : Nat := 0
  indexed : Nat := 0
  skipped : Nat := 0
  errors : Nat := 0
  modules : Nat := 0
  roots : List String := []
  deriving DecidableEq, Inhabited

inductive ScanFailure
  | unusableRoot
  | negativeReads
  deriving DecidableEq

inductive Finding
  | unnamed
  | unreadable
  | module (entry : ModuleEntry)
  deriving DecidableEq

namespace Finding

def entry? : Finding → Option ModuleEntry
  | module e => some e
  | _ => none

def isUnnamed : Finding → Bool
  | unnamed => true
  | _ => false

def isUnreadable : Finding → Bool
  | unreadable => true
  | _ => false

end Finding

namespace Workspace

def sourceFiles (h : Host) (w : Workspace) : List Path :=
  (w.searchRoots.flatMap fun root => h.sourceFiles w.settings root.text).eraseDups

def examine (h : Host) (w : Workspace) (p : Path) : Finding :=
  let file := h.absolute p.text
  match w.indexedName? file with
  | none => .unnamed
  | some name =>
    match h.read p with
    | .error _ => .unreadable
    | .ok text => .module ⟨name, .ofText text, file.text⟩

def findings (h : Host) (w : Workspace) : List Finding := (w.sourceFiles h).map (w.examine h)

def storeAll (w : Workspace) (entries : List ModuleEntry) : Workspace :=
  entries.foldl (fun w e => w.store e.name e.file e.symbols) w

/-- The index a scan leaves, and its report. A search root that cannot be a path, or else a negative
number of concurrent reads, lets the scan fail, and leaves the index empty. If the number is zero it is
taken for done here all the same; in pieces it has no end once a file is named (`advance_zero`). -/
def scan (h : Host) (w : Workspace) : Workspace × Except ScanFailure ScanReport :=
  let empty := w.clear
  let roots := w.searchRoots.map Path.text
  if roots = [] then (empty, .ok {})
  else if ¬ roots.all Path.isUsable then (empty, .error .unusableRoot)
  else if w.settings.concurrentReads < 0 then (empty, .error .negativeReads)
  else
    let found := empty.findings h
    let entries := found.filterMap Finding.entry?
    let full := empty.storeAll entries
    (full, .ok {
      scanned := found.length
      indexed := entries.length
      skipped := found.countP Finding.isUnnamed
      errors := found.countP Finding.isUnreadable
      modules := full.modules.size
      roots })

end Workspace

end AbleIndex
