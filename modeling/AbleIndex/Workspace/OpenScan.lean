import AbleIndex.Workspace.Scan

/-!
A scan in the pieces that it is done in. Between two of them the workspace may be given other settings and
search roots, its index may change, and so may the disk.
-/

namespace AbleIndex

inductive FileStage
  | found
  | waiting (name : String)
  | opened (name : String)
  | read (name text : String)
  deriving DecidableEq

def FileStage.isBusy : FileStage → Bool
  | opened _ => true
  | read _ _ => true
  | _ => false

/-- A scan that has begun and is not done. The roots are listed one by one, each under the settings in force when
its turn comes. -/
inductive OpenScan
  | listing (settings : Settings) (root : Path) (rest found : List Path)
  | reading (atOnce : Nat) (files : List (Path × FileStage))
  deriving DecidableEq

def putBack {α : Type} (items : List α) (i : Nat) (next : Option α) : List α :=
  items.take i ++ next.toList ++ items.drop (i + 1)

theorem all_putBack {α : Type} {f : α → Bool} {items : List α} {i : Nat} {next : Option α}
    (hnext : ∀ a ∈ next, f a = true) : items.all f = true → (putBack items i next).all f = true := by
  simp only [List.all_eq_true, putBack, List.mem_append, Option.mem_toList]
  rintro hall a ((ha | ha) | ha)
  · exact hall a (List.mem_of_mem_take ha)
  · exact hnext a ha
  · exact hall a (List.mem_of_mem_drop ha)

def OpenScan.ofFiles (atOnce : Nat) (files : List (Path × FileStage)) : Option OpenScan :=
  if files = [] then none else some (.reading atOnce files)

namespace Workspace

def beginScan (w : Workspace) : Workspace × Option OpenScan :=
  match w.searchRoots with
  | [] => (w.clear, none)
  | root :: rest => (w.clear, some (.listing w.settings root rest []))

/-- Goes on with a file, which is named under the search roots in force by then. `free` tells whether it can be
read at once. -/
def advanceFile (h : Host) (w : Workspace) (free : Bool) (p : Path) : FileStage → Workspace × Option FileStage
  | .found =>
    (w, (w.indexedName? (h.absolute p.text)).map fun name => if free then .opened name else .waiting name)
  | .waiting name => (w, some (if free then .opened name else .waiting name))
  | .opened name =>
    match h.read p with
    | .error _ => (w, none)
    | .ok text => (w, some (.read name text))
  | .read name text => (w.store name (h.absolute p.text).text (.ofText text), none)

/-- How a scan goes on behind its last root. It ends there if the number of concurrent reads is negative; if it is
zero no file ever gets its turn. -/
def beginReading (w : Workspace) (found : List Path) : Option OpenScan :=
  if w.settings.concurrentReads < 0 then none
  else OpenScan.ofFiles w.settings.concurrentReads.toNat (found.eraseDups.map (·, .found))

def advance (h : Host) (w : Workspace) (i : Nat) : OpenScan → Workspace × Option OpenScan
  | .listing settings root rest found =>
    if ¬ Path.isUsable root.text then (w, none)
    else
      let found := found ++ h.sourceFiles settings root.text
      match rest with
      | next :: rest => (w, some (.listing w.settings next rest found))
      | [] => (w, w.beginReading found)
  | .reading atOnce files =>
    match files[i]? with
    | none => (w, some (.reading atOnce files))
    | some (p, stage) =>
      let free : Bool := (files.countP (·.2.isBusy)) < atOnce
      let (w, next) := w.advanceFile h free p stage
      (w, OpenScan.ofFiles atOnce (putBack files i (next.map (p, ·))))

end Workspace

end AbleIndex
