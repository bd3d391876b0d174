import AbleIndex.Completion.Resolve
import AbleIndex.Workspace.Scan

/-!
What a program asks of a workspace. An operation that fails leaves the index as it was, but for a
scan, which may leave it empty, and for the opening of a directory, which stays open when its search
roots cannot be told.
-/

namespace AbleIndex

inductive Failure
  | workspaceNotFound (p : Path)
  | unknownModule (name : String)
  | cannotWait
  | scanFailed (e : ScanFailure)
  | rootsUnknown (e : RootError)
  | nameTooLong
  | unreadable (e : ReadError)
  deriving DecidableEq

def Failure.message? : Failure → Option String
  | workspaceNotFound p => some ("Workspace directory not found: " ++ p.text)
  | unknownModule name => some ("Module not indexed: " ++ name)
  | cannotWait =>
    some "Workspace scan failed: asyncio.run() cannot be called from a running event loop"
  | scanFailed _ => none
  | rootsUnknown _ => none
  | nameTooLong => none
  | unreadable _ => none

def Failure.isUnreadable : Failure → Bool
  | nameTooLong => true
  | unreadable (.lookup .holdsNul) => false
  | unreadable _ => true
  | _ => false

def version : String := "1.0.0"

inductive CreationError
  | settingsRefused (e : SettingsError)
  | rootsUnknown (e : RootError)
  deriving DecidableEq

namespace Workspace

def create (h : Host) (own : Option Settings) (given : GivenSettings) (checks : Bool) :
    Except CreationError Workspace :=
  let settings := Settings.ofProgram h.env own given
  match if checks then settings.validate else .ok (), new h settings with
  | .error e, _ => .error (.settingsRefused e)
  | .ok (), .error e => .error (.rootsUnknown e)
  | .ok (), .ok w => .ok w

def openRoot (h : Host) (w : Workspace) : Option String → Workspace × Except Failure Unit
  | none => (w, .ok ())
  | some s =>
    let p := Path.ofString s
    match h.lookup p.text with
    | .ok .directory =>
      let (w, r) := w.configure h (some (h.absolute p.text)) none
      (w, r.mapError .rootsUnknown)
    | .error .nameTooLong => (w, .error .nameTooLong)
    | _ => (w, .error (.workspaceNotFound p))

def rescan (h : Host) (w : Workspace) : Workspace × Except Failure ScanReport :=
  match w.scan h with
  | (w, .ok report) => (w, .ok report)
  | (w, .error e) => (w, .error (.scanFailed e))

def index (h : Host) (w : Workspace) (root : Option String) :
    Workspace × Except Failure ScanReport :=
  match w.openRoot h root with
  | (w, .error e) => (w, .error e)
  | (w, .ok ()) => w.rescan h

/-- A scan asked for where its end cannot be waited for: the workspace is opened, and no more. -/
def indexWithoutWaiting (h : Host) (w : Workspace) (root : Option String) : Workspace × Failure :=
  match w.openRoot h root with
  | (w, .error e) => (w, e)
  | (w, .ok ()) => (w, .cannotWait)

def textOf (h : Host) (path : String) (text : Option String) : Except Failure String :=
  match text with
  | some t => .ok t
  | none =>
    match h.read (Path.ofString path) with
    | .ok t => .ok t
    | .error e => .error (.unreadable e)

def updateFile (h : Host) (w : Workspace) (path : String) (text : Option String) :
    Workspace × Except Failure (Option String) :=
  match textOf h path text with
  | .error e => (w, .error e)
  | .ok t =>
    let (w, name) := w.update (h.absolute path) t
    (w, .ok name)

def symbolsOf (h : Host) (path : String) : Except Failure SymbolTable :=
  (textOf h path none).map SymbolTable.ofText

def exports (w : Workspace) (name : String) : Except Failure SymbolTable :=
  match w.modules.find? name with
  | some e => .ok e.symbols
  | none => .error (.unknownModule name)

def cursorLine (text : String) (line : Int) : List Char :=
  if line < 0 then []
  else (((Text.documentLines text.toList)[line.toNat]?).map (·.content)).getD []

/-- The start of a line up to a column; a negative one counts from the end. -/
def upTo (line : List Char) (column : Int) : List Char :=
  if column < 0 then line.take (line.length - column.natAbs) else line.take column.toNat

def completeAt (h : Host) (w : Workspace) (path : String) (line column : Int)
    (text : Option String) : Workspace × Except Failure (List Candidate) :=
  match textOf h path text with
  | .error e => (w, .error e)
  | .ok t =>
    let file := h.absolute path
    let w := (w.update file t).1
    (w, .ok (w.complete (String.ofList (upTo (cursorLine t line) column)) (some file)))

end Workspace

end AbleIndex
