import AbleIndex.Completion.Resolve
import AbleIndex.Editor.Document
import AbleIndex.Editor.Uri
import AbleIndex.Workspace.OpenScan
import AbleIndex.Workspace.Operations

namespace AbleIndex

inductive ServerTask
  | register
  | configure
  | rescan
  | scan (begun : OpenScan)
  deriving DecidableEq

structure Server where
  base : Settings := {}
  workspace : Workspace := {}
  asksEditor : Bool := false
  encoding : Text.Encoding := .utf16
  /-- The texts of the open documents. There is nowhere to keep any before the editor has
  connected. -/
  documents : Option (NameMap String) := none
  registrations : List (String × String) := []
  tasks : List ServerTask := []
  deriving Inhabited

structure EditorAnswers where
  configuration : Option Json := some (.arr [])
  acceptsRegistration : Bool := true
  deriving Inhabited

inductive ServerFailure
  | notConnected
  | notOpen
  | badUri
  | unreadable (e : ReadError)
  | scanFailed (e : ScanFailure)
  | rootsUnknown (e : RootError)
  deriving DecidableEq

structure Greeting where
  folders : List String := []
  rootUri : Option String := none
  rootPath : Option String := none
  answersRequests : Bool := false
  encodings : List String := []
  deriving DecidableEq, Inhabited

namespace Greeting

def root? (g : Greeting) : Option String :=
  match g.folders with
  | folder :: _ => Uri.toPath? folder
  | [] =>
    match g.rootUri.filter (· ≠ "") with
    | some uri => Uri.toPath? uri
    | none => g.rootPath.filter (· ≠ "")

def isAcceptable (g : Greeting) : Bool :=
  match g.rootUri with
  | some uri => Uri.isWellFormed uri
  | none => g.rootPath.all Uri.isNameable

end Greeting

def answeredFields : Option Json → List (String × Json)
  | some (.arr (.obj fields :: _)) => fields
  | _ => []

namespace Server

def new (h : Host) (settings : Settings) : Except RootError Server :=
  (Workspace.new h settings).map fun workspace => { base := settings, workspace }

def configure (h : Host) (s : Server) (root : Option Path) (settings : Option Settings) :
    Server × Except ServerFailure Unit :=
  let (workspace, r) := s.workspace.configure h root settings
  ({ s with workspace }, r.mapError .rootsUnknown)

def connect (h : Host) (s : Server) (g : Greeting) : Server × Except ServerFailure Unit :=
  if ¬ g.isAcceptable then (s, .error .badUri)
  else
    let s := { s with
      asksEditor := g.answersRequests
      encoding := (g.encodings.findSome? Text.Encoding.ofName?).getD .utf16
      documents := some ∅ }
    match g.root?.filter (· ≠ "") with
    | none => (s, .ok ())
    | some r => s.configure h (some (h.absolute r)) none

def loadSettings (h : Host) (s : Server) (answers : EditorAnswers) :
    Server × Except ServerFailure Unit :=
  let fields := if s.asksEditor then answeredFields answers.configuration else []
  s.configure h none (some (s.base.withEditor fields))

def rescan (h : Host) (s : Server) : Server × Except ServerFailure Unit :=
  match s.workspace.scan h with
  | (w, .ok _) => ({ s with workspace := w }, .ok ())
  | (w, .error e) => ({ s with workspace := w }, .error (.scanFailed e))

def reconfigure (h : Host) (s : Server) (answers : EditorAnswers) :
    Server × Except ServerFailure Unit :=
  match s.loadSettings h answers with
  | (s, .error e) => (s, .error e)
  | (s, .ok ()) => s.rescan h

def registration : String × String := ("ablesense-configuration", "workspace/didChangeConfiguration")

def register (s : Server) (answers : EditorAnswers) : Server :=
  { s with registrations :=
      if s.asksEditor && answers.acceptsRegistration then s.registrations ++ [registration]
      else s.registrations }

def connected (h : Host) (s : Server) (answers : EditorAnswers) :
    Server × Except ServerFailure Unit :=
  reconfigure h (s.register answers) answers

def documentText (h : Host) (documents : NameMap String) (uri path : String) :
    Except ServerFailure String :=
  match documents.find? (Uri.documentKey uri) with
  | some text => .ok text
  | none =>
    match h.read (Path.ofString path) with
    | .ok text => .ok text
    | .error e => .error (.unreadable e)

def updateDocument (h : Host) (s : Server) (uri : String) :
    Server × Except ServerFailure (Option String) :=
  match (Uri.toPath? uri).filter (· ≠ "") with
  | none => (s, .ok none)
  | some path =>
    match s.documents with
    | none => (s, .error .notConnected)
    | some documents =>
      match documentText h documents uri path with
      | .error e => (s, .error e)
      | .ok text =>
        let (workspace, name) := s.workspace.update (h.absolute path) text
        ({ s with workspace }, .ok name)

def openDocument (h : Host) (s : Server) (uri text : String) :
    Server × Except ServerFailure (Option String) :=
  match s.documents with
  | none => (s, .error .notConnected)
  | some documents =>
    if ¬ Uri.isWellFormed uri then (s, .error .badUri)
    else
      let documents := documents.insert (Uri.documentKey uri) text
      updateDocument h { s with documents := some documents } uri

def changeDocument (h : Host) (s : Server) (uri : String) (edits : List Edit) :
    Server × Except ServerFailure (Option String) :=
  -- without edits it need not be open
  if edits = [] then updateDocument h s uri
  else
    match s.documents with
    | none => (s, .error .notConnected)
    | some documents =>
      let key := Uri.documentKey uri
      match documents.find? key with
      | none => (s, .error .notOpen)
      | some text =>
        let text := edits.foldl (Document.apply s.encoding) text
        updateDocument h { s with documents := some (documents.insert key text) } uri

def forgetDocument (s : Server) (uri : String) : Except ServerFailure Server :=
  match s.documents with
  | none => .error .notConnected
  | some documents =>
    let key := Uri.documentKey uri
    .ok { s with documents := some (documents.filterKeys (· ≠ key)) }

def closeDocument (h : Host) (s : Server) (uri : String) : Server × Except ServerFailure Unit :=
  match s.forgetDocument uri with
  | .error e => (s, .error e)
  | .ok s => s.rescan h

/-- The candidates at a position of an open document, which is looked up under its URI as given. -/
def complete (h : Host) (s : Server) (uri : String) (p : Position) :
    Except ServerFailure (List Candidate) :=
  match s.documents with
  | none => .error .notConnected
  | some documents =>
    match documents.find? uri with
    | none => .ok []
    | some text =>
      let line := Document.textBefore s.encoding text p
      .ok (s.workspace.complete line ((Uri.toPath? uri).map h.absolute))

end Server

end AbleIndex
