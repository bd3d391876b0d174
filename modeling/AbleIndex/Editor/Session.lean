import AbleIndex.Editor.Server

/-!
What an editor and a server do in turn. The text of a document is taken over at once. All that needs a rescan is
a task of its own, which goes on whenever nothing else is being done, and waits for the editor or the disk in
between.
-/

namespace AbleIndex

inductive Event
  | connected
  | configurationChanged
  | filesChanged
  | opened (uri text : String)
  | changed (uri : String) (edits : List Edit)
  | closed (uri : String)

def Event.uri? : Event → Option String
  | opened uri _ => some uri
  | changed uri _ => some uri
  | _ => none

structure Turn where
  file : Nat := 0
  answers : EditorAnswers := {}

inductive Move
  | event (e : Event)
  | resume (task : Nat) (turn : Turn)

namespace Server

def spawn (s : Server) (t : ServerTask) : Server := { s with tasks := s.tasks ++ [t] }

def handle (h : Host) (s : Server) : Event → Server
  | .connected => s.spawn .register
  | .configurationChanged => s.spawn .configure
  | .filesChanged => s.spawn .rescan
  | .opened uri text => (s.openDocument h uri text).1
  | .changed uri edits => (s.changeDocument h uri edits).1
  | .closed uri =>
    match s.forgetDocument uri with
    | .error _ => s
    | .ok s => s.spawn .rescan

def beginRescan (s : Server) : Server × Option ServerTask :=
  let (workspace, begun) := s.workspace.beginScan
  ({ s with workspace }, begun.map .scan)

def beginReconfiguring (h : Host) (s : Server) (answers : EditorAnswers) : Server × Option ServerTask :=
  match s.loadSettings h answers with
  | (s, .error _) => (s, none)
  | (s, .ok ()) => s.beginRescan

/-- Goes on with a task up to where it waits the next time. -/
def goOn (h : Host) (s : Server) (turn : Turn) : ServerTask → Server × Option ServerTask
  | .register =>
    if s.asksEditor then (s.register turn.answers, some .configure)
    -- nothing is asked, so there is nothing to wait for
    else (s.register turn.answers).beginReconfiguring h turn.answers
  | .configure => s.beginReconfiguring h turn.answers
  | .rescan => s.beginRescan
  | .scan begun =>
    let (workspace, next) := s.workspace.advance h turn.file begun
    ({ s with workspace }, next.map .scan)

def resume (h : Host) (s : Server) (i : Nat) (turn : Turn) : Server :=
  match s.tasks[i]? with
  | none => s
  | some task =>
    let (s, next) := s.goOn h turn task
    { s with tasks := putBack s.tasks i next }

def move (h : Host) (s : Server) : Move → Server
  | .event e => s.handle h e
  | .resume i turn => s.resume h i turn

def run (h : Host) (s : Server) (session : List (Disk × Move)) : Server :=
  session.foldl (fun s x => s.move (h.withDisk x.1) x.2) s

end Server

end AbleIndex
