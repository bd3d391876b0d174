import AbleIndex.Command.Invocation
import AbleIndex.Command.LogLevel
import AbleIndex.Completion.Report
import AbleIndex.Text.Styling
import AbleIndex.Workspace.Operations

namespace AbleIndex

inductive Abort
  | unusablePath
  | logLevel (e : LogLevelError)
  | failure (e : Failure)
  deriving DecidableEq

inductive Answer
  | usageError
  | failed (message : String)
  | aborted (e : Abort)
  | version
  | help
  | indexed (report : ScanReport) (modules : List String) (format : Format)
  | symbols (table : SymbolTable) (moduleName : Option String) (format : Format)
  | candidates (items : List Candidate) (format : Format)
  | serving (transport : Transport)
  | watching (modules : Nat)
  deriving Inhabited

namespace Invocation

def settings (i : Invocation) (h : Host) : Settings :=
  let s := Settings.ofEnvironment h.env
  { s with
    searchPaths := if i.searchPaths = [] then s.searchPaths else i.searchPaths
    usePathVariable := s.usePathVariable && !i.ignoresVariable }

def failure (file : Option String) (e : Failure) : Answer :=
  match e.message?, file with
  | some message, _ => .failed ("Error: " ++ message)
  | none, some f =>
    if e.isUnreadable then .failed ("Error: cannot read " ++ f) else .aborted (.failure e)
  | none, none => .aborted (.failure e)

def runIndex (h : Host) (w : Workspace) (root : String) (format : Format) : Answer :=
  match w.index h (some (h.realPath root).text) with
  | (w, .ok report) => .indexed report w.modules.keys format
  | (_, .error e) => failure none e

/-- The module is named by the path as given, also when it leads through links. -/
def runSymbols (h : Host) (w : Workspace) (file : String) (root : Option String) (format : Format) :
    Answer :=
  match w.configure h (root.map h.realPath) none with
  | (_, .error e) => failure none (.rootsUnknown e)
  | (w, .ok ()) =>
    match Workspace.symbolsOf h file with
    | .ok table => .symbols table (w.moduleName? (h.absolute file)) format
    | .error e => failure (some file) e

def runComplete (h : Host) (w : Workspace) (file : String) (line column : Nat)
    (root : Option String) (format : Format) : Answer :=
  let path := h.realPath file
  let root := match root with
    | none => path.parent
    | some r => h.realPath r
  match w.index h (some root.text) with
  | (_, .error e) => failure (some file) e
  | (w, .ok _) =>
    match w.completeAt h path.text line column none with
    | (_, .ok items) => .candidates items format
    | (_, .error e) => failure (some file) e

def runWatch (h : Host) (w : Workspace) (root : String) : Answer :=
  match w.index h (some (h.realPath root).text) with
  | (_, .ok report) => .watching report.modules
  | (_, .error e) => failure none e

def logs : Command → Bool
  | .index .. | .complete .. | .serve _ | .watch _ => true
  | _ => false

def setLogLevel (i : Invocation) (settings : Settings) : Except LogLevelError Unit :=
  if logs i.command && !i.verbose then checkLogLevel settings.logLevel else .ok ()

/-- The workspace a command works on. A server sets its log level before it makes one, and other
commands after that. -/
def prepare (i : Invocation) (h : Host) (settings : Settings) : Except Abort Workspace :=
  let workspace := (Workspace.new h settings).mapError fun e => .failure (.rootsUnknown e)
  let level := (i.setLogLevel settings).mapError .logLevel
  match i.command with
  | .version | .help => .ok {}
  | .serve _ => level *> workspace
  | _ => workspace <* level

def perform (h : Host) (w : Workspace) : Command → Answer
  | .version => .version
  | .help => .help
  | .serve transport => .serving transport
  | .index root format => runIndex h w root format
  | .symbols file root format => runSymbols h w file root format
  | .complete file line column root format => runComplete h w file line column root format
  | .watch root => runWatch h w root

def run (i : Invocation) (h : Host) : Answer :=
  let settings := i.settings h
  match settings.validate, i.prepare h settings with
  | .error e, _ => .failed ("Error: " ++ e.message)
  | _, .error e => .aborted e
  | .ok (), .ok w => perform h w i.command

end Invocation

def Host.execute (h : Host) (args : List String) : Answer :=
  match Invocation.ofArguments h args with
  | .error .usage => .usageError
  | .error .unusablePath => .aborted .unusablePath
  | .ok i => i.run h

namespace ScanReport

def toJson (r : ScanReport) (modules : List String) : Json :=
  .obj
    [("files_scanned", .int r.scanned), ("files_indexed", .int r.indexed),
     ("files_skipped", .int r.skipped), ("errors", .int r.errors), ("modules", .int r.modules),
     ("roots", .ofNames r.roots), ("module_names", .ofNames modules)]

def count (n : Nat) : String := String.ofList (Decimal.padded 8 ' ' (Decimal.grouped n))

def consoleLines (r : ScanReport) (elapsed : Float) : List String :=
  let line := rule 50
  [line, "  ABLESENSE — Index Statistics", line] ++
    r.roots.map ("  Root : " ++ ·) ++
    ["", "  Files scanned    " ++ count r.scanned, "  Files indexed    " ++ count r.indexed] ++
    (if r.skipped = 0 then [] else ["  Files skipped    " ++ count r.skipped ++ "  (no module name)"]) ++
    (if r.errors = 0 then [] else ["  Errors           " ++ count r.errors]) ++
    ["  Modules          " ++ count r.modules,
     "  Completed in " ++ Decimal.fixed 3 (.ofFloat elapsed) ++ " seconds", line]

end ScanReport

namespace Answer

def exitCode : Answer → Nat
  | usageError => 2
  | failed _ => 1
  | aborted _ => 1
  | _ => 0

def transport? : Answer → Option Transport
  | serving transport => some transport
  | _ => none

/-- Names found in files cannot style the terminal, and lines end in a line feed alone. -/
def plain (s : String) : String :=
  String.ofList (Text.dropReturns (Text.dropStyling s).toList)

def errorText : Answer → String
  | failed message => plain message
  | _ => ""

def usage : String :=
  "Usage: cli [-p DIR]... [--no-env-path] [--version] index|symbols|complete|serve|watch [ARGS]..."

def messages (columns : Nat) (elapsed : Float) : Answer → List String
  | version => ["cli, version " ++ AbleIndex.version]
  | help => [usage]
  | indexed report modules .json => [(report.toJson modules).text]
  | indexed report _ .console => report.consoleLines elapsed
  | symbols table moduleName .json => [table.jsonText moduleName]
  | symbols table moduleName .console => [table.consoleText moduleName]
  | candidates items .json => [Candidate.jsonText items]
  | candidates items .console => [Candidate.consoleText columns (some elapsed) items]
  | watching modules =>
    ["  Indexed " ++ Decimal.whole modules ++ " modules. Watching for changes (Ctrl+C to stop).",
     "\n  Stopped."]
  | _ => []

def outputOf (messages : List String) : String := plain (String.join (messages.map (· ++ "\n")))

def output (columns : Nat) (elapsed : Float) (a : Answer) : String :=
  outputOf (a.messages columns elapsed)

end Answer

namespace Host

def canPrint (h : Host) (message : String) : Bool := (Text.dropStyling message).toList.all h.encodes

/-- A command is broken off at the first message that standard output cannot take. -/
def exitCode (h : Host) (columns : Nat) (elapsed : Float) (a : Answer) : Nat :=
  if (a.messages columns elapsed).all h.canPrint then a.exitCode else 1

def output (h : Host) (columns : Nat) (elapsed : Float) (a : Answer) : String :=
  Answer.outputOf ((a.messages columns elapsed).takeWhile h.canPrint)

end Host

end AbleIndex
