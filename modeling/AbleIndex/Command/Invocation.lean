import AbleIndex.Command.Arguments
import AbleIndex.Command.Number
import AbleIndex.Files.Host

namespace AbleIndex

inductive Format
  | console
  | json
  deriving DecidableEq, Inhabited

inductive Transport
  | stdio
  | tcp (host : String) (port : Int)
  deriving DecidableEq, Inhabited

inductive Command
  | version
  | help
  | index (root : String) (format : Format)
  | symbols (file : String) (root : Option String) (format : Format)
  | complete (file : String) (line column : Nat) (root : Option String) (format : Format)
  | serve (transport : Transport)
  | watch (root : String)
  deriving DecidableEq, Inhabited

structure Invocation where
  searchPaths : List String := []
  ignoresVariable : Bool := false
  verbose : Bool := false
  command : Command
  deriving DecidableEq, Inhabited

inductive CommandLineError
  | usage
  | unusablePath
  deriving DecidableEq

namespace Command

def format? : String → Option Format
  | "console" => some .console
  | "json" => some .json
  | _ => none

def natural? (s : String) : Option Nat :=
  match integer? s with
  | some (.ofNat n) => some n
  | _ => none

def require (b : Bool) : Except CommandLineError Unit := if b then .ok () else .error .usage

def checkPath (h : Host) (s : String) (suits : Node → Bool) : Except CommandLineError Unit :=
  match h.lookup s with
  | .error .holdsNul => .error .unusablePath
  | .error _ => .error .usage
  | .ok n => require (suits n)

def ValueKind.check (h : Host) (s : String) : ValueKind → Except CommandLineError Unit
  | anything => .ok ()
  | directory => checkPath h s Node.isDirectory
  | file => checkPath h s (!Node.isDirectory ·)
  | format => require (format? s).isSome
  | natural => require (natural? s).isSome
  | integer => require (integer? s).isSome
  | real => require (isReal s)

structure Form where
  options : List OptionRule
  operands : List ValueKind := []
  lenient : Bool := false

namespace Form

def checkOption (h : Host) (f : Form) (option : String × String) : Except CommandLineError Unit :=
  match (f.options.find? (·.word = option.1)).bind (·.value) with
  | none => .ok ()
  | some kind => kind.check h option.2

def checkOperands (h : Host) (lenient : Bool) :
    List ValueKind → List String → Except CommandLineError Unit
  | [], given => require given.isEmpty
  | _ :: _, [] => require lenient
  | kind :: kinds, s :: given => do
    kind.check h s
    checkOperands h lenient kinds given

/-- Checks the options that are given, in the order in which they first stand, and then the
operands. -/
def check (h : Host) (f : Form) (a : Arguments) : Except CommandLineError Unit := do
  a.given.forM (f.checkOption h)
  checkOperands h f.lenient f.operands a.operands

end Form

def helpRule : OptionRule := { word := "help" }

def formatRule : OptionRule := { word := "format", letter := some 'f', value := some .format }

def workspaceRule : OptionRule :=
  { word := "workspace", letter := some 'w', value := some .directory }

def verboseRule : OptionRule := { word := "verbose", letter := some 'v' }

def forms : List (String × Form) :=
  [("index",
    { options := [{ word := "progress" }, { word := "no-progress" }, formatRule, verboseRule, helpRule]
      operands := [.directory]
      lenient := true }),
   ("symbols",
    { options := [workspaceRule, formatRule, helpRule]
      operands := [.file] }),
   ("complete",
    { options := [workspaceRule, formatRule, verboseRule, helpRule]
      operands := [.file, .natural, .natural] }),
   ("serve",
    { options :=
        [{ word := "tcp" }, { word := "host", value := some .anything },
         { word := "port", value := some .integer }, verboseRule, helpRule] }),
   ("watch",
    { options :=
        [{ word := "interval", value := some .real }, { word := "debounce", value := some .real },
         verboseRule, helpRule]
      operands := [.directory]
      lenient := true })]

def formatOf (a : Arguments) : Format := ((a.value? "format").bind format?).getD .console

def rootOf (a : Arguments) : String := a.operands.headD "."

def transportOf (a : Arguments) : Transport :=
  if a.has "tcp" then
    .tcp ((a.value? "host").getD "127.0.0.1") (((a.value? "port").bind integer?).getD 2087)
  else .stdio

def ofArguments? (name : String) (a : Arguments) : Option Command :=
  match name, a.operands with
  | "index", _ => some (.index (rootOf a) (formatOf a))
  | "symbols", [file] => some (.symbols file (a.value? "workspace") (formatOf a))
  | "complete", [file, line, column] => do
    return .complete file (← natural? line) (← natural? column) (a.value? "workspace") (formatOf a)
  | "serve", _ => some (.serve (transportOf a))
  | "watch", _ => some (.watch (rootOf a))
  | _, _ => none

/-- Reads the arguments of a command. One that asks for help is not checked. -/
def read (h : Host) (name : String) (f : Form) (args : List String) :
    Except CommandLineError (Command × Bool) :=
  match readArguments f.options true args with
  | none => .error .usage
  | some a =>
    if a.has "help" then .ok (.help, false)
    else do
      f.check h a
      match ofArguments? name a with
      | none => .error .usage
      | some c => .ok (c, a.has "verbose")

def globalRules : List OptionRule :=
  [{ word := "path", letter := some 'p', value := some .anything }, { word := "no-env-path" },
   { word := "version" }, helpRule]

def ofOptions? (a : Arguments) : Option Command :=
  (a.options.map Prod.fst).findSome? fun word =>
    if word = "version" then some .version else if word = "help" then some .help else none

def readMisplaced (args : List String) : Except CommandLineError Command :=
  match (readArguments globalRules false args).bind ofOptions? with
  | none => .error .usage
  | some c => .ok c

end Command

open Command in
def Invocation.ofArguments (h : Host) (args : List String) : Except CommandLineError Invocation :=
  match readArguments globalRules false args with
  | none => .error .usage
  | some a =>
    match ofOptions? a, a.operands with
    | some c, _ => .ok { command := c }
    | none, [] => .error .usage
    | none, name :: rest =>
      match forms.lookup name with
      | none => do return { command := ← readMisplaced (name :: rest) }
      | some f => do
        let (command, verbose) ← Command.read h name f rest
        return {
          searchPaths := a.values "path"
          ignoresVariable := a.has "no-env-path"
          verbose, command }

end AbleIndex
