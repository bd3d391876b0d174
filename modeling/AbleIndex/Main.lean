import AbleIndex.Command.Answer

/-!
The command line. What a command may look at is read from the disk first, then the command is run on
that picture of it.
-/

namespace AbleIndex

def pathsIn (arg : String) : List String :=
  let cs := arg.toList
  ([cs, (cs.dropWhile (· ≠ '=')).drop 1, cs.drop 2].filter (· ≠ [])).map String.ofList

def placesOf (h : Host) (args : List String) : List String :=
  let named := args.flatMap pathsIn
  let configured := ((Settings.ofEnvironment h.env).searchPaths ++
    splitPathList ((h.env.lookup "ABLEPATH").getD "") ++ named).filterMap h.expandHome?
  named ++ configured ++ ("." :: named).flatMap fun base => configured.map (Path.join base)

partial def loadEntries (s : Settings) (d : Disk) (loc : Location) :
    List IO.FS.DirEntry → IO Disk
  | [] => return d
  | e :: es => do
    let place := loc ++ [e.fileName]
    let d ← if !s.enters e.fileName then pure d else
      match (← e.path.symlinkMetadata).type with
      | .dir => loadEntries s (d.put place .directory) place (← e.path.readDir).toList
      | .symlink => pure (d.put place (.link (← IO.FS.realPath e.path).toString))
      | _ =>
        let content ← if s.isSourceName e.fileName then IO.FS.readBinFile e.path
          else pure ByteArray.empty
        pure (d.put place (.file content))
    loadEntries s d loc es

def loadDirectory (h : Host) (s : Settings) (dir : Path) (es : List IO.FS.DirEntry) : IO Host := do
  return { h with disk := ← loadEntries s (h.disk.put dir.parts .directory) dir.parts es }

def loadPlace (h : Host) (s : Settings) (place : String) : IO Host := do
  match (← (IO.FS.realPath place).toBaseIO) with
  | .error _ => return h
  | .ok real =>
    let target := h.absolute real.toString
    let own := h.absolute place
    let h ← if ← real.isDir then loadDirectory h s target (← real.readDir).toList
      else if ← real.pathExists then
        let es ← (real.parent.map (·.readDir)).getD (pure #[])
        let h ← loadDirectory h s target.parent es.toList
        pure { h with disk := h.disk.put target.parts (.file (← IO.FS.readBinFile real)) }
      else pure h
    if own = target then return h
    else return { h with disk := h.disk.put own.parts (.link target.text) }

def variableNames : List String :=
  ["ABLESENSE_STDLIB_PATHS", "ABLESENSE_USE_ENV_PATH", "ABLESENSE_LOG_LEVEL", "ABLEPATH", "HOME"]

def homesIn (users : String) : List (String × String) :=
  (Text.pieces '\n' users.toList).filterMap fun line =>
    match (Text.pieces ':' line).map String.ofList with
    | name :: _ :: _ :: _ :: _ :: home :: _ => some (name, home)
    | _ => none

def currentHost : IO Host := do
  let cwd := Path.absolute ⟨.slash, []⟩ (← IO.currentDir).toString
  let home := (← IO.getEnv "HOME").getD "/"
  let users ← (IO.FS.readFile "/etc/passwd").toBaseIO
  let env ← variableNames.filterMapM fun n => do return (← IO.getEnv n).map (n, ·)
  return {
    disk := ({} : Disk).put cwd.parts .directory
    cwd
    home
    homes := homesIn (users.toOption.getD "")
    env
    cwdResolved := Path.isResolved_absolute (by decide) _ }

end AbleIndex

open AbleIndex in
def main (args : List String) : IO UInt32 := do
  let started ← IO.monoMsNow
  let host ← currentHost
  let settings := Settings.ofEnvironment host.env
  let host ← (placesOf host args).eraseDups.foldlM (fun h p => loadPlace h settings p) host
  let host ← if args.length < 2 then loadPlace host settings "." else pure host
  let columns := Candidate.columnsOf ((← IO.getEnv "COLUMNS").bind Command.integer?)
  let a := host.execute args
  let elapsed := ((← IO.monoMsNow) - started).toFloat / 1000
  IO.print (host.output columns elapsed a)
  if a.errorText ≠ "" then IO.eprintln a.errorText
  return (host.exitCode columns elapsed a).toUInt32
