import AbleIndex.Json.Display
import AbleIndex.Symbols.Table
import AbleIndex.Text.Lines
import AbleIndex.Text.Upper

namespace AbleIndex

abbrev Environment := List (String × String)

structure Settings where
  sourceExtension : String := ".abl"
  /-- The file that stands for the directory it lies in. -/
  packageFile : String := "__init__.abl"
  excludedDirs : NameSet := .ofList
    [".git", ".vscode", "build", "coverage", "dist", "node_modules", "out", "vendor"]
  maxFileMegabytes : Option Int := none
  libraryDir : String := "lib"
  searchPaths : List String := []
  usePathVariable : Bool := true
  pathVariable : String := "ABLEPATH"
  editorSection : String := "able"
  concurrentReads : Int := 32
  logLevel : String := "INFO"
  deriving DecidableEq, Inhabited

inductive SettingsError
  | extensionWithoutDot (extension : String)
  | packageFileExtension (packageFile extension : String)
  | concurrentReadsNotPositive
  | fileSizeNotPositive
  deriving DecidableEq

def SettingsError.message : SettingsError → String
  | extensionWithoutDot extension =>
    "source_extension must start with '.', got '" ++ extension ++ "'"
  | packageFileExtension packageFile extension =>
    "package_init '" ++ packageFile ++ "' must end with '" ++ extension ++ "'"
  | concurrentReadsNotPositive => "max_concurrent_reads must be positive"
  | fileSizeNotPositive => "max_file_size_mb must be positive"

structure GivenSettings where
  sourceExtension : Option String := none
  packageFile : Option String := none
  excludedDirs : Option NameSet := none
  /-- That there is no limit can be given as well. -/
  maxFileMegabytes : Option (Option Int) := none
  libraryDir : Option String := none
  searchPaths : Option (List String) := none
  usePathVariable : Option Bool := none
  pathVariable : Option String := none
  editorSection : Option String := none
  concurrentReads : Option Int := none
  logLevel : Option String := none

def splitPathList (s : String) : List String :=
  ((Text.pieces ':' s.toList).filter (· ≠ [])).map String.ofList

namespace Settings

def maxFileBytes (s : Settings) : Option Int := s.maxFileMegabytes.map (· * 1048576)

/-- The words that switch something on. They are compared in lower case, and all of their letters are
ASCII. -/
def isOn (s : String) : Bool :=
  ["1", "true", "yes", "on"].contains (String.ofList (s.toList.map Char.toLower))

def ofEnvironment (env : Environment) : Settings :=
  { searchPaths := splitPathList ((env.lookup "ABLESENSE_STDLIB_PATHS").getD "")
    usePathVariable := ((env.lookup "ABLESENSE_USE_ENV_PATH").map isOn).getD true
    logLevel := Text.upper ((env.lookup "ABLESENSE_LOG_LEVEL").getD "INFO") }

def withGiven (s : Settings) (g : GivenSettings) : Settings where
  sourceExtension := g.sourceExtension.getD s.sourceExtension
  packageFile := g.packageFile.getD s.packageFile
  excludedDirs := g.excludedDirs.getD s.excludedDirs
  maxFileMegabytes := g.maxFileMegabytes.getD s.maxFileMegabytes
  libraryDir := g.libraryDir.getD s.libraryDir
  searchPaths := g.searchPaths.getD s.searchPaths
  usePathVariable := g.usePathVariable.getD s.usePathVariable
  pathVariable := g.pathVariable.getD s.pathVariable
  editorSection := g.editorSection.getD s.editorSection
  concurrentReads := g.concurrentReads.getD s.concurrentReads
  logLevel := g.logLevel.getD s.logLevel

def ofProgram (env : Environment) (own : Option Settings) (given : GivenSettings) : Settings :=
  own.getD ((ofEnvironment env).withGiven given)

def editorPaths : Option Json → List String
  | some (.arr items) => items.map Json.display
  | _ => []

def editorUsesVariable : Option Json → Bool
  | some (.bool false) => false
  | _ => true

def withEditor (s : Settings) (fields : List (String × Json)) : Settings :=
  { s with
    searchPaths := editorPaths (fields.lookup "stdlibPaths")
    usePathVariable := editorUsesVariable (fields.lookup "useEnvAblePath") }

def withSection? (s : Settings) : Json → Option Settings
  | .obj fields => some (s.withEditor fields)
  | v => if v.isFalsy then some (s.withEditor []) else none

def validate (s : Settings) : Except SettingsError Unit :=
  if ¬ s.sourceExtension.toList.head? = some '.' then
    .error (.extensionWithoutDot s.sourceExtension)
  else if ¬ s.sourceExtension.toList.isSuffixOf s.packageFile.toList then
    .error (.packageFileExtension s.packageFile s.sourceExtension)
  else if s.concurrentReads ≤ 0 then .error .concurrentReadsNotPositive
  else if s.maxFileMegabytes.any (· ≤ 0) then .error .fileSizeNotPositive
  else .ok ()

def variablePaths (s : Settings) (env : Environment) : List String :=
  if s.usePathVariable then splitPathList ((env.lookup s.pathVariable).getD "") else []

end Settings

end AbleIndex
