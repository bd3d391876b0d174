import AbleIndex.Completion.Candidate
import AbleIndex.Completion.Context
import AbleIndex.Language.Catalog
import AbleIndex.Workspace.Basic

namespace AbleIndex

def startsWith (typed label : String) : Bool := typed.toList.isPrefixOf label.toList

def SymbolTable.candidates (t : SymbolTable) : List Candidate :=
  Candidate.ofLabels .function t.functions.toList ++
    Candidate.ofLabels .className t.classes.toList ++
    Candidate.ofLabels .variableName t.bindings.toList

def SymbolTable.memberCandidates (t : SymbolTable) (target : String) : List Candidate :=
  Candidate.ofLabels .method (t.methodsOf target).toList ++
    Candidate.ofLabels .property (t.propertiesOf target).toList

namespace Workspace

def memberCandidates (w : Workspace) (target : String) (file : Option Path) : List Candidate :=
  match file.bind w.entryFor? with
  | none => []
  | some e => e.symbols.memberCandidates target

def decoratorCandidates (typed : String) : List Candidate :=
  Candidate.ofLabels .function (Catalog.decorators.filter (startsWith typed))

def moduleCandidates (w : Workspace) (typed : String) : List Candidate :=
  Candidate.ofLabels .moduleName ((Catalog.modules ++ w.modules.keys).filter (startsWith typed))

def exportCandidates (w : Workspace) (moduleName typed : String) : List Candidate :=
  match w.modules.find? moduleName with
  | none => []
  | some e => e.symbols.candidates.filter fun c => startsWith typed c.label

def generalCandidates (w : Workspace) : List Candidate :=
  Candidate.ofLabels .keyword Catalog.keywords ++
    Candidate.ofLabels .typeName Catalog.types ++
    Candidate.ofLabels .function Catalog.functions ++
    w.mergedSymbols.candidates

def candidatesIn (w : Workspace) (file : Option Path) : Context → List Candidate
  | .member target => w.memberCandidates target file
  | .decorator typed => decoratorCandidates typed
  | .importModule typed => w.moduleCandidates typed
  | .importFrom moduleName typed => w.exportCandidates moduleName typed
  | .general => w.generalCandidates

/-- The candidates for a line that reads `line` up to the cursor. Member access that leads to nothing
gives way to the context behind it. -/
def complete (w : Workspace) (line : String) (file : Option Path) : List Candidate :=
  let members := ((Context.member? line.toList).map (w.candidatesIn file)).getD []
  if members = [] then w.candidatesIn file (Context.place line.toList) else members

end Workspace

end AbleIndex
