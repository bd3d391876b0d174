import AbleIndex.Sorted.Map

namespace AbleIndex

abbrev NameSet := SortedSet String

abbrev NameMap (α : Type) := SortedMap String α

structure SymbolTable where
  functions : NameSet := ∅
  classes : NameSet := ∅
  bindings : NameSet := ∅
  methods : NameMap NameSet := ∅
  variableTypes : NameMap String := ∅
  properties : NameMap NameSet := ∅
  deriving DecidableEq, Inhabited

def addMember (m : NameMap NameSet) (key name : String) : NameMap NameSet :=
  m.alter key fun s => (s.getD ∅).insert name

def addMembers (m : NameMap NameSet) (key : String) (names : NameSet) : NameMap NameSet :=
  m.alter key fun s => (s.getD ∅).union names

namespace SymbolTable

/-- Takes in the functions, classes, variables and methods of another module. What the variables of
a module are bound to stays its own. -/
def merge (target source : SymbolTable) : SymbolTable :=
  { target with
    functions := target.functions.union source.functions
    classes := target.classes.union source.classes
    bindings := target.bindings.union source.bindings
    methods := source.methods.toList.foldl (fun m e => addMembers m e.1 e.2) target.methods }

/-- The class whose methods a name gives access to: the one its variable is built from, or the class
it names itself. -/
def classOf? (t : SymbolTable) (target : String) : Option String :=
  (t.variableTypes.find? target).or (if target ∈ t.classes then some target else none)

def methodsOf (t : SymbolTable) (target : String) : NameSet :=
  ((t.classOf? target).bind t.methods.find?).getD ∅

def propertiesOf (t : SymbolTable) (target : String) : NameSet :=
  (t.properties.find? target).getD ∅

end SymbolTable

end AbleIndex
