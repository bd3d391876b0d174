namespace AbleIndex

inductive CandidateKind
  | keyword
  | typeName
  | function
  | className
  | variableName
  | method
  | property
  | moduleName
  deriving DecidableEq, Inhabited

namespace CandidateKind

def text : CandidateKind → String
  | keyword => "keyword"
  | typeName => "type"
  | function => "function"
  | className => "class"
  | variableName => "variable"
  | method => "method"
  | property => "property"
  | moduleName => "module"

def all : List CandidateKind :=
  [keyword, typeName, function, className, variableName, method, property, moduleName]

def ofText? (s : String) : Option CandidateKind := all.find? (·.text = s)

def itemNumber : CandidateKind → Nat
  | keyword => 14
  | typeName => 7
  | function => 3
  | className => 7
  | variableName => 6
  | method => 2
  | property => 10
  | moduleName => 9

end CandidateKind

structure Candidate where
  label : String
  kind : CandidateKind
  deriving DecidableEq, Inhabited

namespace Candidate

/-- Candidates of one kind. Empty labels are dropped, and each label is kept where it is first met. -/
def ofLabels (kind : CandidateKind) (labels : List String) : List Candidate :=
  (labels.filter (· ≠ "")).eraseDups.map (⟨·, kind⟩)

end Candidate

end AbleIndex
