namespace AbleIndex.Command

inductive ValueKind
  | anything
  | directory
  | file
  | format
  | natural
  | integer
  | real
  deriving DecidableEq, Inhabited

structure OptionRule where
  word : String
  letter : Option Char := none
  value : Option ValueKind := none

def OptionRule.takesValue (r : OptionRule) : Bool := r.value.isSome

structure Arguments where
  options : List (String × String) := []
  operands : List String := []
  deriving DecidableEq, Inhabited

namespace Arguments

def value? (a : Arguments) (word : String) : Option String := a.options.reverse.lookup word

def values (a : Arguments) (word : String) : List String :=
  (a.options.filter (·.1 = word)).map (·.2)

def has (a : Arguments) (word : String) : Bool := (a.value? word).isSome

def given (a : Arguments) : List (String × String) :=
  (a.options.map Prod.fst).eraseDups.map fun word => (word, (a.value? word).getD "")

def addOperand (a : Arguments) (s : String) : Arguments := { a with operands := s :: a.operands }

end Arguments

structure Cluster where
  options : List (String × String) := []
  awaiting : Option String := none

/-- The letters behind a single hyphen. A letter that takes a value takes the rest of the argument, or
else the next one. -/
def readLetters (rules : List OptionRule) : List Char → Option Cluster
  | [] => some {}
  | c :: cs => do
    let rule ← rules.find? (·.letter = some c)
    if rule.takesValue then
      some (if cs = [] then { awaiting := some rule.word }
        else { options := [(rule.word, String.ofList cs)] })
    else
      let rest ← readLetters rules cs
      some { rest with options := (rule.word, "") :: rest.options }

def readWord (rules : List OptionRule) (cs : List Char) : Option Cluster := do
  let word := String.ofList (cs.takeWhile (· ≠ '='))
  let rule ← rules.find? (·.word = word)
  match cs.dropWhile (· ≠ '='), rule.takesValue with
  | _ :: value, true => some { options := [(word, String.ofList value)] }
  | _ :: _, false => none
  | [], true => some { awaiting := some word }
  | [], false => some { options := [(word, "")] }

def readOption (rules : List OptionRule) (arg : String) : Option (Option Cluster) :=
  match arg.toList with
  | '-' :: '-' :: cs => some (readWord rules cs)
  | '-' :: c :: cs => some (readLetters rules (c :: cs))
  | _ => none

/-- Reads arguments. Options may stand behind operands only if `mixed` is set; two hyphens alone end
them. There is no result if an option is unknown, lacks its value or has one too many. -/
def readArguments (rules : List OptionRule) (mixed : Bool) : List String → Option Arguments
  | [] => some {}
  | arg :: args =>
    if arg = "--" then some { operands := args }
    else
      match readOption rules arg with
      | some none => none
      | some (some cluster) =>
        match cluster.awaiting, args with
        | none, args =>
          (readArguments rules mixed args).map fun a => { a with options := cluster.options ++ a.options }
        | some _, [] => none
        | some word, value :: args =>
          (readArguments rules mixed args).map fun a =>
            { a with options := cluster.options ++ (word, value) :: a.options }
      | none =>
        if mixed then (readArguments rules mixed args).map (·.addOperand arg)
        else some { operands := arg :: args }

end AbleIndex.Command
