import AbleIndex.Completion.Candidate
import AbleIndex.Json.Printer
import AbleIndex.Symbols.Table

namespace AbleIndex

def rule (width : Nat) : String := String.ofList (List.replicate width '─')

def unlines (lines : List String) : String := "\n".intercalate lines

namespace Candidate

def maxWidth : Nat := 78

def usualColumns : Nat := 80

def columnsOf (told : Option Int) : Nat :=
  ((told.filter (0 < ·)).map Int.toNat).getD usualColumns

def padTo (width : Nat) (s : String) : String :=
  String.ofList (s.toList ++ List.replicate (width - s.length) ' ')

def labelWidth (cs : List Candidate) : Nat := (cs.map (·.label.length)).foldl max 0

def headline (cs : List Candidate) (elapsed : Option Float) : String :=
  "  ABLESENSE — " ++ Decimal.whole cs.length ++ " completion" ++
    (if cs.length = 1 then "" else "s") ++
    match elapsed with
    | none => ""
    | some t => " in " ++ Decimal.fixed 4 (.ofFloat t) ++ " seconds"

def consoleText (columns : Nat) (elapsed : Option Float) (cs : List Candidate) : String :=
  if cs = [] then "\n  No completions.\n"
  else
    let thin := rule (min columns maxWidth)
    let rows := cs.map fun c => "  " ++ padTo (labelWidth cs) c.label ++ "  " ++ c.kind.text
    unlines (["\n" ++ thin, headline cs elapsed, thin] ++ rows ++ [thin])

def toJson (c : Candidate) : Json := .obj [("label", .str c.label), ("kind", .str c.kind.text)]

def jsonText (cs : List Candidate) : String := (Json.arr (cs.map toJson)).text

end Candidate

namespace SymbolTable

def setsToJson (m : NameMap NameSet) : Json :=
  .obj (m.toList.map fun e => (e.1, .ofNames e.2.toList))

def jsonFields (t : SymbolTable) : List (String × Json) :=
  [("functions", .ofNames t.functions.toList),
   ("classes", .ofNames t.classes.toList),
   ("variables", .ofNames t.bindings.toList),
   ("class_methods", setsToJson t.methods),
   ("variable_types", .obj (t.variableTypes.toList.map fun e => (e.1, .str e.2))),
   ("object_properties", setsToJson t.properties)]

def jsonText (t : SymbolTable) (moduleName : Option String) : String :=
  let name := moduleName.filter (· ≠ "")
  (Json.obj (name.toList.map (fun n => ("module", .str n)) ++ t.jsonFields)).text

def listOr (names : List String) : String :=
  let s := ", ".intercalate names
  if s = "" then "-" else s

def consoleText (t : SymbolTable) (moduleName : Option String) : String :=
  unlines (
    ["  Module     : " ++ (moduleName.filter (· ≠ "")).getD "(not under a search root)",
     "  Functions  : " ++ listOr t.functions.toList,
     "  Classes    : " ++ listOr t.classes.toList] ++
    t.methods.toList.map (fun e => "    " ++ e.1 ++ ": " ++ ", ".intercalate e.2.toList) ++
    ["  Variables  : " ++ listOr t.bindings.toList] ++
    t.variableTypes.toList.map (fun e => "    " ++ e.1 ++ " = " ++ e.2 ++ "(...)") ++
    t.properties.toList.map fun e =>
      "    " ++ e.1 ++ " = \x7b" ++ ", ".intercalate e.2.toList ++ "\x7d")

end SymbolTable

end AbleIndex
