namespace AbleIndex

inductive Json
  | null
  | bool (b : Bool)
  | int (n : Int)
  | real (x : Float)
  | str (s : String)
  | arr (items : List Json)
  | obj (fields : List (String × Json))
  deriving Inhabited

namespace Json

def field? : Json → String → Option Json
  | obj fields, key => fields.lookup key
  | _, _ => none

def isFalsy : Json → Bool
  | null => true
  | bool b => !b
  | int n => n == 0
  | real x => x == 0.0
  | str s => s.isEmpty
  | arr items => items.isEmpty
  | obj fields => fields.isEmpty

def ofNames (names : List String) : Json := arr (names.map str)

def infinity : Float := Float.ofBits 0x7FF0000000000000

def nan : Float := Float.ofBits 0x7FF8000000000000

end Json

end AbleIndex
