namespace AbleIndex.Text

inductive Encoding
  | utf8
  | utf16
  | utf32
  deriving DecidableEq, Inhabited

def Encoding.width : Encoding → Char → Nat
  | .utf8, c => c.utf8Size
  | .utf16, c => if c.toNat < 0x10000 then 1 else 2
  | .utf32, _ => 1

def Encoding.units (e : Encoding) (cs : List Char) : Nat :=
  cs.foldl (fun n c => n + e.width c) 0

def Encoding.charsToReach (e : Encoding) : Nat → List Char → Nat
  | 0, _ => 0
  | _ + 1, [] => 0
  | n + 1, c :: cs => 1 + e.charsToReach (n + 1 - e.width c) cs

def Encoding.ofName? : String → Option Encoding
  | "utf-8" => some .utf8
  | "utf-16" => some .utf16
  | "utf-32" => some .utf32
  | _ => none

end AbleIndex.Text
