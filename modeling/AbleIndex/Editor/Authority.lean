import AbleIndex.Text.Digit
import AbleIndex.Text.Lines

/-!
The authority of a URI: a host, with a user before it and a port behind it. A host in brackets is an
address in groups of hexadecimal digits, or one of a kind that is yet to come.
-/

namespace AbleIndex.Authority

open Text

def cut (sep : Char) (cs : List Char) : List Char × Option (List Char) :=
  (cs.takeWhile (· ≠ sep),
    match cs.dropWhile (· ≠ sep) with
    | [] => none
    | _ :: rest => some rest)

def decimalValue (ds : List Char) : Nat := ds.foldl (fun n d => 10 * n + (d.toNat - '0'.toNat)) 0

def isOctet (cs : List Char) : Bool :=
  cs ≠ [] && cs.all Char.isDigit && cs.length ≤ 3 && (cs = ['0'] || cs.head? ≠ some '0') &&
    decimalValue cs ≤ 255

def isDotted (cs : List Char) : Bool :=
  let octets := pieces '.' cs
  octets.length = 4 && octets.all isOctet

def isGroup (cs : List Char) : Bool :=
  cs ≠ [] && cs.length ≤ 4 && cs.all fun c => (hexValue? c).isSome

def groupCount? (endsDotted : Bool) : List (List Char) → Option Nat
  | [] => none
  | [g] => if isGroup g then some 1 else if endsDotted && isDotted g then some 2 else none
  | g :: gs => if isGroup g then (groupCount? endsDotted gs).map (· + 1) else none

def groupsIn? (endsDotted : Bool) (cs : List Char) : Option Nat :=
  if cs = [] then some 0 else groupCount? endsDotted (pieces ':' cs)

def splitGap? : List Char → Option (List Char × List Char)
  | [] => none
  | ':' :: ':' :: cs => some ([], cs)
  | c :: cs => (splitGap? cs).map fun p => (c :: p.1, p.2)

def isGrouped (cs : List Char) : Bool :=
  match splitGap? cs with
  | none => groupsIn? true cs = some 8
  | some (high, low) =>
    match groupsIn? false high, groupsIn? true low with
    | some m, some n => m + n < 8
    | _, _ => false

def isZoned (cs : List Char) : Bool :=
  match cut '%' cs with
  | (address, none) => isGrouped address
  | (address, some zone) => isGrouped address && zone ≠ [] && !zone.contains '%'

def isBracketed : List Char → Bool
  | 'v' :: cs =>
    match cut '.' cs with
    | (_, none) => false
    | (version, some address) =>
      version ≠ [] && version.all (fun c => (hexValue? c).isSome) && address ≠ []
  | cs => isZoned cs

def hostAndPort (cs : List Char) : List Char := (cs.reverse.takeWhile (· ≠ '@')).reverse

def holdsBracketed (cs : List Char) : Bool :=
  match cut '[' (hostAndPort cs) with
  | (host, none) => isBracketed (cut ':' host).1
  | (before, some rest) =>
    let (host, port) := cut ']' rest
    before = [] && (port.getD []).head?.all (· = ':') && isBracketed host

/-- The characters that stand for others among which there is a slash, a question mark, a number sign,
an at sign or a colon. -/
def disguises : List Nat :=
  [0x2047, 0x2048, 0x2049, 0x2100, 0x2101, 0x2105, 0x2106, 0x2A74, 0xFE13, 0xFE16, 0xFE55, 0xFE56,
   0xFE5F, 0xFE6B, 0xFF03, 0xFF0F, 0xFF1A, 0xFF1F, 0xFF20]

def isWellFormed (cs : List Char) : Bool :=
  cs.contains '[' == cs.contains ']' && (!cs.contains '[' || holdsBracketed cs) &&
    !cs.any fun c => disguises.contains c.toNat

end AbleIndex.Authority
