import AbleIndex.Editor.Authority
import AbleIndex.Text.Utf8

namespace AbleIndex.Uri

open Text

/-- Turns percent escapes into the characters they stand for. `bytes` are those met since the last
character outside the ASCII range, last one first; an escape that is not one stands for itself. -/
def decodeChars (bytes : List Nat) : List Char → List Char
  | [] => decodeLossy bytes.reverse
  | '%' :: a :: b :: cs =>
    match hexValue? a, hexValue? b with
    | some m, some n => decodeChars ((16 * m + n) :: bytes) cs
    | _, _ => decodeChars (0x25 :: bytes) (a :: b :: cs)
  | c :: cs =>
    if c.toNat < 0x80 then decodeChars (c.toNat :: bytes) cs
    else decodeLossy bytes.reverse ++ c :: decodeChars [] cs

def percentDecode (cs : List Char) : List Char := decodeChars [] cs

def documentKey (uri : String) : String := String.ofList (percentDecode uri.toList)

def isMargin (c : Char) : Bool := c.toNat ≤ 0x20

def isLayout (c : Char) : Bool := c = '\t' || c = '\n' || c = '\r'

def isLetter (c : Char) : Bool := ('a' ≤ c && c ≤ 'z') || ('A' ≤ c && c ≤ 'Z')

def isSchemeChar (c : Char) : Bool :=
  isLetter c || ('0' ≤ c && c ≤ '9') || c = '+' || c = '-' || c = '.'

def afterScheme (cs : List Char) : List Char :=
  let scheme := cs.takeWhile isSchemeChar
  match cs.dropWhile isSchemeChar with
  | ':' :: rest => if scheme.head?.any isLetter then rest else cs
  | _ => cs

structure Parts where
  authority : List Char
  path : List Char
  deriving DecidableEq

def parts (uri : String) : Parts :=
  let rest := afterScheme ((uri.toList.dropWhile isMargin).filter (!isLayout ·))
  match (rest.takeWhile (· ≠ '#')).takeWhile (· ≠ '?') with
  | '/' :: '/' :: cs => ⟨cs.takeWhile (· ≠ '/'), cs.dropWhile (· ≠ '/')⟩
  | cs => ⟨[], cs⟩

def isWellFormed (uri : String) : Bool := Authority.isWellFormed (parts uri).authority

def dropDriveSlash : List Char → List Char
  | '/' :: d :: ':' :: cs => if isLetter d then d.toLower :: ':' :: cs else '/' :: d :: ':' :: cs
  | cs => cs

def pathOf (authority path : List Char) : List Char :=
  if authority ≠ [] ∧ path ≠ [] then '/' :: '/' :: authority ++ path else dropDriveSlash path

def fileStart : List Char := "file://".toList

/-- The path of a file URI. The authority, if there is one, starts a path of its own. -/
def toPath? (uri : String) : Option String :=
  if fileStart.isPrefixOf uri.toList && isWellFormed uri then
    let p := parts uri
    some (String.ofList (pathOf (percentDecode p.authority) (percentDecode p.path)))
  else none

def isNameable (path : String) : Bool :=
  match path.toList with
  | '/' :: '/' :: cs => cs.contains '/'
  | _ => true

end AbleIndex.Uri
