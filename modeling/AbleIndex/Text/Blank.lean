namespace AbleIndex.Text

/-- White space takes in the control characters that end or separate lines and every space of
Unicode; the zero-width characters are not part of it. -/
def isBlank (c : Char) : Bool :=
  let n := c.toNat
  (0x09 ≤ n && n ≤ 0x0D) || (0x1C ≤ n && n ≤ 0x20) || n == 0x85 || n == 0xA0 || n == 0x1680 ||
    (0x2000 ≤ n && n ≤ 0x200A) || n == 0x2028 || n == 0x2029 || n == 0x202F || n == 0x205F ||
    n == 0x3000

def skipBlanks (cs : List Char) : List Char := cs.dropWhile isBlank

def trim (cs : List Char) : List Char := (skipBlanks (skipBlanks cs).reverse).reverse

def isBlankLine (cs : List Char) : Bool := cs.all isBlank

end AbleIndex.Text
