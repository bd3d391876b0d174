/-!
Comments. Two hash signs open a block comment and two close it, over any number of lines; a single
one ends the line. Neither counts inside a string literal. The scanner is a machine that reads one
character at a time, so that what it does to a line is what it does to the parts in turn.
-/

namespace AbleIndex.Source

inductive Mode
  | code
  | escape
  | hash
  | string
  | stringEscape
  | comment
  | commentHash
  | ended
  deriving DecidableEq

namespace Mode

def next : Mode → Char → Mode
  | code, c => if c = '#' then hash else if c = '\\' then escape else if c = '"' then string else code
  | escape, c => if c = '#' then ended else code
  | hash, c => if c = '#' then comment else ended
  | string, c => if c = '\\' then stringEscape else if c = '"' then code else string
  | stringEscape, _ => string
  | comment, c => if c = '#' then commentHash else comment
  | commentHash, c => if c = '#' then code else comment
  | ended, _ => ended

def keeps : Mode → Char → Bool
  | code, c => c ≠ '#'
  | escape, c => c ≠ '#'
  | string, _ => true
  | stringEscape, _ => true
  | _, _ => false

def inComment : Mode → Bool
  | comment => true
  | commentHash => true
  | _ => false

def start (inComment : Bool) : Mode := if inComment then comment else code

end Mode

structure Scan where
  mode : Mode
  code : List Char

def Scan.read (s : Scan) (c : Char) : Scan :=
  ⟨s.mode.next c, if s.mode.keeps c then c :: s.code else s.code⟩

/-- What has been met before does not bear on what is kept of the rest. -/
theorem foldl_read (m : Mode) (code line : List Char) :
    line.foldl Scan.read ⟨m, code⟩ =
      ⟨line.foldl Mode.next m, (line.foldl Scan.read ⟨m, []⟩).code ++ code⟩ := by
  induction line generalizing m code with
  | nil => rfl
  | cons c cs ih =>
    simp only [List.foldl_cons, Scan.read]
    rw [ih, ih (m.next c) (if m.keeps c then [c] else [])]
    cases m.keeps c <;> simp

def stripComments (inComment : Bool) (line : List Char) : List Char × Bool :=
  let s := line.foldl Scan.read ⟨.start inComment, []⟩
  (s.code.reverse, s.mode.inComment)

def codeLines : Bool → List (List Char) → List (List Char)
  | _, [] => []
  | inComment, line :: lines =>
    let r := stripComments inComment line
    r.1 :: codeLines r.2 lines

def commentAfter (inComment : Bool) (lines : List (List Char)) : Bool :=
  lines.foldl (fun b line => (stripComments b line).2) inComment

end AbleIndex.Source
