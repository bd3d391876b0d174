/-!
Three readings of line ends. Source lines end at a line feed, document lines at any line
terminator of Unicode, and text read from a file has its line ends unified first.
-/

namespace AbleIndex.Text

def pieces (sep : Char) (cs : List Char) : List (List Char) :=
  cs.foldr (fun c ps => if c = sep then [] :: ps else (c :: ps.headD []) :: ps.tail) [[]]

theorem pieces_cons (sep c : Char) (cs : List Char) :
    pieces sep (c :: cs) =
      if c = sep then [] :: pieces sep cs
      else (c :: (pieces sep cs).headD []) :: (pieces sep cs).tail := rfl

theorem pieces_ne_nil (sep : Char) (cs : List Char) : pieces sep cs ≠ [] := by
  cases cs with
  | nil => simp [pieces]
  | cons c cs =>
    rw [pieces_cons]
    split <;> simp

theorem pieces_append (sep : Char) (a b : List Char) :
    pieces sep (a ++ sep :: b) = pieces sep a ++ pieces sep b := by
  induction a with
  | nil => simp [pieces]
  | cons c a ih =>
    obtain ⟨p, ps, hp⟩ := List.exists_cons_of_ne_nil (pieces_ne_nil sep a)
    rw [List.cons_append, pieces_cons, pieces_cons, ih, hp]
    split <;> simp

theorem not_mem_of_mem_pieces {sep : Char} {cs p : List Char} (h : p ∈ pieces sep cs) : sep ∉ p := by
  induction cs generalizing p with
  | nil =>
    have hp : p = [] := by simpa [pieces] using h
    simp [hp]
  | cons c cs ih =>
    obtain ⟨q, ps, hq⟩ := List.exists_cons_of_ne_nil (pieces_ne_nil sep cs)
    rw [hq] at ih
    rw [pieces_cons, hq] at h
    split at h
    · rcases List.mem_cons.mp h with rfl | h
      · simp
      · exact ih h
    · rename_i hc
      rcases List.mem_cons.mp h with rfl | h
      · have := ih (p := q) (by simp)
        simp [this, Ne.symm hc]
      · exact ih (List.mem_cons_of_mem q h)

def dropReturn (line : List Char) : List Char :=
  if line.getLast? = some '\r' then line.dropLast else line

/-- The lines of a source text. A line feed ends a line and takes one carriage return directly
before it along; the last line keeps its end. -/
def sourceLines (text : List Char) : List (List Char) :=
  let ps := pieces '\n' text
  ps.dropLast.map dropReturn ++ ps.getLast?.toList

structure DocumentLine where
  content : List Char
  terminator : List Char
  deriving DecidableEq

def DocumentLine.text (l : DocumentLine) : List Char := l.content ++ l.terminator

def isTerminator (c : Char) : Bool :=
  let n := c.toNat
  (0x0A ≤ n && n ≤ 0x0D) || (0x1C ≤ n && n ≤ 0x1E) || n == 0x85 || n == 0x2028 || n == 0x2029

def extendLines (c : Char) : List DocumentLine → List DocumentLine
  | [] => if isTerminator c then [⟨[], [c]⟩] else [⟨[c], []⟩]
  | l :: ls =>
    if c = '\r' ∧ l = ⟨[], ['\n']⟩ then ⟨[], ['\r', '\n']⟩ :: ls
    else if isTerminator c then ⟨[], [c]⟩ :: l :: ls
    else ⟨c :: l.content, l.terminator⟩ :: ls

/-- The lines of a document. A carriage return and a line feed directly after it are one
terminator, and no empty line follows the last terminator. -/
def documentLines (text : List Char) : List DocumentLine := text.foldr extendLines []

theorem text_extendLines (c : Char) (ls : List DocumentLine) :
    (extendLines c ls).flatMap DocumentLine.text = c :: ls.flatMap DocumentLine.text := by
  cases ls with
  | nil =>
    rw [extendLines]
    split <;> simp [DocumentLine.text]
  | cons l ls =>
    rw [extendLines]
    split
    · rename_i h
      simp [h.1, h.2, DocumentLine.text]
    · split <;> simp [DocumentLine.text]

theorem text_documentLines (text : List Char) :
    (documentLines text).flatMap DocumentLine.text = text := by
  induction text with
  | nil => rfl
  | cons c cs ih =>
    change (extendLines c (documentLines cs)).flatMap DocumentLine.text = c :: cs
    rw [text_extendLines, ih]

/-- One character of a text whose line ends are unified, after the character `before`. -/
def unified (before : Option Char) (c : Char) : Option Char :=
  if c = '\n' ∧ before = some '\r' then none else if c = '\r' then some '\n' else some c

def unifyLineEnds (text : List Char) : List Char :=
  ((none :: text.map some).zip text).filterMap fun p => unified p.1 p.2

def dropReturns (text : List Char) : List Char :=
  (text.zip (text.tail.map some ++ [none])).filterMap fun p =>
    if p.1 = '\r' ∧ p.2 = some '\n' then none else some p.1

end AbleIndex.Text
