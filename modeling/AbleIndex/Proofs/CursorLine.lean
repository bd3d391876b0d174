import AbleIndex.Proofs.CodeLines
import AbleIndex.Proofs.EditorCompletion

/-!
The line of the cursor and the lines that are parsed. The cursor is looked up among the lines of a document, which end at
any line terminator, while source lines end at line feeds. Both count alike exactly in texts where no other terminator
occurs.
-/

namespace AbleIndex

open Text

namespace Text

variable {c : Char} {text : List Char}

@[elab_as_elim]
theorem lineEnd_induction {motive : List Char → Prop} (nil : motive [])
    (feed : ∀ cs, motive cs → motive ('\n' :: cs)) (returnFeed : ∀ cs, motive cs → motive ('\r' :: '\n' :: cs))
    (char : ∀ c cs, c ≠ '\n' → (c = '\r' → cs.head? ≠ some '\n') → motive cs → motive (c :: cs)) :
    ∀ text, motive text
  | [] => nil
  | c :: cs => by
    by_cases hfeed : c = '\n'
    · rw [hfeed]
      exact feed cs (lineEnd_induction nil feed returnFeed char cs)
    · by_cases hpair : c = '\r' ∧ cs.head? = some '\n'
      · obtain ⟨rfl, hhead⟩ := hpair
        obtain ⟨rest, rfl⟩ := List.head?_eq_some_iff.mp hhead
        exact returnFeed rest (lineEnd_induction nil feed returnFeed char rest)
      · apply char c cs hfeed _ (lineEnd_induction nil feed returnFeed char cs)
        intro hc hhead
        exact hpair ⟨hc, hhead⟩

theorem sourceLines_of_pieces {p q : List Char} {ps : List (List Char)} (h : pieces '\n' text = p :: q :: ps) :
    sourceLines text = dropReturn p :: ((q :: ps).dropLast.map dropReturn ++ (q :: ps).getLast?.toList) := by
  rw [sourceLines, h, List.dropLast_cons_cons, List.getLast?_cons_cons]
  rfl

theorem sourceLines_feed (cs : List Char) : sourceLines ('\n' :: cs) = [] :: sourceLines cs := by
  obtain ⟨p, ps, hp⟩ := List.exists_cons_of_ne_nil (pieces_ne_nil '\n' cs)
  have hfeed : pieces '\n' ('\n' :: cs) = [] :: p :: ps := by rw [pieces_cons, if_pos rfl, hp]
  rw [sourceLines_of_pieces hfeed, sourceLines, hp]
  rfl

theorem sourceLines_returnFeed (cs : List Char) : sourceLines ('\r' :: '\n' :: cs) = [] :: sourceLines cs := by
  obtain ⟨p, ps, hp⟩ := List.exists_cons_of_ne_nil (pieces_ne_nil '\n' cs)
  have hfeed : pieces '\n' ('\r' :: '\n' :: cs) = ['\r'] :: p :: ps := by
    rw [pieces_cons, pieces_cons, if_pos rfl, hp]
    rfl
  rw [sourceLines_of_pieces hfeed, sourceLines, hp]
  rfl

theorem head?_of_pieces {q : List Char} {ps : List (List Char)} (h : pieces '\n' text = [] :: q :: ps) :
    text.head? = some '\n' := by
  cases text with
  | nil => cases h
  | cons d cs =>
    rw [pieces_cons] at h
    split at h
    · rename_i hd
      rw [hd]
      rfl
    · cases h

theorem sourceLines_char {cs : List Char} (hc : c ≠ '\n') (hr : c = '\r' → cs.head? ≠ some '\n') :
    sourceLines (c :: cs) = (c :: (sourceLines cs).headD []) :: (sourceLines cs).tail := by
  obtain ⟨p, ps, hp⟩ := List.exists_cons_of_ne_nil (pieces_ne_nil '\n' cs)
  have hchar : pieces '\n' (c :: cs) = (c :: p) :: ps := by
    rw [pieces_cons, if_neg hc, hp]
    rfl
  cases ps with
  | nil =>
    rw [sourceLines, sourceLines, hp, hchar]
    rfl
  | cons q ps =>
    have hdrop : dropReturn (c :: p) = c :: dropReturn p := by
      by_cases hreturn : c = '\r'
      · -- a return that a feed follows directly would stand before an empty piece
        cases p with
        | nil => exact absurd (head?_of_pieces hp) (hr hreturn)
        | cons d p =>
          unfold dropReturn
          rw [List.getLast?_cons_cons]
          split
          · rfl
          · rfl
      · exact dropReturn_cons hreturn p
    rw [sourceLines_of_pieces hp, sourceLines_of_pieces hchar, hdrop]
    rfl

def documentContents (text : List Char) : List (List Char) := (documentLines text).map DocumentLine.content

theorem documentLines_feed (cs : List Char) : documentLines ('\n' :: cs) = ⟨[], ['\n']⟩ :: documentLines cs := by
  change extendLines '\n' (documentLines cs) = _
  cases documentLines cs with
  | nil => rfl
  | cons l ls => rfl

theorem documentContents_feed (cs : List Char) : documentContents ('\n' :: cs) = [] :: documentContents cs := by
  rw [documentContents, documentLines_feed]
  rfl

theorem documentContents_returnFeed (cs : List Char) :
    documentContents ('\r' :: '\n' :: cs) = [] :: documentContents cs := by
  have hlines : documentLines ('\r' :: '\n' :: cs) = ⟨[], ['\r', '\n']⟩ :: documentLines cs := by
    change extendLines '\r' (documentLines ('\n' :: cs)) = _
    rw [documentLines_feed]
    rfl
  rw [documentContents, hlines]
  rfl

theorem documentContents_char (hc : isTerminator c = false) (cs : List Char) :
    documentContents (c :: cs) = (c :: (documentContents cs).headD []) :: (documentContents cs).tail := by
  have hreturn : c ≠ '\r' := by
    rintro rfl
    cases hc
  have hlines : documentLines (c :: cs) = extendLines c (documentLines cs) := rfl
  rw [documentContents, documentContents, hlines]
  cases documentLines cs with
  | nil => simp [extendLines, hc]
  | cons l ls => simp [extendLines, hc, hreturn]

structure EndsPlainly (text : List Char) : Prop where
  paired : ReturnsPaired text
  only : ∀ c ∈ text, isTerminator c = true → c = '\r' ∨ c = '\n'

instance (text : List Char) : Decidable (EndsPlainly text) :=
  decidable_of_iff
    (ReturnsPaired text ∧ text.all (fun c => !isTerminator c || decide (c = '\r') || decide (c = '\n')) = true)
    ⟨fun h => ⟨h.1, by simpa [or_iff_not_imp_left] using h.2⟩,
      fun h => ⟨h.paired, by simpa [or_iff_not_imp_left] using h.only⟩⟩

theorem EndsPlainly.tail (h : EndsPlainly (c :: text)) : EndsPlainly text :=
  ⟨h.paired.of_cons, fun d hd => h.only d (List.mem_cons_of_mem c hd)⟩

theorem EndsPlainly.cons (h : EndsPlainly text)
    (hc : isTerminator c = true → c = '\n' ∨ c = '\r' ∧ text.head? = some '\n') : EndsPlainly (c :: text) where
  paired i hi := by
    cases i with
    | succ i => exact h.paired i hi
    | zero =>
      obtain rfl : c = '\r' := Option.some.inj hi
      obtain hfeed | ⟨-, hhead⟩ := hc rfl
      · cases hfeed
      · rw [List.getElem?_cons_succ, ← List.head?_eq_getElem?]
        exact hhead
  only d hd ht := by
    obtain rfl | hd := List.mem_cons.mp hd
    · obtain hfeed | ⟨hreturn, -⟩ := hc ht
      · exact .inr hfeed
      · exact .inl hreturn
    · exact h.only d hd ht

theorem getD_extended (c : Char) (lines : List (List Char)) (i : Nat) :
    ((c :: lines.headD []) :: lines.tail).getD i [] = (if i = 0 then [c] else []) ++ lines.getD i [] := by
  cases i with
  | zero => cases lines <;> rfl
  | succ i => cases lines <;> rfl

theorem EndsPlainly.getD_documentContents (h : EndsPlainly text) (i : Nat) :
    (documentContents text).getD i [] = (sourceLines text).getD i [] := by
  induction text using lineEnd_induction generalizing i with
  | nil =>
    cases i with
    | zero => rfl
    | succ i => rfl
  | feed cs ih =>
    rw [documentContents_feed, sourceLines_feed]
    cases i with
    | zero => rfl
    | succ i => exact ih h.tail i
  | returnFeed cs ih =>
    rw [documentContents_returnFeed, sourceLines_returnFeed]
    cases i with
    | zero => rfl
    | succ i => exact ih h.tail.tail i
  | char c cs hfeed hreturn ih =>
    have hc : isTerminator c = false := by
      by_contra ht
      obtain rfl | rfl := h.only c List.mem_cons_self (by simpa using ht)
      · have hnext := h.paired 0 rfl
        rw [List.getElem?_cons_succ, ← List.head?_eq_getElem?] at hnext
        exact hreturn rfl hnext
      · exact hfeed rfl
    rw [documentContents_char hc, sourceLines_char hfeed hreturn, getD_extended, getD_extended, ih h.tail]

theorem endsPlainly_of_sourceLines (h : ∀ line ∈ sourceLines text, ∀ c ∈ line, isTerminator c = false) :
    EndsPlainly text := by
  induction text using lineEnd_induction with
  | nil => exact ⟨nofun, nofun⟩
  | feed cs ih =>
    rw [sourceLines_feed] at h
    exact (ih fun line hl => h line (List.mem_cons_of_mem _ hl)).cons fun _ => .inl rfl
  | returnFeed cs ih =>
    rw [sourceLines_returnFeed] at h
    have hcs := ih fun line hl => h line (List.mem_cons_of_mem _ hl)
    exact (hcs.cons fun _ => .inl rfl).cons fun _ => .inr ⟨rfl, rfl⟩
  | char c cs hfeed hreturn ih =>
    rw [sourceLines_char hfeed hreturn] at h
    have hc : isTerminator c = false := h _ List.mem_cons_self c List.mem_cons_self
    obtain ⟨first, rest, hlines⟩ := List.exists_cons_of_ne_nil (sourceLines_ne_nil cs)
    rw [hlines] at h ih
    have hcs : EndsPlainly cs := by
      apply ih
      intro line hl d hd
      obtain rfl | hl := List.mem_cons.mp hl
      · exact h _ List.mem_cons_self d (List.mem_cons_of_mem c hd)
      · exact h line (List.mem_cons_of_mem _ hl) d hd
    apply hcs.cons
    rw [hc]
    exact nofun

end Text

namespace Workspace

def parsedLine (text : String) (line : Int) : List Char :=
  if line < 0 then [] else (sourceLines text.toList).getD line.toNat []

theorem parsedLine_natCast (text : String) (line : Nat) :
    parsedLine text line = (sourceLines text.toList).getD line [] := by
  unfold parsedLine
  rw [if_neg (by omega), Int.toNat_natCast]

theorem cursorLine_eq_getD (text : String) (line : Nat) :
    cursorLine text line = (documentContents text.toList).getD line [] := by
  rw [Document.cursorLine_natCast, documentContents, List.getD_eq_getElem?_getD, List.getElem?_map]

theorem isTerminator_of_mem_cursorLine {text : String} {line : Nat} {c : Char} (hc : c ∈ cursorLine text line) :
    isTerminator c = false := by
  rw [Document.cursorLine_natCast] at hc
  cases hl : (documentLines text.toList)[line]? with
  | none =>
    rw [hl] at hc
    cases hc
  | some l =>
    rw [hl] at hc
    exact isTerminator_of_mem_content (List.mem_of_getElem? hl) c hc

theorem cursorLine_eq_parsedLine_iff (text : String) :
    (∀ line, cursorLine text line = parsedLine text line) ↔ EndsPlainly text.toList := by
  constructor
  · intro h
    -- a line of the document holds no terminator, so neither does the parsed line it equals
    apply endsPlainly_of_sourceLines
    intro line hline c hc
    obtain ⟨i, hi⟩ := List.getElem?_of_mem hline
    have hsame := h (i : Int)
    rw [parsedLine_natCast, List.getD_eq_getElem?_getD, hi] at hsame
    have hcursor : c ∈ cursorLine text i := by
      rw [hsame]
      exact hc
    exact isTerminator_of_mem_cursorLine hcursor
  · intro h line
    obtain hneg | hpos := lt_or_ge line 0
    · rw [cursorLine, parsedLine, if_pos hneg, if_pos hneg]
    · obtain ⟨i, rfl⟩ := Int.eq_ofNat_of_zero_le hpos
      rw [parsedLine_natCast, cursorLine_eq_getD]
      exact h.getD_documentContents i

/-- The cursor is on the parsed line of its number, whatever the number, exactly in the texts whose lines end in line
feeds alone; there completion is asked for what stands on that line up to the column. -/
theorem completeAt_parsedLine (text : String) :
    ((∀ line, cursorLine text line = parsedLine text line) ↔ EndsPlainly text.toList) ∧
    (EndsPlainly text.toList →
      ∀ (h : Host) (w : Workspace) (path : String) (source : Option String) (line column : Int),
        textOf h path source = .ok text →
        let w' := (w.update (h.absolute path) text).1
        w.completeAt h path line column source =
          (w', .ok (w'.complete (String.ofList (upTo (parsedLine text line) column)) (some (h.absolute path))))) := by
  refine ⟨cursorLine_eq_parsedLine_iff text, ?_⟩
  intro hends h w path source line column htext w'
  have hline := (cursorLine_eq_parsedLine_iff text).mpr hends line
  rw [completeAt, htext]
  dsimp only
  rw [hline]

theorem completeAt_parsedLine_plain :
    let h : Host := default
    let w : Workspace := { searchRoots := [⟨.slash, ["t"]⟩] }
    let text := "o = \x7bk: 1\x7d\r\no.\n"
    EndsPlainly text.toList ∧ parsedLine text 1 = "o.".toList ∧ parsedLine text 2 = [] ∧
      (w.completeAt h "/t/d.abl" 1 2 (some text)).2 = .ok [⟨"k", .property⟩] := by
  intro h w text
  have hends : EndsPlainly text.toList := by decide +kernel
  have hanswer := (completeAt_parsedLine text).2 hends h w "/t/d.abl" (some text) 1 2 rfl
  have hmembers : ((w.update (h.absolute "/t/d.abl") text).1.complete (String.ofList (upTo (parsedLine text 1) 2))
      (some (h.absolute "/t/d.abl"))) = [⟨"k", .property⟩] := by
    unfold h w text
    decide +kernel
  refine ⟨hends, by decide +kernel, by decide +kernel, ?_⟩
  rw [hanswer, hmembers]

theorem completeAt_behind_form_feed :
    let h : Host := default
    let w : Workspace := { searchRoots := [⟨.slash, ["t"]⟩] }
    let text := "\x0c\no = \x7bk: 1\x7d\no."
    let w' := (w.update (h.absolute "/t/d.abl") text).1
    ReturnsPaired text.toList ∧ parsedLine text 2 = "o.".toList ∧ cursorLine text 2 = "o = \x7bk: 1\x7d".toList ∧
      w'.complete (String.ofList (upTo (parsedLine text 2) 2)) (some (h.absolute "/t/d.abl")) = [⟨"k", .property⟩] ∧
      (w.completeAt h "/t/d.abl" 2 2 (some text)).2 ≠ .ok [⟨"k", .property⟩] := by
  decide +kernel

end Workspace

end AbleIndex
