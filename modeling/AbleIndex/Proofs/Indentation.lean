import AbleIndex.Proofs.ContextForms
import AbleIndex.Proofs.Segments

namespace AbleIndex

open Source Text

namespace Source

variable {run line other : List Char}

theorem isBlank_of_isIndent {c : Char} (h : isIndent c = true) : isBlank c = true := by
  simp only [isIndent, Bool.or_eq_true, decide_eq_true_eq] at h
  obtain rfl | rfl := h
  · rfl
  · rfl

theorem foldl_columnWidth (cs : List Char) (start : Nat) :
    cs.foldl (fun n c => n + columnWidth c) start = start + cs.foldl (fun n c => n + columnWidth c) 0 := by
  induction cs generalizing start with
  | nil => rfl
  | cons c cs ih =>
    rw [List.foldl_cons, List.foldl_cons, ih, ih (0 + columnWidth c)]
    omega

theorem indentWidth_append (h : ∀ c ∈ run, isIndent c = true) (line : List Char) :
    indentWidth (run ++ line) = indentWidth run + indentWidth line := by
  have hrun : run.takeWhile isIndent = run := List.takeWhile_eq_self_iff.mpr h
  unfold indentWidth
  rw [List.takeWhile_append_of_pos h, hrun, List.foldl_append, foldl_columnWidth]

theorem indentLevel_append_of_width (h : ∀ c ∈ run, isIndent c = true) (hw : indentWidth run = levelWidth)
    (line : List Char) : indentLevel (run ++ line) = indentLevel line + 1 := by
  simp only [indentLevel, indentWidth_append h, hw, levelWidth]
  omega

structure SameCode (line other : List Char) : Prop where
  words : skipBlanks line = skipBlanks other
  objectKeys : objectKeys line = objectKeys other
  brace : line.contains '\x7d' = other.contains '\x7d'

namespace SameCode

theorem className (h : SameCode line other) : className? line = className? other := by
  rw [className?, className?, h.words]

theorem functionName (h : SameCode line other) : functionName? line = functionName? other := by
  rw [functionName?, functionName?, h.words]

theorem binding (h : SameCode line other) : binding? line = binding? other := by
  rw [binding?, binding?, h.words]

theorem objectStart (h : SameCode line other) : objectStart? line = objectStart? other := by
  rw [objectStart?, objectStart?, h.binding]

theorem readsAlike (h : SameCode line other) (hi : indentLevel line = indentLevel other) :
    Extractor.ReadsAlike line other where
  indent := hi
  className := h.className
  functionName := h.functionName
  assignment := by rw [assignment?, assignment?, h.binding]
  construction := by rw [construction?, construction?, h.binding]
  objectStart := h.objectStart
  objectKeys := h.objectKeys
  brace := h.brace

theorem symm (h : SameCode line other) : SameCode other line := ⟨h.words.symm, h.objectKeys.symm, h.brace.symm⟩

theorem trans {last : List Char} (h : SameCode line other) (h' : SameCode other last) : SameCode line last :=
  ⟨h.words.trans h'.words, h.objectKeys.trans h'.objectKeys, h.brace.trans h'.brace⟩

end SameCode

theorem findAll_append_left {reader : List Char → Option (String × Nat)}
    (h : ∀ c ∈ run, ∀ cs, reader (c :: cs) = none) (line : List Char) :
    findAll reader 0 (run ++ line) = findAll reader 0 line := by
  induction run with
  | nil => rfl
  | cons c run ih =>
    rw [List.cons_append, findAll, h c List.mem_cons_self]
    exact ih fun d hd => h d (List.mem_cons_of_mem c hd)

theorem bareKey?_blank {c : Char} (hc : isBlank c = true) (cs : List Char) : bareKey? (c :: cs) = none := by
  have hstart : isWordStart c = false := by
    by_contra hs
    have hword := isWordChar_of_isWordStart (by simpa using hs)
    rw [isWordChar_eq_false_of_isBlank hc] at hword
    cases hword
  simp [bareKey?, identifier?, hstart]

theorem quotedKey?_blank {c : Char} (hc : isBlank c = true) (cs : List Char) : quotedKey? (c :: cs) = none := by
  have hquote : '"' ≠ c := (ne_of_isBlank hc rfl).symm
  rw [quotedKey?, after?_eq_none _ _ hquote]
  rfl

theorem sameCode_append (h : ∀ c ∈ run, isIndent c = true) (line : List Char) : SameCode (run ++ line) line := by
  have hblank : ∀ c ∈ run, isBlank c = true := fun c hc => isBlank_of_isIndent (h c hc)
  refine ⟨skipBlanks_append_of_blank hblank line, ?_, ?_⟩
  · rw [objectKeys, bareKeys, quotedKeys, findAll_append_left fun c hc => bareKey?_blank (hblank c hc),
      findAll_append_left fun c hc => quotedKey?_blank (hblank c hc)]
    rfl
  · have hbrace : '\x7d' ∉ run := by
      intro hc
      cases hblank _ hc
    simp [hbrace]

theorem stripComments_append_left (h : ∀ c ∈ run, isIndent c = true) (line : List Char) :
    stripComments false (run ++ line) = (run ++ (stripComments false line).1, (stripComments false line).2) := by
  simp only [stripComments_eq]
  induction run with
  | nil => rfl
  | cons c run ih =>
    have hc := isBlank_of_isIndent (h c List.mem_cons_self)
    have hkeeps : (Mode.start false).keeps c = true := by
      simp [Mode.start, Mode.keeps, ne_of_isBlank hc (d := '#') rfl]
    have hnext : (Mode.start false).next c = Mode.start false := by
      simp [Mode.start, Mode.next, ne_of_isBlank hc (d := '#') rfl, ne_of_isBlank hc (d := '\\') rfl,
        ne_of_isBlank hc (d := '"') rfl]
    rw [List.cons_append, stripFrom_cons_of_keeps hkeeps, hnext, ih fun d hd => h d (List.mem_cons_of_mem c hd)]
    rfl

theorem stripComments_comment_append_left (h : ∀ c ∈ run, isIndent c = true) (line : List Char) :
    stripComments true (run ++ line) = stripComments true line := by
  simp only [stripComments_eq]
  induction run with
  | nil => rfl
  | cons c run ih =>
    have hc := isBlank_of_isIndent (h c List.mem_cons_self)
    have hnext : (Mode.start true).next c = Mode.start true := by
      simp [Mode.start, Mode.next, ne_of_isBlank hc (d := '#') rfl]
    rw [List.cons_append, stripFrom_cons_of_not_keeps rfl, hnext]
    exact ih fun d hd => h d (List.mem_cons_of_mem c hd)

theorem isBlankLine_append (h : ∀ c ∈ run, isIndent c = true) (line : List Char) :
    isBlankLine (run ++ line) = isBlankLine line := by
  have hrun : run.all isBlank = true := List.all_eq_true.mpr fun c hc => isBlank_of_isIndent (h c hc)
  simp [isBlankLine, hrun]

structure SameIndent (line other : List Char) : Prop where
  width : indentWidth line = indentWidth other
  rest : line.dropWhile isIndent = other.dropWhile isIndent

def PushedIn (line other : List Char) : Prop := other = '\t' :: line ∨ other = "    ".toList ++ line

instance (line other : List Char) : Decidable (SameIndent line other) :=
  decidable_of_iff (indentWidth line = indentWidth other ∧ line.dropWhile isIndent = other.dropWhile isIndent)
    ⟨fun h => ⟨h.1, h.2⟩, fun h => ⟨h.width, h.rest⟩⟩

instance (line other : List Char) : Decidable (PushedIn line other) := inferInstanceAs (Decidable (_ ∨ _))

theorem PushedIn.exists_run (h : PushedIn line other) :
    ∃ run, (∀ c ∈ run, isIndent c = true) ∧ indentWidth run = levelWidth ∧ other = run ++ line := by
  obtain rfl | rfl := h
  · exact ⟨['\t'], List.all_eq_true.mp rfl, rfl, rfl⟩
  · exact ⟨"    ".toList, List.all_eq_true.mp rfl, rfl, rfl⟩

/-- No code stands on the lines that begin inside a block comment. -/
def CommentsFillLines (inComment : Bool) (lines : List (List Char)) : Prop :=
  ∀ i < lines.length, commentAfter inComment (lines.take i) = true →
    isBlankLine (stripComments true (lines.getD i [])).1 = true

instance (inComment : Bool) (lines : List (List Char)) : Decidable (CommentsFillLines inComment lines) :=
  inferInstanceAs (Decidable (∀ i < lines.length, _))

theorem CommentsFillLines.head {inComment : Bool} {lines : List (List Char)}
    (h : CommentsFillLines inComment (line :: lines)) (hc : inComment = true) :
    isBlankLine (stripComments true line).1 = true :=
  h 0 (Nat.zero_lt_succ _) hc

theorem CommentsFillLines.tail {inComment : Bool} {lines : List (List Char)}
    (h : CommentsFillLines inComment (line :: lines)) : CommentsFillLines (stripComments inComment line).2 lines := by
  intro i hi hc
  exact h (i + 1) (Nat.succ_lt_succ hi) hc

end Source

namespace Extractor

variable {s : Extractor} {line other run : List Char}

theorem readLine_of_sameIndent (h : SameIndent line other) (s : Extractor) : s.readLine line = s.readLine other := by
  obtain ⟨run, rest, rfl, hrun, htake, hrest⟩ := exists_run isIndent line
  obtain ⟨run', rest', rfl, hrun', htake', hrest'⟩ := exists_run isIndent other
  obtain rfl : rest = rest' := by rw [← hrest, ← hrest', h.rest]
  have hwidth : indentWidth run = indentWidth run' := by
    have := h.width
    rw [indentWidth_append hrun, indentWidth_append hrun'] at this
    omega
  unfold readLine
  cases s.inComment with
  | true => rw [stripComments_comment_append_left hrun, stripComments_comment_append_left hrun']
  | false =>
    have halike (code : List Char) : ReadsAlike (run ++ code) (run' ++ code) := by
      apply ((sameCode_append hrun code).trans (sameCode_append hrun' code).symm).readsAlike
      rw [indentLevel, indentLevel, indentWidth_append hrun, indentWidth_append hrun', hwidth]
    rw [stripComments_append_left hrun, stripComments_append_left hrun']
    dsimp only
    rw [isBlankLine_append hrun, isBlankLine_append hrun', (halike _).readCode_eq]

def deepen (f : Frame) : Frame := { f with indent := f.indent + 1 }

def pushedIn (s : Extractor) : Extractor :=
  { s with
    table := { s.table with bindings := ∅, variableTypes := ∅ }
    scopes := s.scopes.map deepen
    openObject := s.openObject.map deepen }

theorem leave_map_deepen (indent : Nat) (scopes : List Frame) :
    leave (indent + 1) (scopes.map deepen) = (leave indent scopes).map deepen := by
  have htest : (fun f : Frame => decide (indent + 1 ≤ f.indent)) ∘ deepen = fun f => decide (indent ≤ f.indent) := by
    funext f
    simp [deepen]
  rw [leave, List.dropWhile_map, htest]
  rfl

theorem closes_deepen (h : SameCode line other) (o : Frame) (indent : Nat) (starts : Bool) :
    closes (deepen o) other (indent + 1) starts = closes o line indent starts := by
  rw [closes, closes, h.brace]
  simp [deepen]

theorem collecting_pushedIn (h : SameCode line other) (hi : indentLevel other = indentLevel line + 1) (s : Extractor) :
    s.pushedIn.collecting other = (s.collecting line).map deepen := by
  rw [collecting, collecting, ← h.objectStart, hi]
  cases objectStart? line with
  | none => rfl
  | some name => rfl

theorem readStatement_pushedIn (h : SameCode line other) (hi : indentLevel other = indentLevel line + 1)
    (s : Extractor) :
    s.pushedIn.readStatement other (indentLevel other) = (s.readStatement line (indentLevel line)).pushedIn := by
  have hlevel : indentLevel other ≠ 0 := by omega
  have hcloses : (fun o => !closes o other (indentLevel other) (objectStart? other).isSome) ∘ deepen =
      fun o => !closes o line (indentLevel line) (objectStart? line).isSome := by
    funext o
    rw [Function.comp_apply, hi, closes_deepen h, h.objectStart]
  rw [readStatement_eq, readStatement_eq, collecting_pushedIn h hi, Option.filter_map, hcloses]
  simp only [topBinding?, topConstruction?, if_neg hlevel, ← h.objectKeys]
  cases s.collecting line with
  | none => rfl
  | some o => rfl

theorem readCode_pushedIn (h : SameCode line other) (hi : indentLevel other = indentLevel line + 1) (s : Extractor) :
    s.pushedIn.readCode other = (s.readCode line).pushedIn := by
  have hleave : { s.pushedIn with scopes := leave (indentLevel other) s.pushedIn.scopes } =
      { s with scopes := leave (indentLevel line) s.scopes }.pushedIn := by
    rw [hi]
    simp only [pushedIn, leave_map_deepen]
  unfold readCode
  dsimp only
  rw [hleave, ← h.className, ← h.functionName]
  generalize { s with scopes := leave (indentLevel line) s.scopes } = s'
  cases className? line with
  | some name =>
    rw [hi]
    rfl
  | none =>
    cases functionName? line with
    | none => exact readStatement_pushedIn h hi s'
    | some name =>
      obtain ⟨table, scopes, openObject, inComment⟩ := s'
      cases scopes with
      | nil => rfl
      | cons f scopes => rfl

theorem readLine_pushedIn (h : PushedIn line other)
    (hc : s.inComment = true → isBlankLine (stripComments true line).1 = true) :
    s.pushedIn.readLine other = (s.readLine line).pushedIn := by
  obtain ⟨run, hrun, hwidth, rfl⟩ := h.exists_run
  have hcomment : s.pushedIn.inComment = s.inComment := rfl
  unfold readLine
  dsimp only
  rw [hcomment]
  cases hs : s.inComment with
  | true =>
    -- what is put in front is part of the comment
    rw [stripComments_comment_append_left hrun, if_pos (hc hs), if_pos (hc hs)]
    rfl
  | false =>
    rw [stripComments_append_left hrun]
    dsimp only
    rw [isBlankLine_append hrun]
    split
    · rfl
    · exact readCode_pushedIn (sameCode_append hrun _).symm (indentLevel_append_of_width hrun hwidth _)
        { s with inComment := (stripComments false line).2 }

theorem inComment_readLine (s : Extractor) (line : List Char) :
    (s.readLine line).inComment = (stripComments s.inComment line).2 := by
  rw [readLine_eq]
  rfl

theorem foldl_readLine_pushedIn {lines others : List (List Char)} (h : List.Forall₂ PushedIn lines others)
    (s : Extractor) (hc : CommentsFillLines s.inComment lines) :
    others.foldl readLine s.pushedIn = (lines.foldl readLine s).pushedIn := by
  induction h generalizing s with
  | nil => rfl
  | cons hl _ ih =>
    rw [List.foldl_cons, List.foldl_cons, readLine_pushedIn hl hc.head]
    apply ih
    rw [inComment_readLine]
    exact hc.tail

/-- Lines that are indented by the same width with other spaces and tabs are read alike. A text whose lines are all pushed
in by one tab or four spaces has the same table, but without its variables, if no code stands behind the end of a block
comment on a line that begins inside it. -/
theorem read_by_relative_indent :
    (∀ (s : Extractor) (a b : List Char), List.Forall₂ SameIndent (sourceLines a) (sourceLines b) →
      s.read a = s.read b) ∧
    ∀ a b : List Char, List.Forall₂ PushedIn (sourceLines a) (sourceLines b) →
      CommentsFillLines false (sourceLines a) →
      (({} : Extractor).read b).table =
        { (({} : Extractor).read a).table with bindings := ∅, variableTypes := ∅ } := by
  refine ⟨?_, ?_⟩
  · intro s a b h
    exact foldl_readLine_congr readLine_of_sameIndent h s
  · intro a b h hc
    exact congrArg table (foldl_readLine_pushedIn h {} hc)

theorem read_by_relative_indent_mixed :
    let a := "class A\r\n    fun m\n\to = \x7b\n\t\tk: 1\n##\n note ##\nv = A(".toList
    let b := "class A\r\n\tfun m\n    o = \x7b\n  \t  k: 1\n##\n note ##\nv = A(".toList
    let c := "\tclass A\r\n        fun m\n    \to = \x7b\n\t\t\tk: 1\n    ##\n\t note ##\n    v = A(".toList
    List.Forall₂ SameIndent (sourceLines a) (sourceLines b) ∧ ({} : Extractor).read a = ({} : Extractor).read b ∧
      List.Forall₂ PushedIn (sourceLines a) (sourceLines c) ∧ CommentsFillLines false (sourceLines a) ∧
      (({} : Extractor).read a).table.bindings.toList = ["v"] ∧
      (({} : Extractor).read c).table =
        { (({} : Extractor).read a).table with bindings := ∅, variableTypes := ∅ } := by
  intro a b c
  have hsame : List.Forall₂ SameIndent (sourceLines a) (sourceLines b) := by decide +kernel
  have hpushed : List.Forall₂ PushedIn (sourceLines a) (sourceLines c) := by decide +kernel
  have hcomments : CommentsFillLines false (sourceLines a) := by decide +kernel
  have hbound : (({} : Extractor).read a).table.bindings.toList = ["v"] := by decide +kernel
  exact ⟨hsame, read_by_relative_indent.1 {} a b hsame, hpushed, hcomments, hbound,
    read_by_relative_indent.2 a c hpushed hcomments⟩

end Extractor

end AbleIndex
