import AbleIndex.Proofs.Reading
import Mathlib.Data.List.DropRight

namespace AbleIndex

open Source Text

namespace Source

section Prefixes

variable {α : Type} {p : α → Bool} {l : List α}

theorem takeWhile_append_of_dropWhile_ne_nil (h : l.dropWhile p ≠ []) (r : List α) :
    (l ++ r).takeWhile p = l.takeWhile p := by
  have hlen : (l.takeWhile p).length ≠ l.length := by
    intro he
    have hsum := congrArg List.length (List.takeWhile_append_dropWhile (p := p) (l := l))
    rw [List.length_append, he] at hsum
    exact h (List.eq_nil_of_length_eq_zero (by omega))
  rw [List.takeWhile_append, if_neg hlen]

theorem dropWhile_append_of_dropWhile_ne_nil (h : l.dropWhile p ≠ []) (r : List α) :
    (l ++ r).dropWhile p = l.dropWhile p ++ r := by
  rw [List.dropWhile_append, if_neg (by simpa using h)]

theorem takeWhile_snoc_of_neg {a : α} (h : p a = false) (l : List α) : (l ++ [a]).takeWhile p = l.takeWhile p := by
  induction l with
  | nil => simp [h]
  | cons b l ih => simp only [List.cons_append, List.takeWhile_cons, ih]

theorem dropWhile_snoc_of_neg {a : α} (h : p a = false) (l : List α) :
    (l ++ [a]).dropWhile p = l.dropWhile p ++ [a] := by
  induction l with
  | nil => simp [h]
  | cons b l ih =>
    simp only [List.cons_append, List.dropWhile_cons, ih]
    split <;> rfl

end Prefixes

theorem skipBlanks_skipBlanks (cs : List Char) : skipBlanks (skipBlanks cs) = skipBlanks cs :=
  List.dropWhile_idempotent isBlank cs

section TrailingBlank

variable {c : Char} (hc : isBlank c = true)
include hc

theorem isWordChar_eq_false_of_isBlank : isWordChar c = false := by
  by_contra h
  have := isBlank_eq_false_of_isWordChar (by simpa using h)
  simp [hc] at this

theorem ne_of_isBlank {d : Char} (hd : isBlank d = false) : c ≠ d := by
  rintro rfl
  simp [hc] at hd

theorem skipBlanks_append_blank (cs : List Char) :
    skipBlanks (cs ++ [c]) = if skipBlanks cs = [] then [] else skipBlanks cs ++ [c] := by
  unfold skipBlanks
  rw [List.dropWhile_append]
  simp [hc]

theorem skipBlanks_skipBlanks_append (cs : List Char) : skipBlanks (skipBlanks cs ++ [c]) = skipBlanks (cs ++ [c]) := by
  rw [skipBlanks_append_blank hc, skipBlanks_append_blank hc, skipBlanks_skipBlanks]

theorem reader_skipBlanks_append {α : Type} (reader : List Char → Option α) {f : α → α} (hnil : reader [] = none)
    (h : ∀ cs, reader (cs ++ [c]) = (reader cs).map f) (cs : List Char) :
    reader (skipBlanks (cs ++ [c])) = (reader (skipBlanks cs)).map f := by
  rw [skipBlanks_append_blank hc]
  split
  · rename_i hs
    rw [hs, hnil]
    rfl
  · exact h _

theorem identifier?_append_blank (cs : List Char) :
    identifier? (cs ++ [c]) = (identifier? cs).map (Prod.map id (· ++ [c])) := by
  have hword := isWordChar_eq_false_of_isBlank hc
  cases cs with
  | nil =>
    have hstart : isWordStart c = false := by
      by_contra h
      simp [isWordChar_of_isWordStart (by simpa using h)] at hword
    simp [identifier?, hstart]
  | cons d ds =>
    rw [List.cons_append, identifier?, identifier?, takeWhile_snoc_of_neg hword, dropWhile_snoc_of_neg hword]
    split <;> rfl

theorem identifier?_skipBlanks_append (cs : List Char) :
    identifier? (skipBlanks (cs ++ [c])) = (identifier? (skipBlanks cs)).map (Prod.map id (· ++ [c])) :=
  reader_skipBlanks_append hc identifier? rfl (identifier?_append_blank hc) cs

theorem identifier?_afterBlank?_append (cs : List Char) :
    (afterBlank? (cs ++ [c])).bind identifier? =
      ((afterBlank? cs).bind identifier?).map (Prod.map id (· ++ [c])) := by
  cases cs with
  | nil =>
    -- the blank itself is read, but no identifier follows it
    simp [afterBlank?, hc, skipBlanks, identifier?]
  | cons d ds =>
    cases hd : isBlank d with
    | false => simp [afterBlank?, hd]
    | true =>
      simp only [List.cons_append, afterBlank?, hd, if_true, Option.bind_some]
      exact identifier?_skipBlanks_append hc ds

omit hc in
theorem after?_append_of_not_mem {word : List Char} (hword : c ∉ word) (cs : List Char) :
    after? word (cs ++ [c]) = (after? word cs).map (· ++ [c]) := by
  apply Option.ext
  intro rest
  simp only [Option.map_eq_some_iff, after?_eq_some]
  constructor
  · intro h
    rcases List.eq_nil_or_concat rest with rfl | ⟨init, d, rfl⟩
    · rw [List.append_nil] at h
      exact absurd (h ▸ List.mem_append_right cs List.mem_cons_self) hword
    · rw [List.concat_eq_append, ← List.append_assoc] at h
      obtain ⟨hcs, hd⟩ := List.append_inj' h rfl
      cases hd
      exact ⟨init, hcs, by simp⟩
  · rintro ⟨init, rfl, rfl⟩
    simp

theorem not_mem_of_isBlank {word : List Char} (hword : word.all (!isBlank ·) = true) : c ∉ word := by
  intro h
  have := List.all_eq_true.mp hword c h
  simp [hc] at this

theorem after?_append_blank {word : List Char} (hword : word.all (!isBlank ·) = true) (cs : List Char) :
    after? word (cs ++ [c]) = (after? word cs).map (· ++ [c]) :=
  after?_append_of_not_mem (not_mem_of_isBlank hc hword) cs

theorem after?_skipBlanks_append {d : Char} {word : List Char} (hword : (d :: word).all (!isBlank ·) = true)
    (cs : List Char) :
    after? (d :: word) (skipBlanks (cs ++ [c])) = (after? (d :: word) (skipBlanks cs)).map (· ++ [c]) :=
  reader_skipBlanks_append hc (after? (d :: word)) rfl (after?_append_blank hc hword) cs

theorem keyword_append_blank {word cs cs' : List Char} (h : after? word cs' = (after? word cs).map (· ++ [c])) :
    (do let rest ← after? word cs'
        let rest ← afterBlank? rest
        let (name, _) ← identifier? rest
        return name) =
      (do let rest ← after? word cs
          let rest ← afterBlank? rest
          let (name, _) ← identifier? rest
          return name) := by
  simp only [bind, pure, h]
  cases after? word cs with
  | none => rfl
  | some rest =>
    have hname := identifier?_afterBlank?_append hc rest
    simp only [Option.map_some, Option.bind_some, ← Option.bind_assoc, hname]
    cases (afterBlank? rest).bind identifier? <;> rfl

theorem className?_append_blank (line : List Char) : className? (line ++ [c]) = className? line :=
  keyword_append_blank hc (after?_skipBlanks_append hc rfl line)

theorem after?_skipAsync_append (cs : List Char) :
    after? "fun".toList (skipAsync (cs ++ [c])) = (after? "fun".toList (skipAsync cs)).map (· ++ [c]) := by
  unfold skipAsync
  rw [after?_append_blank hc (show "async".toList.all (!isBlank ·) = true from rfl)]
  cases ha : after? "async".toList cs with
  | none => exact after?_append_blank hc rfl cs
  | some rest =>
    simp only [Option.map_some, Option.bind_some]
    cases rest with
    | nil =>
      -- the word stands alone, and neither what follows it nor the word itself starts a function
      obtain rfl : cs = "async".toList := by simpa using after?_eq_some.mp ha
      simp only [List.nil_append, afterBlank?, hc, if_true, Option.getD_some, Option.getD_none]
      rfl
    | cons b r =>
      cases hb : isBlank b with
      | false =>
        simp only [List.cons_append, afterBlank?, hb, Bool.false_eq_true, if_false, Option.getD_none]
        exact after?_append_blank hc rfl cs
      | true =>
        simp only [List.cons_append, afterBlank?, hb, if_true, Option.getD_some]
        exact after?_skipBlanks_append hc rfl r

theorem functionName?_append_blank (line : List Char) : functionName? (line ++ [c]) = functionName? line :=
  keyword_append_blank hc
    (reader_skipBlanks_append hc (fun cs => after? "fun".toList (skipAsync cs)) rfl (after?_skipAsync_append hc) line)

theorem binding?_append_blank (line : List Char) :
    binding? (line ++ [c]) = (binding? line).map (Prod.map id fun rest => skipBlanks (rest ++ [c])) := by
  simp only [binding?, bind, pure, identifier?_skipBlanks_append hc]
  cases identifier? (skipBlanks line) with
  | none => rfl
  | some p =>
    obtain ⟨name, rest⟩ := p
    simp only [Option.map_some, Option.bind_some, Prod.map, id,
      after?_skipBlanks_append hc (show ['='].all _ = true from rfl)]
    cases after? ['='] (skipBlanks rest) with
    | none => rfl
    | some r =>
      simp only [Option.map_some, Option.bind_some, Prod.map_apply, id, skipBlanks_skipBlanks_append hc]

theorem assignment?_append_blank (line : List Char) : assignment? (line ++ [c]) = assignment? line := by
  rw [assignment?, binding?_append_blank hc, assignment?]
  cases binding? line <;> rfl

omit hc in
theorem skipBlanks_of_binding? {line rest : List Char} {name : String} (h : binding? line = some (name, rest)) :
    skipBlanks rest = rest := by
  obtain ⟨r, s, -, -, rfl⟩ := binding?_eq_some.mp h
  exact skipBlanks_skipBlanks s

theorem construction?_append_blank (line : List Char) : construction? (line ++ [c]) = construction? line := by
  simp only [construction?, bind, pure, binding?_append_blank hc]
  cases hb : binding? line with
  | none => rfl
  | some p =>
    obtain ⟨name, rest⟩ := p
    simp only [Option.map_some, Option.bind_some, Prod.map, id, identifier?_skipBlanks_append hc,
      skipBlanks_of_binding? hb]
    cases identifier? rest with
    | none => rfl
    | some q =>
      obtain ⟨className, r⟩ := q
      simp only [Option.map_some, Option.bind_some, Prod.map, id,
        after?_skipBlanks_append hc (show ['('].all _ = true from rfl)]
      cases after? ['('] (skipBlanks r) <;> rfl

theorem objectStart?_append_blank (line : List Char) : objectStart? (line ++ [c]) = objectStart? line := by
  simp only [objectStart?, bind, pure, binding?_append_blank hc]
  cases hb : binding? line with
  | none => rfl
  | some p =>
    obtain ⟨name, rest⟩ := p
    simp only [Option.map_some, Option.bind_some, Prod.map, id,
      after?_skipBlanks_append hc (show ['\x7b'].all _ = true from rfl), skipBlanks_of_binding? hb]
    cases after? ['\x7b'] rest <;> rfl

theorem colon_append_blank {β : Type} (rest : List Char) (f : Nat → β) :
    ((after? [':'] (skipBlanks (rest ++ [c]))).bind fun _ => some (f ((rest ++ [c]).takeWhile isBlank).length)) =
      (after? [':'] (skipBlanks rest)).bind fun _ => some (f (rest.takeWhile isBlank).length) := by
  rw [after?_skipBlanks_append hc (show [':'].all _ = true from rfl)]
  cases ha : after? [':'] (skipBlanks rest) with
  | none => rfl
  | some r =>
    have hne : rest.dropWhile isBlank ≠ [] := by
      have := after?_eq_some.mp ha
      intro he
      simp [skipBlanks, he] at this
    rw [takeWhile_append_of_dropWhile_ne_nil hne]
    rfl

theorem bareKey?_append_blank (cs : List Char) : bareKey? (cs ++ [c]) = bareKey? cs := by
  simp only [bareKey?, bind, pure, identifier?_append_blank hc]
  cases identifier? cs with
  | none => rfl
  | some p =>
    obtain ⟨key, rest⟩ := p
    exact colon_append_blank hc rest fun n => (key, key.length + n + 1)

theorem quotedKey?_append_blank (cs : List Char) : quotedKey? (cs ++ [c]) = quotedKey? cs := by
  have hquote : c ≠ '"' := ne_of_isBlank hc rfl
  simp only [quotedKey?, bind, pure, after?_append_blank hc (show ['"'].all _ = true from rfl)]
  cases after? ['"'] cs with
  | none => rfl
  | some rest =>
    simp only [Option.map_some, Option.bind_some]
    by_cases hd : rest.dropWhile (· ≠ '"') = []
    · -- no quote closes the key
      have hd' : (rest ++ [c]).dropWhile (· ≠ '"') = [] := by
        rw [List.dropWhile_append, hd]
        simp [hquote]
      simp only [hd, hd']
      split <;> split <;> rfl
    · rw [takeWhile_append_of_dropWhile_ne_nil hd, dropWhile_append_of_dropWhile_ne_nil hd,
        after?_append_blank hc (show ['"'].all _ = true from rfl)]
      cases after? ['"'] (rest.dropWhile (· ≠ '"')) with
      | none => rfl
      | some r =>
        simp only [Option.map_some, Option.bind_some]
        split
        · rfl
        · exact colon_append_blank hc r fun n => (String.ofList _, _ + 2 + n + 1)

omit hc in
theorem findAll_append {reader : List Char → Option (String × Nat)} (hnil : reader [] = none)
    (h : ∀ cs, reader (cs ++ [c]) = reader cs) (n : Nat) (cs : List Char) :
    findAll reader n (cs ++ [c]) = findAll reader n cs := by
  induction cs generalizing n with
  | nil =>
    have hc : reader [c] = none := by rw [← hnil, ← h []]; rfl
    cases n <;> simp [findAll, hc]
  | cons d ds ih =>
    cases n with
    | succ n => exact ih n
    | zero =>
      have hd := h (d :: ds)
      rw [List.cons_append] at hd
      simp only [List.cons_append, findAll, hd]
      cases reader (d :: ds) with
      | none => exact ih 0
      | some p => exact congrArg (p.1 :: ·) (ih (p.2 - 1))

theorem objectKeys_append_blank (line : List Char) : objectKeys (line ++ [c]) = objectKeys line := by
  rw [objectKeys, bareKeys, quotedKeys, findAll_append rfl (bareKey?_append_blank hc),
    findAll_append rfl (quotedKey?_append_blank hc)]
  rfl

omit hc in
theorem indentLevel_append {line : List Char} (hline : isBlankLine line = false) (r : List Char) :
    indentLevel (line ++ r) = indentLevel line := by
  have hne : line.dropWhile isIndent ≠ [] := by
    intro he
    obtain ⟨d, hd, hblank⟩ : ∃ d ∈ line, isBlank d = false := by simpa [isBlankLine] using hline
    have hindent := List.dropWhile_eq_nil_iff.mp he d hd
    simp only [isIndent, Bool.or_eq_true, decide_eq_true_eq] at hindent
    rcases hindent with rfl | rfl <;> exact absurd hblank (by decide)
  rw [indentLevel, indentWidth, takeWhile_append_of_dropWhile_ne_nil hne]
  rfl

end TrailingBlank

theorem Mode.inComment_next {c : Char} (hc : c ≠ '#') (m : Mode) : (m.next c).inComment = m.inComment := by
  cases m with
  | code =>
    simp only [Mode.next, hc, if_false]
    split
    · rfl
    · split <;> rfl
  | string =>
    simp only [Mode.next]
    split
    · rfl
    · split <;> rfl
  | escape => simp [Mode.next, hc, Mode.inComment]
  | hash => simp [Mode.next, hc, Mode.inComment]
  | stringEscape => rfl
  | comment => simp [Mode.next, hc]
  | commentHash => simp [Mode.next, hc, Mode.inComment]
  | ended => rfl

theorem stripComments_append {c : Char} (hc : c ≠ '#') (inComment : Bool) (line : List Char) :
    (stripComments inComment (line ++ [c]) = stripComments inComment line) ∨
      stripComments inComment (line ++ [c]) =
        ((stripComments inComment line).1 ++ [c], (stripComments inComment line).2) := by
  simp only [stripComments, List.foldl_append, List.foldl_cons, List.foldl_nil, Scan.read, Mode.inComment_next hc]
  split <;> simp

end Source

namespace Extractor

structure ReadsAlike (line other : List Char) : Prop where
  indent : indentLevel line = indentLevel other
  className : className? line = className? other
  functionName : functionName? line = functionName? other
  assignment : assignment? line = assignment? other
  construction : construction? line = construction? other
  objectStart : objectStart? line = objectStart? other
  objectKeys : objectKeys line = objectKeys other
  brace : line.contains '\x7d' = other.contains '\x7d'

theorem ReadsAlike.readCode_eq {line other : List Char} (h : ReadsAlike line other) (s : Extractor) :
    s.readCode line = s.readCode other := by
  have hstatement (s : Extractor) :
      s.readStatement line (indentLevel line) = s.readStatement other (indentLevel other) := by
    rw [readStatement_eq, readStatement_eq]
    simp only [topBinding?, topConstruction?, collecting, closes, h.indent, h.assignment, h.construction,
      h.objectStart, h.objectKeys, h.brace]
  unfold readCode
  dsimp only
  rw [hstatement, h.indent, h.className, h.functionName]

theorem readsAlike_append_blank {c : Char} (hc : isBlank c = true) {line : List Char}
    (hline : isBlankLine line = false) : ReadsAlike (line ++ [c]) line where
  indent := indentLevel_append hline [c]
  className := className?_append_blank hc line
  functionName := functionName?_append_blank hc line
  assignment := assignment?_append_blank hc line
  construction := construction?_append_blank hc line
  objectStart := objectStart?_append_blank hc line
  objectKeys := objectKeys_append_blank hc line
  brace := by simp [(ne_of_isBlank hc (d := '\x7d') rfl).symm]

theorem readLine_append_blank {c : Char} (hc : isBlank c = true) (s : Extractor) (line : List Char) :
    s.readLine (line ++ [c]) = s.readLine line := by
  have hhash : c ≠ '#' := ne_of_isBlank hc rfl
  unfold readLine
  rcases stripComments_append hhash s.inComment line with h | h
  · rw [h]
  · rw [h]
    generalize stripComments s.inComment line = r
    have hblank : isBlankLine (r.1 ++ [c]) = isBlankLine r.1 := by simp [isBlankLine, hc]
    dsimp only
    rw [hblank]
    cases hr : isBlankLine r.1 with
    | true => rfl
    | false => exact (readsAlike_append_blank hc hr).readCode_eq _

theorem readLine_dropReturn (s : Extractor) (line : List Char) : s.readLine (dropReturn line) = s.readLine line := by
  unfold dropReturn
  split
  · rename_i hr
    obtain ⟨init, rfl⟩ := List.getLast?_eq_some_iff.mp hr
    rw [List.dropLast_concat, readLine_append_blank rfl]
  · rfl

theorem foldl_readLine_dropReturn (s : Extractor) (lines : List (List Char)) :
    (lines.map dropReturn).foldl readLine s = lines.foldl readLine s := by
  rw [List.foldl_map]
  simp only [readLine_dropReturn]

/-- What is read from a text is what is read from the pieces between its line feeds, with all carriage
returns left in place. -/
theorem read_eq_foldl_pieces (s : Extractor) (text : List Char) :
    s.read text = (pieces '\n' text).foldl readLine s := by
  unfold read sourceLines
  dsimp only
  rcases List.eq_nil_or_concat (pieces '\n' text) with hp | ⟨init, last, hp⟩
  · exact absurd hp (pieces_ne_nil '\n' text)
  · rw [hp, List.concat_eq_append, List.dropLast_concat, List.getLast?_concat, Option.toList_some,
      List.foldl_append, foldl_readLine_dropReturn, List.foldl_append]

theorem read_read (s : Extractor) (a b : List Char) : (s.read a).read b = s.read (a ++ '\n' :: b) := by
  simp only [read_eq_foldl_pieces, pieces_append, List.foldl_append]

end Extractor

namespace Text

def ReturnsPaired (text : List Char) : Prop := ∀ i : Nat, text[i]? = some '\r' → text[i + 1]? = some '\n'

instance (text : List Char) : Decidable (ReturnsPaired text) :=
  decidable_of_iff (∀ i < text.length, text[i]? = some '\r' → text[i + 1]? = some '\n')
    ⟨fun h i hi => h i (List.getElem?_eq_some_iff.mp hi).1 hi, fun h i _ => h i⟩

theorem ReturnsPaired.of_cons {c : Char} {text : List Char} (h : ReturnsPaired (c :: text)) : ReturnsPaired text :=
  fun i hi => h (i + 1) hi

theorem filterMap_unified {c : Char} (hc : c ≠ '\r') (text : List Char) :
    ((some c :: text.map some).zip text).filterMap (fun p => unified p.1 p.2) = unifyLineEnds text := by
  cases text with
  | nil => rfl
  | cons d text =>
    have hd : unified (some c) d = unified none d := by simp [unified, hc]
    simp only [unifyLineEnds, List.map_cons, List.zip_cons_cons, List.filterMap_cons, hd]

theorem unifyLineEnds_cons {c : Char} (hc : c ≠ '\r') (text : List Char) :
    unifyLineEnds (c :: text) = c :: unifyLineEnds text := by
  rw [← filterMap_unified hc text]
  simp [unifyLineEnds, unified, hc]

theorem unifyLineEnds_return_feed (text : List Char) :
    unifyLineEnds ('\r' :: '\n' :: text) = '\n' :: unifyLineEnds text := by
  rw [← filterMap_unified (show '\n' ≠ '\r' by decide) text]
  simp [unifyLineEnds, unified]

theorem dropReturn_cons {c : Char} (hc : c ≠ '\r') (line : List Char) :
    dropReturn (c :: line) = c :: dropReturn line := by
  unfold dropReturn
  cases line with
  | nil => simp [hc]
  | cons d line =>
    rw [List.getLast?_cons_cons]
    split <;> rfl

theorem pieces_unifyLineEnds : ∀ {text : List Char}, ReturnsPaired text →
    pieces '\n' (unifyLineEnds text) = (pieces '\n' text).map dropReturn
  | [], _ => rfl
  | c :: text, h => by
    by_cases hc : c = '\r'
    · subst hc
      obtain ⟨rest, rfl⟩ : ∃ rest, text = '\n' :: rest := by
        have := h 0 rfl
        rw [List.getElem?_cons_succ, ← List.head?_eq_getElem?] at this
        exact List.head?_eq_some_iff.mp this
      rw [unifyLineEnds_return_feed, pieces_cons, if_pos rfl, pieces_unifyLineEnds h.of_cons.of_cons]
      rfl
    · obtain ⟨p, ps, hp⟩ := List.exists_cons_of_ne_nil (pieces_ne_nil '\n' text)
      rw [unifyLineEnds_cons hc, pieces_cons, pieces_cons, pieces_unifyLineEnds h.of_cons, hp]
      split
      · rfl
      · simp [dropReturn_cons hc]

end Text

theorem ofText_unifyLineEnds {text : String} (h : Text.ReturnsPaired text.toList) :
    SymbolTable.ofText (String.ofList (Text.unifyLineEnds text.toList)) = .ofText text := by
  simp only [SymbolTable.ofText, String.toList_ofList, Extractor.read_eq_foldl_pieces]
  rw [Text.pieces_unifyLineEnds h, Extractor.foldl_readLine_dropReturn]

namespace Text

/-- Texts that differ in single carriage returns: before each line feed, and at the end, one may be put in or left out. -/
inductive SameButReturns : List Char → List Char → Prop
  | nil : SameButReturns [] []
  | putInLast : SameButReturns [] ['\r']
  | leftOutLast : SameButReturns ['\r'] []
  | cons (c : Char) {a b : List Char} (h : SameButReturns a b) : SameButReturns (c :: a) (c :: b)
  | putIn {a b : List Char} (h : SameButReturns a b) : SameButReturns ('\n' :: a) ('\r' :: '\n' :: b)
  | leftOut {a b : List Char} (h : SameButReturns a b) : SameButReturns ('\r' :: '\n' :: a) ('\n' :: b)

def EndsAlike (p q : List Char) : Prop := p = q ∨ q = p ++ ['\r'] ∨ p = q ++ ['\r']

variable {a b p q : List Char}

theorem EndsAlike.cons (c : Char) (h : EndsAlike p q) : EndsAlike (c :: p) (c :: q) := by
  obtain rfl | rfl | rfl := h
  · exact .inl rfl
  · exact .inr (.inl rfl)
  · exact .inr (.inr rfl)

theorem SameButReturns.append (p : List Char) (h : SameButReturns a b) : SameButReturns (p ++ a) (p ++ b) := by
  induction p with
  | nil => exact h
  | cons c p ih => exact .cons c ih

theorem SameButReturns.forall₂_pieces (h : SameButReturns a b) :
    List.Forall₂ EndsAlike (pieces '\n' a) (pieces '\n' b) := by
  induction h with
  | nil => exact .cons (.inl rfl) .nil
  | putInLast => exact .cons (.inr (.inl rfl)) .nil
  | leftOutLast => exact .cons (.inr (.inr rfl)) .nil
  | putIn h ih => exact .cons (.inr (.inl rfl)) ih
  | leftOut h ih => exact .cons (.inr (.inr rfl)) ih
  | @cons c a b h ih =>
    obtain ⟨p, ps, hp⟩ := List.exists_cons_of_ne_nil (pieces_ne_nil '\n' a)
    obtain ⟨q, qs, hq⟩ := List.exists_cons_of_ne_nil (pieces_ne_nil '\n' b)
    rw [hp, hq] at ih
    rw [pieces_cons, pieces_cons, hp, hq]
    split
    · exact .cons (.inl rfl) ih
    · cases ih with
      | cons hpq hrest => exact .cons (hpq.cons c) hrest

end Text

namespace Extractor

variable {a b : List Char}

theorem foldl_readLine_congr {R : List Char → List Char → Prop} {lines others : List (List Char)}
    (hR : ∀ {line other}, R line other → ∀ s : Extractor, s.readLine line = s.readLine other)
    (h : List.Forall₂ R lines others) (s : Extractor) : lines.foldl readLine s = others.foldl readLine s := by
  induction h generalizing s with
  | nil => rfl
  | cons hl _ ih => rw [List.foldl_cons, List.foldl_cons, hR hl, ih]

theorem readLine_of_endsAlike {p q : List Char} (h : EndsAlike p q) (s : Extractor) : s.readLine p = s.readLine q := by
  obtain rfl | rfl | rfl := h
  · rfl
  · exact (readLine_append_blank rfl s p).symm
  · exact readLine_append_blank rfl s q

theorem read_of_sameButReturns (s : Extractor) (h : SameButReturns a b) : s.read a = s.read b := by
  rw [read_eq_foldl_pieces, read_eq_foldl_pieces]
  exact foldl_readLine_congr readLine_of_endsAlike h.forall₂_pieces s

theorem read_of_sameButReturns_mixed :
    let a := "class A\r".toList ++ '\n' :: ("  k = \"\\".toList ++ '\r' :: '\n' :: ("##".toList ++ []))
    let b := "class A\r".toList ++ '\r' :: '\n' :: ("  k = \"\\".toList ++ '\n' :: ("##".toList ++ ['\r']))
    SameButReturns a b ∧ ({} : Extractor).read a = ({} : Extractor).read b := by
  intro a b
  have h : SameButReturns a b := .append _ (.putIn (.append _ (.leftOut (.append _ .putInLast))))
  exact ⟨h, read_of_sameButReturns {} h⟩

end Extractor

end AbleIndex
