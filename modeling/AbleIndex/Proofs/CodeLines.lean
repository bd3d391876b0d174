import AbleIndex.Proofs.LineEnds
import AbleIndex.Proofs.PathText

namespace AbleIndex

open Text

namespace Source

namespace Mode

/-- Where the code of a line can lead when the line itself leads to a mode. Comments leave no trace in
the code, and the hash sign that ends a line may stand behind a backslash. -/
def echoes : Mode → List Mode
  | escape => [escape]
  | string => [string]
  | stringEscape => [stringEscape]
  | ended => [code, escape]
  | _ => [code]

variable {m n : Mode} {c : Char}

theorem inComment_of_mem_echoes (h : n ∈ m.echoes) : n.inComment = false := by
  cases m with
  | ended =>
    simp only [echoes, List.mem_cons, List.not_mem_nil, or_false] at h
    rcases h with rfl | rfl <;> rfl
  | code | escape | hash | string | stringEscape | comment | commentHash =>
    rw [List.mem_singleton.mp h]
    rfl

theorem eq_of_keeps (h : n ∈ m.echoes) (hk : m.keeps c = true) : n = m := by
  cases m with
  | code | escape | string | stringEscape => exact List.mem_singleton.mp h
  | hash | comment | commentHash | ended => cases hk

theorem mem_echoes_next_of_keeps (hk : m.keeps c = true) : m.next c ∈ (m.next c).echoes := by
  cases m with
  | code =>
    have hc : c ≠ '#' := by simpa [keeps] using hk
    simp only [next, if_neg hc]
    split
    · exact List.mem_singleton_self _
    · split <;> exact List.mem_singleton_self _
  | escape =>
    have hc : c ≠ '#' := by simpa [keeps] using hk
    simp only [next, if_neg hc]
    exact List.mem_singleton_self _
  | string =>
    simp only [next]
    split
    · exact List.mem_singleton_self _
    · split <;> exact List.mem_singleton_self _
  | stringEscape => exact List.mem_singleton_self _
  | hash | comment | commentHash | ended => cases hk

theorem mem_echoes_next_of_not_keeps (h : n ∈ m.echoes) (hk : m.keeps c = false) : n ∈ (m.next c).echoes := by
  cases m with
  | code | escape =>
    obtain rfl : c = '#' := by simpa [keeps] using hk
    rw [List.mem_singleton.mp h]
    simp [next, echoes]
  | hash | comment | commentHash =>
    rw [List.mem_singleton.mp h]
    simp only [next]
    split <;> simp [echoes]
  | ended => exact h
  | string | stringEscape => cases hk

end Mode

theorem exists_foldl_code (inComment : Bool) (line : List Char) :
    ∃ n ∈ (line.foldl Scan.read ⟨.start inComment, []⟩).mode.echoes,
      (line.foldl Scan.read ⟨.start inComment, []⟩).code.reverse.foldl Scan.read ⟨.code, []⟩ =
        ⟨n, (line.foldl Scan.read ⟨.start inComment, []⟩).code⟩ := by
  induction line using List.reverseRecOn with
  | nil => cases inComment <;> exact ⟨.code, List.mem_singleton_self _, rfl⟩
  | append_singleton line c ih =>
    rw [List.foldl_append, List.foldl_cons, List.foldl_nil]
    generalize line.foldl Scan.read ⟨.start inComment, []⟩ = s at ih ⊢
    obtain ⟨n, hn, hread⟩ := ih
    cases hk : s.mode.keeps c with
    | true =>
      obtain rfl := Mode.eq_of_keeps hn hk
      refine ⟨s.mode.next c, Mode.mem_echoes_next_of_keeps hk, ?_⟩
      simp [Scan.read, hk, hread]
    | false =>
      refine ⟨n, Mode.mem_echoes_next_of_not_keeps hn hk, ?_⟩
      simpa [Scan.read, hk] using hread

theorem stripComments_stripComments (inComment : Bool) (line : List Char) :
    stripComments false (stripComments inComment line).1 = ((stripComments inComment line).1, false) := by
  obtain ⟨n, hn, hread⟩ := exists_foldl_code inComment line
  unfold stripComments
  dsimp only
  rw [show Mode.start false = .code from rfl, hread, Mode.inComment_of_mem_echoes hn]

theorem stripComments_sublist (inComment : Bool) (line : List Char) :
    List.Sublist (stripComments inComment line).1 line := by
  unfold stripComments
  dsimp only
  induction line using List.reverseRecOn with
  | nil => exact .slnil
  | append_singleton line c ih =>
    rw [List.foldl_append, List.foldl_cons, List.foldl_nil, Scan.read]
    dsimp only
    split
    · rw [List.reverse_cons]
      exact ih.append (List.Sublist.refl [c])
    · exact ih.trans (List.sublist_append_left line [c])

theorem codeLines_codeLines (inComment : Bool) (lines : List (List Char)) :
    codeLines false (codeLines inComment lines) = codeLines inComment lines := by
  induction lines generalizing inComment with
  | nil => rfl
  | cons line lines ih =>
    simp only [codeLines, stripComments_stripComments, ih]

theorem commentAfter_codeLines (inComment : Bool) (lines : List (List Char)) :
    commentAfter false (codeLines inComment lines) = false := by
  induction lines generalizing inComment with
  | nil => rfl
  | cons line lines ih =>
    rw [codeLines, commentAfter, List.foldl_cons, stripComments_stripComments]
    exact ih _

theorem exists_line_of_mem_codeLines {inComment : Bool} {lines : List (List Char)} {code : List Char}
    (h : code ∈ codeLines inComment lines) : ∃ line ∈ lines, List.Sublist code line := by
  induction lines generalizing inComment with
  | nil => cases h
  | cons line lines ih =>
    rcases List.mem_cons.mp h with rfl | h
    · exact ⟨line, List.mem_cons_self, stripComments_sublist inComment line⟩
    · obtain ⟨other, ho, hs⟩ := ih h
      exact ⟨other, List.mem_cons_of_mem line ho, hs⟩

end Source

namespace Text

theorem sourceLines_ne_nil (text : List Char) : sourceLines text ≠ [] := by
  unfold sourceLines
  dsimp only
  rw [List.getLast?_eq_some_getLast (pieces_ne_nil '\n' text)]
  simp

theorem exists_piece_of_mem_sourceLines {text line : List Char} (h : line ∈ sourceLines text) :
    ∃ piece ∈ pieces '\n' text, List.Sublist line piece := by
  unfold sourceLines at h
  dsimp only at h
  rcases List.mem_append.mp h with h | h
  · obtain ⟨piece, hp, rfl⟩ := List.mem_map.mp h
    refine ⟨piece, List.dropLast_subset _ hp, ?_⟩
    unfold dropReturn
    split
    · exact List.dropLast_sublist piece
    · exact List.Sublist.refl piece
  · exact ⟨line, List.mem_of_getLast? (Option.mem_toList.mp h), List.Sublist.refl line⟩

theorem pieces_intercalate {sep : Char} {lines : List (List Char)} (hne : lines ≠ [])
    (h : ∀ line ∈ lines, sep ∉ line) : pieces sep ([sep].intercalate lines) = lines := by
  rw [pieces_eq_splitOn]
  exact List.splitOn_intercalate sep h hne

end Text

open Source

theorem pieces_codeLines (inComment : Bool) (text : List Char) :
    pieces '\n' (['\n'].intercalate (codeLines inComment (sourceLines text))) =
      codeLines inComment (sourceLines text) := by
  apply pieces_intercalate
  · obtain ⟨line, lines, hl⟩ := List.exists_cons_of_ne_nil (sourceLines_ne_nil text)
    rw [hl]
    exact List.cons_ne_nil _ _
  · intro code hcode hfeed
    obtain ⟨line, hline, hcl⟩ := exists_line_of_mem_codeLines hcode
    obtain ⟨piece, hpiece, hlp⟩ := exists_piece_of_mem_sourceLines hline
    exact not_mem_of_mem_pieces hpiece ((hcl.trans hlp).subset hfeed)

theorem Extractor.read_codeLines (text : List Char) :
    ({} : Extractor).read (['\n'].intercalate (codeLines false (sourceLines text))) =
      { ({} : Extractor).read text with inComment := false } := by
  rw [read_eq_foldl_pieces, pieces_codeLines, foldl_readLine, read_eq]
  dsimp only
  rw [codeLines_codeLines, commentAfter_codeLines]
  rfl

end AbleIndex
