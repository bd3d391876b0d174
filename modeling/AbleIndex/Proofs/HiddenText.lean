import AbleIndex.Proofs.Segments

namespace AbleIndex.Extractor

open Source Text

variable {s : Extractor} {line : List Char}

theorem infix_of_isMarker {i : Nat} (h : IsMarker line i) : ['#', '#'] <:+: line := by
  obtain ⟨hi, hc⟩ := List.getElem?_eq_some_iff.mp h.1
  obtain ⟨hj, hd⟩ := List.getElem?_eq_some_iff.mp h.2
  have hdrop : line.drop i = ['#', '#'] ++ line.drop (i + 2) := by
    rw [List.drop_eq_getElem_cons hi, hc, List.drop_eq_getElem_cons hj, hd]
    rfl
  exact ⟨line.take i, line.drop (i + 2), by rw [List.append_assoc, ← hdrop, List.take_append_drop]⟩

theorem readLine_hidden (hs : s.inComment = true) (h : ¬ ['#', '#'] <:+: line) : s.readLine line = s := by
  have hstrip : stripComments s.inComment line = ([], true) := by
    rw [stripComments_eq, hs]
    exact stripFrom_comment_of_no_marker fun i hi => h (infix_of_isMarker hi)
  obtain ⟨table, scopes, openObject, inComment⟩ := s
  subst hs
  unfold readLine
  rw [hstrip]
  rfl

theorem foldl_readLine_hidden {lines : List (List Char)} (hs : s.inComment = true)
    (h : ∀ line ∈ lines, ¬ ['#', '#'] <:+: line) : lines.foldl readLine s = s := by
  induction lines with
  | nil => rfl
  | cons line lines ih =>
    rw [List.foldl_cons, readLine_hidden hs (h line List.mem_cons_self)]
    exact ih fun other ho => h other (List.mem_cons_of_mem line ho)

theorem readLine_marker (s : Extractor) : s.readLine ['#', '#'] = { s with inComment := !s.inComment } := by
  obtain ⟨table, scopes, openObject, inComment⟩ := s
  cases inComment <;> rfl

theorem read_intercalate (s : Extractor) {texts : List (List Char)} (hne : texts ≠ []) :
    s.read (['\n'].intercalate texts) = texts.foldl read s := by
  induction texts generalizing s with
  | nil => exact absurd rfl hne
  | cons text texts ih =>
    cases texts with
    | nil => rw [List.intercalate_singleton, List.foldl_cons, List.foldl_nil]
    | cons other texts =>
      rw [List.intercalate_cons_cons, List.append_assoc, List.singleton_append, List.foldl_cons, ← ih _ (by simp)]
      simp only [read_eq_foldl_pieces, pieces_append, List.foldl_append]

theorem read_commented_out (s : Extractor) {a b c : List Char} (ha : (s.read a).inComment = false)
    (hc : ∀ line ∈ sourceLines c, ¬ ['#', '#'] <:+: line) :
    s.read (['\n'].intercalate [a, ['#', '#'], c, ['#', '#'], b]) = s.read (['\n'].intercalate [a, b]) := by
  have hmarker (t : Extractor) : t.read ['#', '#'] = { t with inComment := !t.inComment } := readLine_marker t
  have hopened : ((s.read a).read ['#', '#']).inComment = true := by
    rw [hmarker, ha]
    rfl
  have hhidden : ((s.read a).read ['#', '#']).read c = (s.read a).read ['#', '#'] := foldl_readLine_hidden hopened hc
  have hclosed : (((s.read a).read ['#', '#']).read c).read ['#', '#'] = s.read a := by
    rw [hhidden, hmarker, hmarker]
    simp only [Bool.not_not]
  rw [read_intercalate s (by simp), read_intercalate s (by simp)]
  simp only [List.foldl_cons, List.foldl_nil, hclosed]

theorem read_commented_out_class :
    let a := "class A\n  o = \x7b".toList
    let b := "  k: 1\n  fun m".toList
    let c := "x = \"\\\n\x7d #\r\n# class B".toList
    (({} : Extractor).read a).inComment = false ∧ (∀ line ∈ sourceLines c, ¬ ['#', '#'] <:+: line) ∧
      ({} : Extractor).read (['\n'].intercalate [a, ['#', '#'], c, ['#', '#'], b]) =
        ({} : Extractor).read (['\n'].intercalate [a, b]) := by
  intro a b c
  have ha : (({} : Extractor).read a).inComment = false := by unfold a; decide +kernel
  have hc : ∀ line ∈ sourceLines c, ¬ ['#', '#'] <:+: line := by unfold c; decide +kernel
  exact ⟨ha, hc, read_commented_out {} ha hc⟩

end AbleIndex.Extractor
