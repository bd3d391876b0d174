import AbleIndex.Proofs.ContextForms

namespace AbleIndex.Context

open Source Text

structure EndsInMember (line : List Char) (v : String) : Prop where
  ends : ∃ before, line = before ++ v.toList ++ ['.']
  identifier : IsIdentifier v
  longest : ∀ before u, line = before ++ u.toList ++ ['.'] → IsIdentifier u → u.length ≤ v.length

theorem isWordChar_of_isIdentifier {v : String} (hv : IsIdentifier v) : ∀ c ∈ v.toList, isWordChar c = true := by
  obtain ⟨c, cs, hcs, hc, hrest⟩ := hv
  intro d hd
  rw [hcs] at hd
  obtain rfl | hd := List.mem_cons.mp hd
  · exact isWordChar_of_isWordStart hc
  · exact hrest d hd

theorem isDigit_eq_false_of_isWordStart {c : Char} (h : isWordStart c = true) : isDigit c = false := by
  simp only [isWordStart, Bool.or_eq_true, Bool.and_eq_true, decide_eq_true_eq, Char.le_def,
    UInt32.le_iff_toNat_le] at h
  simp only [isDigit, Bool.and_eq_false_iff, decide_eq_false_iff_not, Char.le_def, UInt32.le_iff_toNat_le]
  right
  have hnine : '9'.val.toNat = 57 := rfl
  obtain (⟨hl, -⟩ | ⟨hl, -⟩) | rfl := h
  · have hA : 'A'.val.toNat = 65 := rfl
    omega
  · have ha : 'a'.val.toNat = 97 := rfl
    omega
  · decide

theorem dropWhile_isDigit_append {v : String} (hv : IsIdentifier v) (run : List Char) :
    (run ++ v.toList).dropWhile isDigit = run.dropWhile isDigit ++ v.toList := by
  obtain ⟨c, cs, hcs, hc, -⟩ := hv
  have hself : v.toList.dropWhile isDigit = v.toList := by
    rw [hcs, List.dropWhile_cons_of_neg]
    simp [isDigit_eq_false_of_isWordStart hc]
  rw [List.dropWhile_append, hself]
  split
  · rename_i hempty
    rw [List.isEmpty_iff.mp hempty, List.nil_append]
  · rfl

theorem trailingWord_append {v : String} (hv : IsIdentifier v) (before : List Char) :
    trailingWord (before ++ v.toList).reverse =
      (before.reverse.takeWhile isWordChar).reverse.dropWhile isDigit ++ v.toList := by
  have hword : ∀ c ∈ v.toList.reverse, isWordChar c = true := by
    intro c hc
    exact isWordChar_of_isIdentifier hv c (List.mem_reverse.mp hc)
  rw [trailingWord, List.reverse_append, List.takeWhile_append_of_pos hword, List.reverse_append,
    List.reverse_reverse, dropWhile_isDigit_append hv]

theorem isIdentifier_of_dropWhile {run : List Char} {c : Char} {cs : List Char}
    (hrun : ∀ d ∈ run, isWordChar d = true) (hdrop : run.dropWhile isDigit = c :: cs) :
    IsIdentifier (String.ofList (c :: cs)) := by
  have hsub : ∀ d ∈ c :: cs, isWordChar d = true := by
    intro d hd
    rw [← hdrop] at hd
    exact hrun d ((List.dropWhile_sublist isDigit).mem hd)
  have hnotDigit : isDigit c = false := by
    have hhead := List.head_dropWhile_not isDigit (l := run) (by simp [hdrop])
    simpa [hdrop] using hhead
  have hstart : isWordStart c = true := by
    have hc := hsub c List.mem_cons_self
    simpa [isWordChar, hnotDigit] using hc
  exact ⟨c, cs, String.toList_ofList, hstart, fun d hd => hsub d (List.mem_cons_of_mem c hd)⟩

theorem endsInMember_trailingWord {before : List Char} (hne : trailingWord before.reverse ≠ []) :
    EndsInMember (before ++ ['.']) (String.ofList (trailingWord before.reverse)) := by
  obtain ⟨run, start, hreverse, hrun, htake, -⟩ := exists_run isWordChar before.reverse
  have hbefore : before = start.reverse ++ run.reverse := by
    rw [← List.reverse_append, ← hreverse, List.reverse_reverse]
  have hword : trailingWord before.reverse = run.reverse.dropWhile isDigit := by rw [trailingWord, htake]
  constructor
  · refine ⟨start.reverse ++ run.reverse.takeWhile isDigit, ?_⟩
    rw [String.toList_ofList, hword, List.append_assoc start.reverse, List.takeWhile_append_dropWhile, ← hbefore]
  · obtain ⟨c, cs, hcs⟩ := List.exists_cons_of_ne_nil hne
    have hreversed : ∀ d ∈ run.reverse, isWordChar d = true := by
      intro d hd
      exact hrun d (List.mem_reverse.mp hd)
    rw [hcs]
    exact isIdentifier_of_dropWhile hreversed (hword.symm.trans hcs)
  · intro first u hu hident
    rw [List.append_cancel_right hu, trailingWord_append hident, String.length_ofList, List.length_append,
      String.length_toList]
    omega

theorem EndsInMember.unique {line : List Char} {v u : String} (h : EndsInMember line v) (h' : EndsInMember line u) :
    v = u := by
  obtain ⟨before, hv⟩ := h.ends
  obtain ⟨before', hu⟩ := h'.ends
  have hlength : v.length = u.length := by
    apply Nat.le_antisymm
    · exact h'.longest before v hv h.identifier
    · exact h.longest before' u hu h'.identifier
  have hsplit : before ++ v.toList = before' ++ u.toList := List.append_cancel_right (hv.symm.trans hu)
  rw [← String.length_toList, ← String.length_toList] at hlength
  exact String.toList_inj.mp (List.append_inj_right' hsplit hlength)

theorem member?_dot (before : List Char) {tail : List Char} (he : isEnd tail = true) :
    member? (before ++ '.' :: tail) =
      if trailingWord before.reverse = [] then none
      else some (.member (String.ofList (trailingWord before.reverse))) := by
  have hreverse : dropLineFeed (before ++ '.' :: tail).reverse = '.' :: before.reverse := by
    obtain rfl | rfl := isEnd_iff.mp he
    · rw [List.reverse_append]
      rfl
    · rw [List.reverse_append]
      rfl
  rw [member?, hreverse]
  rfl

theorem exists_lineFeed (line : List Char) :
    ∃ tail, isEnd tail = true ∧ line = (dropLineFeed line.reverse).reverse ++ tail := by
  cases hline : line.reverse with
  | nil => exact ⟨[], rfl, by rw [List.reverse_eq_nil_iff.mp hline]; rfl⟩
  | cons c cs =>
    have hsplit : line = cs.reverse ++ [c] := by rw [← List.reverse_cons, ← hline, List.reverse_reverse]
    by_cases hc : c = '\n'
    · subst hc
      exact ⟨['\n'], rfl, hsplit⟩
    · refine ⟨[], rfl, ?_⟩
      have hkeep : dropLineFeed (c :: cs) = c :: cs := by
        unfold dropLineFeed
        split
        · rename_i he
          exact absurd (List.cons.inj he).1 hc
        · rfl
      rw [hkeep, List.append_nil, List.reverse_cons]
      exact hsplit

theorem member?_eq_some {line : List Char} {c : Context} :
    member? line = some c ↔ ∃ body tail v, line = body ++ tail ∧ isEnd tail = true ∧ EndsInMember body v ∧
      c = .member v := by
  constructor
  · intro h
    obtain ⟨tail, he, hline⟩ := exists_lineFeed line
    cases hdrop : dropLineFeed line.reverse with
    | nil => simp [member?, hdrop] at h
    | cons d rest =>
      have hd : d = '.' := by
        by_contra hd
        unfold member? at h
        rw [hdrop] at h
        split at h
        · rename_i hcons
          exact hd (List.cons.inj hcons).1
        · cases h
      rw [hdrop, hd, List.reverse_cons, List.append_assoc, List.singleton_append] at hline
      rw [hline, member?_dot rest.reverse he, Option.ite_none_left_eq_some, Option.some.injEq] at h
      refine ⟨rest.reverse ++ ['.'], tail, _, ?_, he, endsInMember_trailingWord h.1, h.2.symm⟩
      rw [hline, List.append_assoc, List.singleton_append]
  · rintro ⟨body, tail, v, rfl, he, hv, rfl⟩
    obtain ⟨before, rfl⟩ := hv.ends
    have hne : trailingWord (before ++ v.toList).reverse ≠ [] := by
      obtain ⟨c, cs, hcs, -⟩ := hv.identifier
      rw [trailingWord_append hv.identifier, hcs]
      simp
    rw [List.append_assoc _ ['.'], List.singleton_append, member?_dot _ he, if_neg hne,
      (endsInMember_trailingWord hne).unique hv]

theorem member?_of_endsInMember {line : List Char} {v : String} (h : EndsInMember line v) :
    member? line = some (.member v) :=
  member?_eq_some.mpr ⟨line, [], v, (List.append_nil line).symm, rfl, h, rfl⟩

section Dot

variable {line tail : List Char}

theorem decorator?_of_dot (h : '.' ∈ line) : decorator? line = none := by
  rw [Option.eq_none_iff_forall_ne_some]
  intro c hc
  obtain ⟨typed, @⟨blanks, _, tail, hb, ht, he⟩, -⟩ := decorator?_eq_some.mp hc
  simp only [List.mem_append, List.mem_cons] at h
  obtain h | h | h | h := h
  · exact absurd (hb '.' h) (by decide)
  · cases h
  · exact absurd (ht '.' h) (by decide)
  · exact absurd (blank_of_isEnd he '.' h) (by decide)

theorem importFrom?_of_dot (before : List Char) (he : isEnd tail = true) :
    importFrom? (before ++ '.' :: tail) = none := by
  rw [Option.eq_none_iff_forall_ne_some]
  intro c hc
  obtain ⟨moduleName, list, hform, -⟩ := importFrom?_eq_some.mp hc
  generalize hline : before ++ '.' :: tail = line at hform
  obtain @⟨blanks, gap, _, gap', gap'', _, tail', -, -, -, -, -, hg'', hl, he'⟩ := hform
  let behind := 't' :: (gap'' ++ (list ++ tail'))
  have hdot : '.' ∉ behind := by
    simp only [behind, List.mem_cons, List.mem_append, not_or]
    refine ⟨by decide, ?_, ?_, ?_⟩
    · intro h
      exact absurd (hg''.blank '.' h) (by decide)
    · intro h
      exact absurd (hl '.' h) (by decide)
    · intro h
      exact absurd (blank_of_isEnd he' '.' h) (by decide)
  have hbehind : behind <:+ before ++ '.' :: tail := by
    rw [hline]
    exact ⟨blanks ++ ("from".toList ++ (gap ++ (moduleName ++ (gap' ++ "impor".toList)))), by simp [behind]⟩
  obtain h | h := List.suffix_or_suffix_of_suffix hbehind (List.suffix_append before ('.' :: tail))
  · -- the word would have to fit behind the dot
    have hlength : behind.length ≤ tail.length := by
      obtain h | h := List.suffix_cons_iff.mp h
      · exact absurd (h ▸ List.mem_cons_self) hdot
      · exact h.length_le
    have hgap : 0 < gap''.length := List.length_pos_of_ne_nil hg''.nonempty
    have hend : tail.length ≤ 1 := by
      obtain rfl | rfl := isEnd_iff.mp he
      · exact Nat.zero_le 1
      · exact Nat.le_refl 1
    simp only [behind, List.length_cons, List.length_append] at hlength
    omega
  · exact hdot (h.subset List.mem_cons_self)

theorem place_of_dot_end (before : List Char) (he : isEnd tail = true) :
    place (before ++ '.' :: tail) = .general ∨ ∃ typed, place (before ++ '.' :: tail) = .importModule typed := by
  rw [place, decorator?_of_dot (by simp), importFrom?_of_dot before he]
  cases hi : importModule? (before ++ '.' :: tail) with
  | none => exact .inl rfl
  | some c =>
    obtain ⟨typed, -, rfl⟩ := importModule?_eq_some.mp hi
    exact .inr ⟨String.ofList typed, rfl⟩

theorem place_of_dot (h : line.getLast? = some '.') :
    place line = .general ∨ ∃ typed, place line = .importModule typed := by
  obtain ⟨before, rfl⟩ := List.getLast?_eq_some_iff.mp h
  exact place_of_dot_end before rfl

theorem EndsInMember.getLast? {v : String} (h : EndsInMember line v) : line.getLast? = some '.' := by
  obtain ⟨before, rfl⟩ := h.ends
  simp

end Dot

end AbleIndex.Context
