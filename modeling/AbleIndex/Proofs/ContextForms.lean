import AbleIndex.Completion.Context
import AbleIndex.Proofs.LineEnds

namespace AbleIndex

open Source Text

namespace Text

theorem takeWhile_run {p : Char → Bool} {run rest : List Char} (hrun : ∀ c ∈ run, p c = true)
    (hstop : ∀ c ∈ rest.head?, p c = false) : (run ++ rest).takeWhile p = run ∧ (run ++ rest).dropWhile p = rest := by
  rw [List.takeWhile_append_of_pos hrun, List.dropWhile_append_of_pos hrun]
  cases rest with
  | nil => simp
  | cons c rest =>
    have hc : p c = false := hstop c rfl
    simp [hc]

theorem exists_run (p : Char → Bool) (cs : List Char) :
    ∃ run rest, cs = run ++ rest ∧ (∀ c ∈ run, p c = true) ∧ cs.takeWhile p = run ∧ cs.dropWhile p = rest :=
  ⟨cs.takeWhile p, cs.dropWhile p, List.takeWhile_append_dropWhile.symm, fun _ hc => List.mem_takeWhile_imp hc, rfl, rfl⟩

theorem exists_blanks (cs : List Char) : ∃ blanks, (∀ c ∈ blanks, isBlank c = true) ∧ cs = blanks ++ skipBlanks cs := by
  obtain ⟨blanks, rest, hcs, hb, -, hrest⟩ := exists_run isBlank cs
  rw [skipBlanks, hrest]
  exact ⟨blanks, hb, hcs⟩

theorem skipBlanks_append_of_blank {blanks : List Char} (h : ∀ c ∈ blanks, isBlank c = true) (cs : List Char) :
    skipBlanks (blanks ++ cs) = skipBlanks cs :=
  List.dropWhile_append_of_pos h

theorem skipBlanks_cons {c : Char} (hc : isBlank c = false) (cs : List Char) : skipBlanks (c :: cs) = c :: cs := by
  rw [skipBlanks, List.dropWhile_cons_of_neg]
  rw [hc]
  exact Bool.false_ne_true

theorem skipBlanks_eq_nil {cs : List Char} (h : ∀ c ∈ cs, isBlank c = true) : skipBlanks cs = [] := by
  rw [← List.append_nil cs, skipBlanks_append_of_blank h]
  rfl

theorem trim_skipBlanks (cs : List Char) : trim (skipBlanks cs) = trim cs := by
  rw [trim, trim, skipBlanks_skipBlanks]

theorem trim_append_blank {blanks : List Char} (h : ∀ c ∈ blanks, isBlank c = true) (cs : List Char) :
    trim (cs ++ blanks) = trim cs := by
  have hreverse : ∀ c ∈ blanks.reverse, isBlank c = true := by
    intro c hc
    exact h c (List.mem_reverse.mp hc)
  unfold trim
  cases hcs : skipBlanks cs with
  | nil =>
    obtain ⟨start, hstart, hsplit⟩ := exists_blanks cs
    rw [hcs, List.append_nil] at hsplit
    rw [hsplit, skipBlanks_append_of_blank hstart, skipBlanks_eq_nil h]
  | cons c rest =>
    have happend : skipBlanks (cs ++ blanks) = skipBlanks cs ++ blanks := by
      apply dropWhile_append_of_dropWhile_ne_nil
      change skipBlanks cs ≠ []
      rw [hcs]
      exact List.cons_ne_nil c rest
    rw [happend, hcs, List.reverse_append, skipBlanks_append_of_blank hreverse]

theorem trim_blank_append {blanks : List Char} (h : ∀ c ∈ blanks, isBlank c = true) (cs : List Char) :
    trim (blanks ++ cs) = trim cs := by
  rw [← trim_skipBlanks, skipBlanks_append_of_blank h, trim_skipBlanks]

theorem pieces_of_not_mem {sep : Char} {cs : List Char} (h : sep ∉ cs) : pieces sep cs = [cs] := by
  induction cs with
  | nil => rfl
  | cons c cs ih =>
    rw [List.mem_cons, not_or] at h
    obtain ⟨hc, hcs⟩ := h
    rw [pieces_cons, if_neg (Ne.symm hc), ih hcs]
    rfl

end Text

namespace Context

variable {line typed moduleName list rest : List Char} {c : Context}

structure IsGap (cs : List Char) : Prop where
  nonempty : cs ≠ []
  blank : ∀ c ∈ cs, isBlank c = true

inductive IsDecorator : List Char → List Char → Prop
  | intro {blanks typed tail : List Char} (hb : ∀ c ∈ blanks, isBlank c = true)
      (ht : ∀ c ∈ typed, isWordChar c = true) (he : isEnd tail = true) :
      IsDecorator (blanks ++ ('@' :: (typed ++ tail))) typed

inductive IsImport : List Char → List Char → Prop
  | intro {blanks gap typed tail : List Char} (hb : ∀ c ∈ blanks, isBlank c = true) (hg : IsGap gap)
      (ht : ∀ c ∈ typed, isDotted c = true) (he : isEnd tail = true) :
      IsImport (blanks ++ ("import".toList ++ (gap ++ (typed ++ tail)))) typed

inductive IsImportFrom : List Char → List Char → List Char → Prop
  | intro {blanks gap moduleName gap' gap'' list tail : List Char} (hb : ∀ c ∈ blanks, isBlank c = true)
      (hg : IsGap gap) (hne : moduleName ≠ []) (hm : ∀ c ∈ moduleName, isDotted c = true) (hg' : IsGap gap')
      (hg'' : IsGap gap'') (hl : ∀ c ∈ list, isListed c = true) (he : isEnd tail = true) :
      IsImportFrom (blanks ++ ("from".toList ++ (gap ++ (moduleName ++ (gap' ++ ("import".toList ++
        (gap'' ++ (list ++ tail)))))))) moduleName list

/-- The item of a list that is being typed: the whole list if it has no comma, or else what follows the last one, both
without the white space around. -/
inductive IsLastItem : List Char → List Char → Prop
  | alone {list : List Char} (h : ',' ∉ list) : IsLastItem list (trim list)
  | behind (before : List Char) {item : List Char} (h : ',' ∉ item) : IsLastItem (before ++ ',' :: item) (trim item)

theorem isEnd_iff {cs : List Char} : isEnd cs = true ↔ cs = [] ∨ cs = ['\n'] := by
  simp [isEnd]

theorem head_of_isEnd {tail : List Char} (he : isEnd tail = true) : ∀ c ∈ tail.head?, c = '\n' := by
  obtain rfl | rfl := isEnd_iff.mp he
  · simp
  · simp

theorem blank_of_isEnd {tail : List Char} (he : isEnd tail = true) : ∀ c ∈ tail, isBlank c = true := by
  obtain rfl | rfl := isEnd_iff.mp he
  · simp
  · simp [isBlank]

theorem isBlank_eq_false_of_isDotted {c : Char} (h : isDotted c = true) : isBlank c = false := by
  simp only [isDotted, Bool.or_eq_true, decide_eq_true_eq] at h
  obtain hword | rfl := h
  · exact isBlank_eq_false_of_isWordChar hword
  · rfl

theorem isDotted_eq_false_of_isBlank {c : Char} (h : isBlank c = true) : isDotted c = false := by
  by_contra hd
  rw [Bool.not_eq_false] at hd
  rw [isBlank_eq_false_of_isDotted hd] at h
  cases h

theorem run_isEnd {p : Char → Bool} {tail : List Char} (hp : p '\n' = false) (ht : ∀ c ∈ typed, p c = true)
    (he : isEnd tail = true) : (typed ++ tail).takeWhile p = typed ∧ (typed ++ tail).dropWhile p = tail := by
  apply takeWhile_run ht
  intro c hc
  rw [head_of_isEnd he c hc]
  exact hp

theorem IsGap.afterBlank?_append {gap : List Char} (hg : IsGap gap) (cs : List Char) :
    afterBlank? (gap ++ cs) = some (skipBlanks cs) := by
  obtain ⟨b, bs, rfl⟩ := List.exists_cons_of_ne_nil hg.nonempty
  apply afterBlank?_eq_some.mpr
  refine ⟨b, bs ++ cs, rfl, hg.blank b List.mem_cons_self, ?_⟩
  exact skipBlanks_append_of_blank (fun c hc => hg.blank c (List.mem_cons_of_mem b hc)) cs

theorem IsGap.head {gap : List Char} (hg : IsGap gap) (cs : List Char) : ∀ c ∈ (gap ++ cs).head?, isBlank c = true := by
  obtain ⟨b, bs, rfl⟩ := List.exists_cons_of_ne_nil hg.nonempty
  intro c hc
  obtain rfl : b = c := by simpa using hc
  exact hg.blank b List.mem_cons_self

theorem exists_gap {cs : List Char} (h : afterBlank? cs = some rest) : ∃ gap, IsGap gap ∧ cs = gap ++ rest := by
  obtain ⟨b, ds, rfl, hb, rfl⟩ := afterBlank?_eq_some.mp h
  obtain ⟨bs, hbs, hds⟩ := exists_blanks ds
  refine ⟨b :: bs, ⟨List.cons_ne_nil b bs, ?_⟩, ?_⟩
  · intro c hc
    obtain rfl | hc := List.mem_cons.mp hc
    · exact hb
    · exact hbs c hc
  · rw [List.cons_append, ← hds]

theorem after?_skipBlanks {blanks word : List Char} {w : Char} (hb : ∀ c ∈ blanks, isBlank c = true)
    (hw : isBlank w = false) (cs : List Char) :
    after? (w :: word) (skipBlanks (blanks ++ (w :: word ++ cs))) = some cs := by
  apply after?_eq_some.mpr
  rw [skipBlanks_append_of_blank hb, List.cons_append, skipBlanks_cons hw]

theorem decorator?_eq_some :
    decorator? line = some c ↔ ∃ typed, IsDecorator line typed ∧ c = .decorator (String.ofList typed) := by
  constructor
  · intro h
    simp only [decorator?, Option.bind_eq_bind, Option.bind_eq_some_iff, Option.ite_none_right_eq_some,
      Option.some.injEq] at h
    obtain ⟨rest, hrest, hend, rfl⟩ := h
    obtain ⟨blanks, hb, hline⟩ := exists_blanks line
    obtain ⟨typed, tail, rfl, ht, htake, hdrop⟩ := exists_run isWordChar rest
    rw [hdrop] at hend
    rw [after?_eq_some.mp hrest] at hline
    rw [hline, htake]
    exact ⟨typed, .intro hb ht hend, rfl⟩
  · rintro ⟨typed, @⟨blanks, _, tail, hb, ht, he⟩, rfl⟩
    obtain ⟨htake, hdrop⟩ := run_isEnd (p := isWordChar) rfl ht he
    have hat : after? ['@'] (skipBlanks (blanks ++ '@' :: (typed ++ tail))) = some (typed ++ tail) :=
      after?_skipBlanks hb rfl (typed ++ tail)
    simp only [decorator?, Option.bind_eq_bind, hat, Option.bind_some, htake, hdrop, he, if_true]

theorem importModule?_eq_some :
    importModule? line = some c ↔ ∃ typed, IsImport line typed ∧ c = .importModule (String.ofList typed) := by
  constructor
  · intro h
    simp only [importModule?, Option.bind_eq_bind, Option.bind_eq_some_iff, Option.ite_none_right_eq_some,
      Option.some.injEq] at h
    obtain ⟨rest, hrest, rest', hrest', hend, rfl⟩ := h
    obtain ⟨blanks, hb, hline⟩ := exists_blanks line
    obtain ⟨gap, hg, rfl⟩ := exists_gap hrest'
    obtain ⟨typed, tail, rfl, ht, htake, hdrop⟩ := exists_run isDotted rest'
    rw [hdrop] at hend
    rw [after?_eq_some.mp hrest] at hline
    rw [hline, htake]
    exact ⟨typed, .intro hb hg ht hend, rfl⟩
  · rintro ⟨typed, @⟨blanks, gap, _, tail, hb, hg, ht, he⟩, rfl⟩
    have hword : after? "import".toList (skipBlanks (blanks ++ ("import".toList ++ (gap ++ (typed ++ tail))))) =
        some (gap ++ (typed ++ tail)) := after?_skipBlanks hb rfl (gap ++ (typed ++ tail))
    have hrun : (skipBlanks (typed ++ tail)).takeWhile isDotted = typed ∧
        isEnd ((skipBlanks (typed ++ tail)).dropWhile isDotted) = true := by
      cases typed with
      | nil =>
        -- the gap takes the line feed at the end along
        rw [List.nil_append, skipBlanks_eq_nil (blank_of_isEnd he)]
        exact ⟨rfl, rfl⟩
      | cons d ds =>
        have hskip : skipBlanks (d :: ds ++ tail) = d :: ds ++ tail :=
          skipBlanks_cons (isBlank_eq_false_of_isDotted (ht d List.mem_cons_self)) (ds ++ tail)
        obtain ⟨htake, hdrop⟩ := run_isEnd (p := isDotted) rfl ht he
        rw [hskip, htake, hdrop]
        exact ⟨rfl, he⟩
    simp only [importModule?, Option.bind_eq_bind, hword, Option.bind_some, hg.afterBlank?_append, hrun.1, hrun.2,
      if_true]

theorem lastItem_of_not_mem (h : ',' ∉ list) : lastItem list = trim list := by
  rw [lastItem, pieces_of_not_mem h]
  rfl

theorem lastItem_append (before : List Char) {item : List Char} (h : ',' ∉ item) :
    lastItem (before ++ ',' :: item) = trim item := by
  rw [lastItem, pieces_append, pieces_of_not_mem h, List.getLastD_eq_getLast?, List.getLast?_append_of_ne_nil]
  · rfl
  · exact List.cons_ne_nil item []

theorem isLastItem_iff {item : List Char} : IsLastItem list item ↔ item = lastItem list := by
  constructor
  · intro h
    cases h with
    | alone h => exact (lastItem_of_not_mem h).symm
    | behind before h => exact (lastItem_append before h).symm
  · rintro rfl
    obtain ⟨run, rest, hrun, hcomma, -, hrest⟩ := exists_run (· ≠ ',') list.reverse
    have hitem : ',' ∉ run.reverse := by
      intro hmem
      simpa using hcomma ',' (List.mem_reverse.mp hmem)
    have hlist : list = rest.reverse ++ run.reverse := by rw [← List.reverse_append, ← hrun, List.reverse_reverse]
    cases hcons : rest with
    | nil =>
      rw [hcons, List.reverse_nil, List.nil_append] at hlist
      rw [hlist, lastItem_of_not_mem hitem]
      exact .alone hitem
    | cons d before =>
      have hd : d = ',' := by
        have hhead := List.head?_dropWhile_not (· ≠ ',') list.reverse
        rw [hrest, hcons] at hhead
        simpa using hhead
      rw [hcons, hd, List.reverse_cons, List.append_assoc, List.singleton_append] at hlist
      rw [hlist, lastItem_append before.reverse hitem]
      exact .behind before.reverse hitem

theorem not_mem_of_blank {cs : List Char} (h : ∀ c ∈ cs, isBlank c = true) : ',' ∉ cs := by
  intro hmem
  exact absurd (h ',' hmem) (by decide)

theorem lastItem_blank {blanks tail : List Char} (hb : ∀ c ∈ blanks, isBlank c = true)
    (ht : ∀ c ∈ tail, isBlank c = true) (list : List Char) : lastItem (blanks ++ (list ++ tail)) = lastItem list := by
  have hcomma {item : List Char} (h : ',' ∉ item) : ',' ∉ item ++ tail := by
    rw [List.mem_append, not_or]
    exact ⟨h, not_mem_of_blank ht⟩
  obtain ⟨item, hitem⟩ : ∃ item, IsLastItem list item := ⟨lastItem list, isLastItem_iff.mpr rfl⟩
  rw [← isLastItem_iff.mp hitem]
  cases hitem with
  | alone h =>
    have hall : ',' ∉ blanks ++ (list ++ tail) := by
      rw [List.mem_append, not_or]
      exact ⟨not_mem_of_blank hb, hcomma h⟩
    rw [lastItem_of_not_mem hall, trim_blank_append hb, trim_append_blank ht]
  | behind before h =>
    rw [List.append_assoc, List.cons_append, ← List.append_assoc, lastItem_append _ (hcomma h), trim_append_blank ht]

def FindsList (line moduleName rest : List Char) : Prop :=
  ∃ r₁ r₂ r₃ r₄, after? "from".toList (skipBlanks line) = some r₁ ∧ afterBlank? r₁ = some r₂ ∧
    r₂.takeWhile isDotted = moduleName ∧ afterBlank? (r₂.dropWhile isDotted) = some r₃ ∧
    after? "import".toList r₃ = some r₄ ∧ afterBlank? r₄ = some rest

theorem FindsList.unique {moduleName' rest' : List Char} (h : FindsList line moduleName rest)
    (h' : FindsList line moduleName' rest') : moduleName = moduleName' ∧ rest = rest' := by
  obtain ⟨r₁, r₂, r₃, r₄, h₁, h₂, h₃, h₄, h₅, h₆⟩ := h
  obtain ⟨s₁, s₂, s₃, s₄, h₁', h₂', h₃', h₄', h₅', h₆'⟩ := h'
  obtain rfl : r₁ = s₁ := Option.some.inj (h₁.symm.trans h₁')
  obtain rfl : r₂ = s₂ := Option.some.inj (h₂.symm.trans h₂')
  obtain rfl : r₃ = s₃ := Option.some.inj (h₄.symm.trans h₄')
  obtain rfl : r₄ = s₄ := Option.some.inj (h₅.symm.trans h₅')
  exact ⟨h₃.symm.trans h₃', Option.some.inj (h₆.symm.trans h₆')⟩

theorem importFrom?_iff_findsList :
    importFrom? line = some c ↔ ∃ moduleName rest, FindsList line moduleName rest ∧ moduleName ≠ [] ∧
      rest.all isListed = true ∧ c = .importFrom (String.ofList moduleName) (String.ofList (lastItem rest)) := by
  simp only [importFrom?, Option.bind_eq_bind, Option.bind_eq_some_iff, Option.ite_none_left_eq_some,
    Option.ite_none_right_eq_some, Option.some.injEq]
  constructor
  · rintro ⟨r₁, h₁, r₂, h₂, hne, r₃, h₃, r₄, h₄, r₅, h₅, hall, rfl⟩
    exact ⟨_, r₅, ⟨r₁, r₂, r₃, r₄, h₁, h₂, rfl, h₃, h₄, h₅⟩, hne, hall, rfl⟩
  · rintro ⟨_, r₅, ⟨r₁, r₂, r₃, r₄, h₁, h₂, rfl, h₃, h₄, h₅⟩, hne, hall, rfl⟩
    exact ⟨r₁, h₁, r₂, h₂, hne, r₃, h₃, r₄, h₄, r₅, h₅, hall, rfl⟩

theorem FindsList.isImportFrom (h : FindsList line moduleName rest) (hne : moduleName ≠ [])
    (hall : rest.all isListed = true) : IsImportFrom line moduleName rest := by
  obtain ⟨r₁, r₂, r₃, r₄, h₁, h₂, h₃, h₄, h₅, h₆⟩ := h
  obtain ⟨blanks, hb, hline⟩ := exists_blanks line
  obtain ⟨gap, hg, rfl⟩ := exists_gap h₂
  obtain ⟨run, behind, rfl, hm, htake, hdrop⟩ := exists_run isDotted r₂
  obtain rfl : run = moduleName := htake.symm.trans h₃
  rw [hdrop] at h₄
  obtain ⟨gap', hg', rfl⟩ := exists_gap h₄
  obtain ⟨gap'', hg'', rfl⟩ := exists_gap h₆
  rw [after?_eq_some.mp h₁, after?_eq_some.mp h₅, ← List.append_nil rest] at hline
  rw [hline]
  exact .intro hb hg hne hm hg' hg'' (List.all_eq_true.mp hall) rfl

theorem IsImportFrom.findsList (h : IsImportFrom line moduleName list) :
    moduleName ≠ [] ∧ ∃ rest, FindsList line moduleName rest ∧ rest.all isListed = true ∧ trim rest = trim list ∧
      lastItem rest = lastItem list := by
  obtain @⟨blanks, gap, _, gap', gap'', _, tail, hb, hg, hne, hm, hg', hg'', hl, he⟩ := h
  let r₄ := gap'' ++ (list ++ tail)
  let r₃ := "import".toList ++ r₄
  let r₂ := moduleName ++ (gap' ++ r₃)
  have hskip : skipBlanks r₂ = r₂ := by
    obtain ⟨d, ds, hd⟩ := List.exists_cons_of_ne_nil hne
    have hblank := isBlank_eq_false_of_isDotted (hm d (hd ▸ List.mem_cons_self))
    simp only [r₂, hd, List.cons_append, skipBlanks_cons hblank]
  have hdotted : r₂.takeWhile isDotted = moduleName ∧ r₂.dropWhile isDotted = gap' ++ r₃ := by
    apply takeWhile_run hm
    intro c hc
    exact isDotted_eq_false_of_isBlank (hg'.head r₃ c hc)
  have hgap : afterBlank? (gap ++ r₂) = some r₂ := by rw [hg.afterBlank?_append, hskip]
  have hgap' : afterBlank? (r₂.dropWhile isDotted) = some r₃ := by
    rw [hdotted.2, hg'.afterBlank?_append]
    rfl
  obtain ⟨start, hstart, hsplit⟩ := exists_blanks (list ++ tail)
  refine ⟨hne, skipBlanks (list ++ tail), ⟨gap ++ r₂, r₂, r₃, r₄, after?_skipBlanks hb rfl _, hgap, hdotted.1, hgap',
    after?_eq_some.mpr rfl, hg''.afterBlank?_append _⟩, ?_, ?_, ?_⟩
  · apply List.all_eq_true.mpr
    intro c hc
    obtain hc | hc := List.mem_append.mp ((List.dropWhile_sublist isBlank).mem hc)
    · exact hl c hc
    · simp [isListed, blank_of_isEnd he c hc]
  · rw [trim_skipBlanks, trim_append_blank (blank_of_isEnd he)]
  · have hblank := lastItem_blank hstart (List.forall_mem_nil _) (skipBlanks (list ++ tail))
    rw [List.append_nil, ← hsplit] at hblank
    rw [← hblank]
    exact lastItem_blank (List.forall_mem_nil _) (blank_of_isEnd he) list

theorem importFrom?_eq_some :
    importFrom? line = some c ↔ ∃ moduleName list, IsImportFrom line moduleName list ∧
      c = .importFrom (String.ofList moduleName) (String.ofList (lastItem list)) := by
  rw [importFrom?_iff_findsList]
  constructor
  · rintro ⟨moduleName, rest, hfinds, hne, hall, rfl⟩
    exact ⟨moduleName, rest, hfinds.isImportFrom hne hall, rfl⟩
  · rintro ⟨moduleName, list, hform, rfl⟩
    obtain ⟨hne, rest, hfinds, hall, -, hitem⟩ := hform.findsList
    exact ⟨moduleName, rest, hfinds, hne, hall, by rw [hitem]⟩

theorem IsImportFrom.unique {moduleName' list' : List Char} (h : IsImportFrom line moduleName list)
    (h' : IsImportFrom line moduleName' list') : moduleName = moduleName' ∧ trim list = trim list' := by
  obtain ⟨-, rest, hfinds, -, htrim, -⟩ := h.findsList
  obtain ⟨-, rest', hfinds', -, htrim', -⟩ := h'.findsList
  obtain ⟨hmodule, hrest⟩ := hfinds.unique hfinds'
  refine ⟨hmodule, ?_⟩
  rw [← htrim, ← htrim', hrest]

theorem head?_skipBlanks {w : Char} {blanks : List Char} (hb : ∀ c ∈ blanks, isBlank c = true) (hw : isBlank w = false)
    (cs : List Char) : (skipBlanks (blanks ++ w :: cs)).head? = some w := by
  rw [skipBlanks_append_of_blank hb, skipBlanks_cons hw, List.head?_cons]

theorem IsDecorator.head? (h : IsDecorator line typed) : (skipBlanks line).head? = some '@' := by
  obtain ⟨hb, -, -⟩ := h
  exact head?_skipBlanks hb rfl _

theorem IsImport.head? (h : IsImport line typed) : (skipBlanks line).head? = some 'i' := by
  obtain ⟨hb, -, -, -⟩ := h
  exact head?_skipBlanks hb rfl _

theorem IsImportFrom.head? (h : IsImportFrom line moduleName list) : (skipBlanks line).head? = some 'f' := by
  obtain ⟨hb, -, -, -, -, -, -, -⟩ := h
  exact head?_skipBlanks hb rfl _

end Context

end AbleIndex
