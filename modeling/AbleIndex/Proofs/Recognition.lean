import AbleIndex.Source.Declaration
import Mathlib.Data.List.TakeWhile

namespace AbleIndex.Source

open Text

def IsIdentifier (name : String) : Prop :=
  ∃ c cs, name.toList = c :: cs ∧ isWordStart c = true ∧ ∀ d ∈ cs, isWordChar d = true

theorem isWordChar_of_isWordStart {c : Char} (h : isWordStart c = true) : isWordChar c = true := by
  simp [isWordChar, h]

theorem toNat_of_isWordChar {c : Char} (h : isWordChar c = true) : 48 ≤ c.toNat ∧ c.toNat ≤ 122 := by
  simp only [isWordChar, isWordStart, isDigit, Bool.or_eq_true, Bool.and_eq_true, decide_eq_true_eq,
    Char.le_def, UInt32.le_iff_toNat_le] at h
  change 48 ≤ c.val.toNat ∧ c.val.toNat ≤ 122
  rcases h with ((⟨hl, hu⟩ | ⟨hl, hu⟩) | rfl) | ⟨hl, hu⟩
  · exact ⟨le_trans (by decide) hl, le_trans hu (by decide)⟩
  · exact ⟨le_trans (by decide) hl, le_trans hu (by decide)⟩
  · decide
  · exact ⟨le_trans (by decide) hl, le_trans hu (by decide)⟩

theorem isBlank_eq_false_of_isWordChar {c : Char} (h : isWordChar c = true) : isBlank c = false := by
  have hc := toNat_of_isWordChar h
  simp only [isBlank, Bool.or_eq_false_iff, Bool.and_eq_false_iff, decide_eq_false_iff_not, beq_eq_false_iff_ne]
  omega

theorem after?_eq_some {word cs rest : List Char} : after? word cs = some rest ↔ cs = word ++ rest := by
  unfold after?
  constructor
  · intro h
    split at h
    · rename_i hp
      obtain ⟨t, rfl⟩ := List.isPrefixOf_iff_prefix.mp hp
      simpa using h
    · cases h
  · rintro rfl
    simp

theorem after?_eq_none {c d : Char} (word cs : List Char) (h : c ≠ d) :
    after? (c :: word) (d :: cs) = none := by
  simp [after?, h]

theorem afterBlank?_eq_some {cs rest : List Char} :
    afterBlank? cs = some rest ↔ ∃ b ds, cs = b :: ds ∧ isBlank b = true ∧ skipBlanks ds = rest := by
  cases cs with
  | nil => simp [afterBlank?]
  | cons b ds =>
    simp only [afterBlank?, Option.ite_none_right_eq_some, Option.some.injEq]
    constructor
    · rintro ⟨hb, h⟩
      exact ⟨b, ds, rfl, hb, h⟩
    · rintro ⟨_, _, he, hb, h⟩
      cases he
      exact ⟨hb, h⟩

theorem identifier?_eq_some {cs rest : List Char} {name : String} :
    identifier? cs = some (name, rest) ↔
      ∃ c ds, cs = c :: ds ∧ isWordStart c = true ∧
        String.ofList (c :: ds.takeWhile isWordChar) = name ∧ ds.dropWhile isWordChar = rest := by
  cases cs with
  | nil => simp [identifier?]
  | cons c ds =>
    simp only [identifier?, Option.ite_none_right_eq_some, Option.some.injEq, Prod.mk.injEq]
    constructor
    · rintro ⟨hc, h⟩
      exact ⟨c, ds, rfl, hc, h⟩
    · rintro ⟨_, _, he, hc, h⟩
      cases he
      exact ⟨hc, h⟩

theorem isIdentifier_of_identifier? {cs rest : List Char} {name : String}
    (h : identifier? cs = some (name, rest)) : IsIdentifier name := by
  obtain ⟨c, ds, -, hc, rfl, -⟩ := identifier?_eq_some.mp h
  exact ⟨c, ds.takeWhile isWordChar, String.toList_ofList, hc, fun d hd => List.mem_takeWhile_imp hd⟩

theorem keyword_eq_some {word cs : List Char} {name : String} :
    (do let rest ← after? word cs
        let rest ← afterBlank? rest
        let (name, _) ← identifier? rest
        return name) = some name ↔
      ∃ b r tail, cs = word ++ b :: r ∧ isBlank b = true ∧ identifier? (skipBlanks r) = some (name, tail) := by
  simp only [bind, Option.bind_eq_some_iff, after?_eq_some, afterBlank?_eq_some, pure]
  constructor
  · rintro ⟨_, hcs, _, ⟨b, r, rfl, hb, rfl⟩, ⟨n, tail⟩, hn, he⟩
    cases he
    exact ⟨b, r, tail, hcs, hb, hn⟩
  · rintro ⟨b, r, tail, hcs, hb, hn⟩
    exact ⟨b :: r, hcs, skipBlanks r, ⟨b, r, rfl, hb, rfl⟩, (name, tail), hn, rfl⟩

theorem className?_eq_some {line : List Char} {name : String} :
    className? line = some name ↔
      ∃ b r tail, skipBlanks line = "class".toList ++ b :: r ∧ isBlank b = true ∧
        identifier? (skipBlanks r) = some (name, tail) :=
  keyword_eq_some

theorem functionName?_eq_some {line : List Char} {name : String} :
    functionName? line = some name ↔
      ∃ b r tail, skipAsync (skipBlanks line) = "fun".toList ++ b :: r ∧ isBlank b = true ∧
        identifier? (skipBlanks r) = some (name, tail) :=
  keyword_eq_some

theorem skipAsync_cases (cs : List Char) :
    skipAsync cs = cs ∨
      ∃ b r, cs = "async".toList ++ b :: r ∧ isBlank b = true ∧ skipAsync cs = skipBlanks r := by
  unfold skipAsync
  cases h : (after? "async".toList cs).bind afterBlank? with
  | none => exact .inl rfl
  | some rest =>
    obtain ⟨_, hcs, hrest⟩ := Option.bind_eq_some_iff.mp h
    obtain ⟨b, r, rfl, hb, rfl⟩ := afterBlank?_eq_some.mp hrest
    exact .inr ⟨b, r, after?_eq_some.mp hcs, hb, rfl⟩

theorem functionName?_eq_none_of_className? {line : List Char} {name : String}
    (h : className? line = some name) : functionName? line = none := by
  obtain ⟨b, r, tail, hl, -, -⟩ := className?_eq_some.mp h
  have hasync : skipAsync (skipBlanks line) = skipBlanks line := by
    rw [hl, skipAsync, show "async".toList = 'a' :: "sync".toList from rfl]
    exact congrArg (fun o => (Option.bind o afterBlank?).getD _) (after?_eq_none _ _ (by decide))
  have hfun : after? "fun".toList (skipAsync (skipBlanks line)) = none := by
    rw [hasync, hl]
    exact after?_eq_none _ _ (by decide)
  rw [functionName?, hfun]
  rfl

theorem className?_eq_none_of_functionName? {line : List Char} {name : String}
    (h : functionName? line = some name) : className? line = none := by
  rw [Option.eq_none_iff_forall_ne_some]
  intro c hc
  simp [functionName?_eq_none_of_className? hc] at h

theorem binding?_eq_some {line rest : List Char} {name : String} :
    binding? line = some (name, rest) ↔
      ∃ r s, identifier? (skipBlanks line) = some (name, r) ∧ skipBlanks r = '=' :: s ∧ skipBlanks s = rest := by
  simp only [binding?, bind, Option.bind_eq_some_iff, after?_eq_some, pure]
  constructor
  · rintro ⟨⟨n, r⟩, hn, s, hs, he⟩
    cases he
    exact ⟨r, s, hn, hs, rfl⟩
  · rintro ⟨r, s, hn, hs, rfl⟩
    exact ⟨(name, r), hn, s, hs, rfl⟩

theorem binding?_eq_none_of_words {line w r s : List Char} {b c : Char}
    (hl : skipBlanks line = w ++ b :: r) (hw : w.all isWordChar = true) (hb : isBlank b = true)
    (hr : skipBlanks r = c :: s) (hc : isWordStart c = true) : binding? line = none := by
  have hbw : isWordChar b = false := by
    by_contra h
    have := isBlank_eq_false_of_isWordChar (by simpa using h)
    simp [hb] at this
  rw [Option.eq_none_iff_forall_ne_some]
  rintro ⟨name, rest⟩ h
  obtain ⟨t, u, hn, hu, -⟩ := binding?_eq_some.mp h
  obtain ⟨d, ds, hd, hds, -, rfl⟩ := identifier?_eq_some.mp hn
  rw [hl] at hd
  cases w with
  | nil =>
    rw [List.nil_append, List.cons.injEq] at hd
    rw [← hd.1] at hds
    simp [isWordChar_of_isWordStart hds] at hbw
  | cons e w =>
    rw [List.cons_append, List.cons.injEq] at hd
    have hdrop : ds.dropWhile isWordChar = b :: r := by
      have hrest : ∀ d ∈ w, isWordChar d = true := by
        rw [List.all_cons, Bool.and_eq_true, List.all_eq_true] at hw
        exact hw.2
      rw [← hd.2, List.dropWhile_append_of_pos hrest]
      simp [hbw]
    have hskip : skipBlanks (b :: r) = skipBlanks r := by simp [skipBlanks, hb]
    rw [hdrop, hskip, hr, List.cons.injEq] at hu
    rw [hu.1] at hc
    exact absurd hc (by decide)

theorem binding?_eq_none_of_className? {line : List Char} {name : String}
    (h : className? line = some name) : binding? line = none := by
  obtain ⟨b, r, tail, hl, hb, hn⟩ := className?_eq_some.mp h
  obtain ⟨c, ds, hr, hc, -, -⟩ := identifier?_eq_some.mp hn
  exact binding?_eq_none_of_words hl rfl hb hr hc

theorem binding?_eq_none_of_functionName? {line : List Char} {name : String}
    (h : functionName? line = some name) : binding? line = none := by
  obtain ⟨b, r, tail, hl, hb, hn⟩ := functionName?_eq_some.mp h
  obtain ⟨c, ds, hr, hc, -, -⟩ := identifier?_eq_some.mp hn
  rcases skipAsync_cases (skipBlanks line) with hs | ⟨b', r', hl', hb', hs⟩
  · rw [hs] at hl
    exact binding?_eq_none_of_words hl rfl hb hr hc
  · rw [hs] at hl
    exact binding?_eq_none_of_words hl' rfl hb' hl rfl

theorem exists_binding?_of_construction? {line : List Char} {name className : String}
    (h : construction? line = some (name, className)) : ∃ rest, binding? line = some (name, rest) := by
  simp only [construction?, bind, Option.bind_eq_some_iff, pure] at h
  obtain ⟨⟨n, rest⟩, hb, ⟨c, _⟩, -, _, -, he⟩ := h
  cases he
  exact ⟨rest, hb⟩

theorem exists_binding?_of_objectStart? {line : List Char} {name : String}
    (h : objectStart? line = some name) : ∃ rest, binding? line = some (name, rest) := by
  simp only [objectStart?, bind, Option.bind_eq_some_iff, pure] at h
  obtain ⟨⟨n, rest⟩, hb, _, -, he⟩ := h
  cases he
  exact ⟨rest, hb⟩

theorem assignment?_eq_some {line : List Char} {name : String} :
    assignment? line = some name ↔ ∃ rest, binding? line = some (name, rest) := by
  simp [assignment?]

theorem construction?_eq_none_of_binding? {line : List Char} (h : binding? line = none) :
    construction? line = none := by
  simp [construction?, h]

theorem isIdentifier_of_className? {line : List Char} {name : String}
    (h : className? line = some name) : IsIdentifier name := by
  obtain ⟨b, r, tail, -, -, hn⟩ := className?_eq_some.mp h
  exact isIdentifier_of_identifier? hn

theorem isIdentifier_of_functionName? {line : List Char} {name : String}
    (h : functionName? line = some name) : IsIdentifier name := by
  obtain ⟨b, r, tail, -, -, hn⟩ := functionName?_eq_some.mp h
  exact isIdentifier_of_identifier? hn

theorem isIdentifier_of_assignment? {line : List Char} {name : String}
    (h : assignment? line = some name) : IsIdentifier name := by
  obtain ⟨rest, hb⟩ := assignment?_eq_some.mp h
  obtain ⟨r, s, hn, -, -⟩ := binding?_eq_some.mp hb
  exact isIdentifier_of_identifier? hn

end AbleIndex.Source
