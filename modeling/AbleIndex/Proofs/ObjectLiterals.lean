import AbleIndex.Proofs.Scopes

namespace AbleIndex

open Source

def statements (ls : List (List Char)) : List (List Char) := ls.filter isStatement

/-- The literal `n` that line `i` opens collects keys on line `j`: line `i` is the latest up to `j` that
opens one, and nothing before `j` has closed it. Behind the last line, it is still open. -/
structure CollectsAt (xs : List (List Char)) (n : String) (i j : Nat) : Prop where
  latest : IsGreatest {i | i ≤ j ∧ (readAt objectStart? xs i).isSome} i
  name : readAt objectStart? xs i = some n
  unclosed : ∀ k, i ≤ k → k < j → '\x7d' ∉ lineAt xs k
  deeper : ∀ k, i < k → k < j → levelAt xs i < levelAt xs k

variable {xs ys ls : List (List Char)} {line : List Char} {n : String} {i j : Nat}

theorem statements_snoc_of_statement (h : isStatement line = true) :
    statements (ls ++ [line]) = statements ls ++ [line] := by
  simp [statements, h]

theorem statements_snoc_of_declaration (h : ¬ isStatement line = true) :
    statements (ls ++ [line]) = statements ls := by
  simp [statements, h]

theorem CollectsAt.le (h : CollectsAt xs n i j) : i ≤ j := h.latest.1.1

theorem CollectsAt.congr (hstart : ∀ k ≤ j, readAt objectStart? xs k = readAt objectStart? ys k)
    (hline : ∀ k < j, lineAt xs k = lineAt ys k) (h : CollectsAt xs n i j) : CollectsAt ys n i j := by
  have hlevel (k : Nat) (hk : k < j) : levelAt xs k = levelAt ys k := congrArg indentLevel (hline k hk)
  refine ⟨⟨⟨h.le, ?_⟩, ?_⟩, ?_, ?_, ?_⟩
  · rw [← hstart i h.le]
    exact h.latest.1.2
  · rintro k ⟨hk, hs⟩
    rw [← hstart k hk] at hs
    exact h.latest.2 ⟨hk, hs⟩
  · rw [← hstart i h.le]
    exact h.name
  · intro k hik hkj
    rw [← hline k hkj]
    exact h.unclosed k hik hkj
  · intro k hik hkj
    rw [← hlevel k hkj, ← hlevel i (by omega)]
    exact h.deeper k hik hkj

theorem collectsAt_append_left (hj : j < xs.length) (rest : List (List Char)) :
    CollectsAt (xs ++ rest) n i j ↔ CollectsAt xs n i j := by
  have hstart (k : Nat) (hk : k ≤ j) : readAt objectStart? (xs ++ rest) k = readAt objectStart? xs k :=
    readAt_append_left (by omega) rest
  have hline (k : Nat) (hk : k < j) : lineAt (xs ++ rest) k = lineAt xs k := lineAt_append_left (by omega) rest
  exact ⟨.congr hstart hline, .congr (fun k hk => (hstart k hk).symm) (fun k hk => (hline k hk).symm)⟩

theorem collectsAt_length_of_start {name : String} (h : objectStart? line = some name) :
    CollectsAt (xs ++ [line]) n i xs.length ↔ i = xs.length ∧ n = name := by
  have hlast : readAt objectStart? (xs ++ [line]) xs.length = some name := by rw [readAt_snoc_length, h]
  constructor
  · intro hc
    have hi : i = xs.length := le_antisymm hc.le (hc.latest.2 ⟨le_rfl, by simp [hlast]⟩)
    have hn := hc.name
    rw [hi, hlast, Option.some.injEq] at hn
    exact ⟨hi, hn.symm⟩
  · rintro ⟨rfl, rfl⟩
    refine ⟨⟨⟨le_rfl, by simp [hlast]⟩, fun k hk => hk.1⟩, hlast, ?_, ?_⟩
    · intro k hik hkj
      omega
    · intro k hik hkj
      omega

theorem collectsAt_length_of_none (h : objectStart? line = none) :
    CollectsAt (xs ++ [line]) n i xs.length ↔ CollectsAt xs n i xs.length := by
  have hstart (k : Nat) (hk : k ≤ xs.length) :
      readAt objectStart? (xs ++ [line]) k = readAt objectStart? xs k := by
    by_cases hlt : k < xs.length
    · exact readAt_append_left hlt [line]
    · obtain rfl : k = xs.length := by omega
      rw [readAt_snoc_length, h, readAt, List.getElem?_eq_none le_rfl, Option.bind_none]
  have hline (k : Nat) (hk : k < xs.length) : lineAt (xs ++ [line]) k = lineAt xs k :=
    lineAt_append_left hk [line]
  exact ⟨.congr hstart hline, .congr (fun k hk => (hstart k hk).symm) (fun k hk => (hline k hk).symm)⟩

theorem lt_length_of_collectsAt (h : CollectsAt (xs ++ [line]) n i xs.length) :
    i < xs.length ↔ (objectStart? line).isSome = false := by
  cases hs : objectStart? line with
  | none =>
    have hlt := lt_length_of_readAt ((collectsAt_length_of_none hs).mp h).name
    simp [hlt]
  | some name =>
    have hi := ((collectsAt_length_of_start hs).mp h).1
    simp [hi]

theorem collectsAt_succ_length :
    CollectsAt (xs ++ [line]) n i (xs.length + 1) ↔
      CollectsAt (xs ++ [line]) n i xs.length ∧ '\x7d' ∉ line ∧ (i < xs.length → levelAt xs i < indentLevel line) := by
  constructor
  · rintro ⟨hl, hn, hu, hd⟩
    have hlt := lt_length_of_readAt hn
    rw [List.length_append, List.length_singleton] at hlt
    refine ⟨⟨⟨⟨by omega, hl.1.2⟩, ?_⟩, hn, ?_, ?_⟩, ?_, ?_⟩
    · rintro k ⟨hk, hs⟩
      exact hl.2 ⟨by omega, hs⟩
    · intro k hik hkj
      exact hu k hik (by omega)
    · intro k hik hkj
      exact hd k hik (by omega)
    · have := hu xs.length (by omega) (by omega)
      rwa [lineAt_snoc_length] at this
    · intro hi
      have := hd xs.length hi (by omega)
      rwa [levelAt_snoc_length, levelAt_append_left hi] at this
  · rintro ⟨⟨hl, hn, hu, hd⟩, hb, hi⟩
    have hle := hl.1.1
    refine ⟨⟨⟨by omega, hl.1.2⟩, ?_⟩, hn, ?_, ?_⟩
    · rintro k ⟨-, hs⟩
      obtain ⟨m, hm⟩ := Option.isSome_iff_exists.mp hs
      have hlt := lt_length_of_readAt hm
      rw [List.length_append, List.length_singleton] at hlt
      exact hl.2 ⟨by omega, hs⟩
    · intro k hik hkj
      by_cases hk : k < xs.length
      · exact hu k hik hk
      · obtain rfl : k = xs.length := by omega
        rwa [lineAt_snoc_length]
    · intro k hik hkj
      by_cases hk : k < xs.length
      · exact hd k hik hk
      · obtain rfl : k = xs.length := by omega
        rw [levelAt_snoc_length, levelAt_append_left hik]
        exact hi hik

namespace Extractor

def IsOpenBehind (xs : List (List Char)) (o : Frame) : Prop :=
  ∃ i, CollectsAt xs o.name i xs.length ∧ levelAt xs i = o.indent

theorem collecting_eq_some {s : Extractor} {o : Frame}
    (h : ∀ o, s.openObject = some o ↔ IsOpenBehind xs o) :
    s.collecting line = some o ↔
      ∃ i, CollectsAt (xs ++ [line]) o.name i xs.length ∧ levelAt (xs ++ [line]) i = o.indent := by
  unfold collecting
  cases hs : objectStart? line with
  | none =>
    rw [Option.map_none, Option.none_or, h, IsOpenBehind]
    simp only [collectsAt_length_of_none hs]
    apply exists_congr
    intro i
    rw [and_congr_right_iff]
    intro hc
    rw [levelAt_append_left (lt_length_of_readAt hc.name)]
  | some name =>
    obtain ⟨n, d⟩ := o
    simp only [collectsAt_length_of_start hs, Option.map_some, Option.some_or, Option.some.injEq, Frame.mk.injEq]
    constructor
    · rintro ⟨rfl, rfl⟩
      exact ⟨xs.length, ⟨rfl, rfl⟩, levelAt_snoc_length⟩
    · rintro ⟨i, ⟨rfl, rfl⟩, hl⟩
      rw [levelAt_snoc_length] at hl
      exact ⟨rfl, hl⟩

theorem closes_eq_false {o : Frame} {indent : Nat} {starts : Bool} :
    closes o line indent starts = false ↔ '\x7d' ∉ line ∧ (starts = false → o.indent < indent) := by
  cases starts <;> simp [closes]

theorem openObject_readCode_eq_some {s : Extractor} (hs : isStatement line = true)
    (h : ∀ o, s.openObject = some o ↔ IsOpenBehind xs o) (o : Frame) :
    (s.readCode line).openObject = some o ↔ IsOpenBehind (xs ++ [line]) o := by
  rw [openObject_readCode, if_pos hs, Option.filter_eq_some_iff, collecting_eq_some h, IsOpenBehind]
  simp only [Bool.not_eq_true', closes_eq_false, List.length_append, List.length_singleton,
    collectsAt_succ_length]
  constructor
  · rintro ⟨⟨i, hc, hl⟩, hb, hd⟩
    refine ⟨i, ⟨hc, hb, ?_⟩, hl⟩
    intro hi
    rw [levelAt_append_left hi] at hl
    rw [hl]
    exact hd ((lt_length_of_collectsAt hc).mp hi)
  · rintro ⟨i, ⟨hc, hb, hd⟩, hl⟩
    refine ⟨⟨i, hc, hl⟩, hb, ?_⟩
    intro hstart
    have hi := (lt_length_of_collectsAt hc).mpr hstart
    rw [levelAt_append_left hi] at hl
    rw [← hl]
    exact hd hi

theorem openObject_afterLines (ls : List (List Char)) (o : Frame) :
    (afterLines ls).openObject = some o ↔ IsOpenBehind (statements ls) o := by
  induction ls using List.reverseRecOn generalizing o with
  | nil =>
    constructor
    · intro h
      cases h
    · rintro ⟨i, hc, -⟩
      cases hc.name
  | append_singleton ls line ih =>
    rw [afterLines_snoc]
    by_cases hs : isStatement line = true
    · rw [statements_snoc_of_statement hs]
      exact openObject_readCode_eq_some hs ih o
    · rw [statements_snoc_of_declaration hs, openObject_readCode, if_neg hs]
      exact ih o

theorem hasMember_properties_readCode {s : Extractor} {key : String} (hs : isStatement line = true) :
    HasMember (s.readCode line).table.properties n key ↔
      (∃ o, s.collecting line = some o ∧ o.name = n ∧ key ∈ objectKeys line) ∨
        HasMember s.table.properties n key := by
  rw [properties_readCode, if_pos hs]
  cases s.collecting line with
  | none => simp
  | some o => simp [hasMember_foldl_addMember, eq_comm]

theorem hasMember_properties (ls : List (List Char)) (n key : String) :
    HasMember (afterLines ls).table.properties n key ↔
      ∃ i j, j < (statements ls).length ∧ key ∈ objectKeys (lineAt (statements ls) j) ∧
        CollectsAt (statements ls) n i j := by
  induction ls using List.reverseRecOn with
  | nil => simp [not_hasMember_empty, statements]
  | append_singleton ls line ih =>
    rw [afterLines_snoc]
    by_cases hs : isStatement line = true
    · rw [hasMember_properties_readCode hs, ih, statements_snoc_of_statement hs]
      simp only [collecting_eq_some (openObject_afterLines ls)]
      generalize statements ls = xs
      rw [List.length_append, List.length_singleton]
      constructor
      · rintro (⟨o, ⟨i, hc, -⟩, rfl, hk⟩ | ⟨i, j, hj, hk, hc⟩)
        · exact ⟨i, xs.length, by omega, by rwa [lineAt_snoc_length], hc⟩
        · exact ⟨i, j, by omega, by rwa [lineAt_append_left hj], (collectsAt_append_left hj _).mpr hc⟩
      · rintro ⟨i, j, hj, hk, hc⟩
        by_cases hlt : j < xs.length
        · rw [lineAt_append_left hlt] at hk
          exact .inr ⟨i, j, hlt, hk, (collectsAt_append_left hlt _).mp hc⟩
        · obtain rfl : j = xs.length := by omega
          rw [lineAt_snoc_length] at hk
          exact .inl ⟨⟨n, levelAt (xs ++ [line]) i⟩, ⟨i, hc, rfl⟩, rfl, hk⟩
    · rw [statements_snoc_of_declaration hs, properties_readCode, if_neg hs]
      exact ih

end Extractor

theorem objectLiterals_ofText (text : String) :
    let xs := statements (contentLines false text.toList)
    (∀ n key, HasMember (SymbolTable.ofText text).properties n key ↔
      ∃ i j, j < xs.length ∧ key ∈ objectKeys (lineAt xs j) ∧ CollectsAt xs n i j) ∧
    (∀ o : Frame, (({} : Extractor).read text.toList).openObject = some o ↔
      ∃ i, CollectsAt xs o.name i xs.length ∧ levelAt xs i = o.indent) := by
  intro xs
  constructor
  · intro n key
    rw [ofText_eq]
    exact Extractor.hasMember_properties _ n key
  · intro o
    rw [Extractor.read_eq]
    exact Extractor.openObject_afterLines _ o

end AbleIndex
