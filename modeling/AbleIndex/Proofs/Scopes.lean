import AbleIndex.Proofs.History
import AbleIndex.Proofs.Reading
import Mathlib.Order.Bounds.Basic

namespace AbleIndex

open Source

def lineAt (ls : List (List Char)) (i : Nat) : List Char := ls.getD i []

def levelAt (ls : List (List Char)) (i : Nat) : Nat := indentLevel (lineAt ls i)

structure Covers (ls : List (List Char)) (i j : Nat) : Prop where
  lt : i < j
  declares : (readAt className? ls i).isSome
  deeper : ∀ k, i < k → k ≤ j → levelAt ls i < levelAt ls k

def Encloses (ls : List (List Char)) (i j : Nat) : Prop := IsGreatest {i | Covers ls i j} i

variable {ls : List (List Char)} {line : List Char} {i j : Nat}

theorem lineAt_append_left (h : i < ls.length) (rest : List (List Char)) : lineAt (ls ++ rest) i = lineAt ls i := by
  rw [lineAt, lineAt, List.getD_eq_getElem?_getD, List.getD_eq_getElem?_getD, List.getElem?_append_left h]

@[simp] theorem lineAt_snoc_length : lineAt (ls ++ [line]) ls.length = line := by
  simp [lineAt]

theorem levelAt_append_left (h : i < ls.length) (rest : List (List Char)) :
    levelAt (ls ++ rest) i = levelAt ls i := by
  rw [levelAt, levelAt, lineAt_append_left h]

@[simp] theorem levelAt_snoc_length : levelAt (ls ++ [line]) ls.length = indentLevel line := by
  rw [levelAt, lineAt_snoc_length]

theorem covers_append_left (hj : j < ls.length) (rest : List (List Char)) :
    Covers (ls ++ rest) i j ↔ Covers ls i j := by
  have hread (hi : i < j) : readAt className? (ls ++ rest) i = readAt className? ls i :=
    readAt_append_left (by omega) rest
  have hlevel (k : Nat) (hk : k ≤ j) : levelAt (ls ++ rest) k = levelAt ls k :=
    levelAt_append_left (by omega) rest
  constructor
  · rintro ⟨hlt, hd, hk⟩
    refine ⟨hlt, by rwa [hread hlt] at hd, ?_⟩
    intro k hik hkj
    rw [← hlevel i hlt.le, ← hlevel k hkj]
    exact hk k hik hkj
  · rintro ⟨hlt, hd, hk⟩
    refine ⟨hlt, by rwa [hread hlt], ?_⟩
    intro k hik hkj
    rw [hlevel i hlt.le, hlevel k hkj]
    exact hk k hik hkj

theorem encloses_append_left (hj : j < ls.length) (rest : List (List Char)) :
    Encloses (ls ++ rest) i j ↔ Encloses ls i j := by
  simp only [Encloses, covers_append_left hj]

namespace Extractor

structure Opens (ls : List (List Char)) (i : Nat) (f : Frame) : Prop where
  name : readAt className? ls i = some f.name
  level : levelAt ls i = f.indent
  deeper : ∀ k, i < k → k < ls.length → f.indent < levelAt ls k

def SortedScopes (scopes : List Frame) : Prop := scopes.Pairwise fun f g => g.indent < f.indent

theorem mem_leave {indent : Nat} {scopes : List Frame} {f : Frame} (hs : SortedScopes scopes) :
    f ∈ leave indent scopes ↔ f ∈ scopes ∧ f.indent < indent := by
  induction scopes with
  | nil => simp [leave]
  | cons g gs ih =>
    have hg := List.pairwise_cons.mp hs
    by_cases hi : indent ≤ g.indent
    · have hl : leave indent (g :: gs) = leave indent gs := by simp [leave, hi]
      rw [hl, ih hg.2, List.mem_cons]
      constructor
      · rintro ⟨hf, hlt⟩
        exact ⟨.inr hf, hlt⟩
      · rintro ⟨rfl | hf, hlt⟩
        · omega
        · exact ⟨hf, hlt⟩
    · have hl : leave indent (g :: gs) = g :: gs := by simp [leave, hi]
      rw [hl, iff_self_and]
      intro hf
      rcases List.mem_cons.mp hf with rfl | hf
      · omega
      · have := hg.1 f hf
        omega

theorem sortedScopes_readCode {s : Extractor} (hs : SortedScopes s.scopes) (line : List Char) :
    SortedScopes (s.readCode line).scopes := by
  have hl : SortedScopes (leave (indentLevel line) s.scopes) := hs.sublist (List.dropWhile_sublist _)
  rw [scopes_readCode]
  cases className? line with
  | none => exact hl
  | some name =>
    refine List.pairwise_cons.mpr ⟨?_, hl⟩
    intro f hf
    exact ((mem_leave hs).mp hf).2

theorem sortedScopes_afterLines (ls : List (List Char)) : SortedScopes (afterLines ls).scopes := by
  induction ls using List.reverseRecOn with
  | nil => exact .nil
  | append_singleton ls line ih =>
    rw [afterLines_snoc]
    exact sortedScopes_readCode ih line

theorem opens_snoc {f : Frame} :
    Opens (ls ++ [line]) i f ↔
      (i = ls.length ∧ className? line = some f.name ∧ indentLevel line = f.indent) ∨
        (Opens ls i f ∧ f.indent < indentLevel line) := by
  constructor
  · rintro ⟨hn, hl, hk⟩
    rcases readAt_snoc_eq_some.mp hn with ⟨hlt, hname⟩ | ⟨rfl, hname⟩
    · rw [levelAt_append_left hlt] at hl
      refine .inr ⟨⟨hname, hl, ?_⟩, ?_⟩
      · intro k hik hkl
        have := hk k hik (by rw [List.length_append]; omega)
        rwa [levelAt_append_left hkl] at this
      · have := hk ls.length hlt (by simp)
        rwa [levelAt_snoc_length] at this
    · rw [levelAt_snoc_length] at hl
      exact .inl ⟨rfl, hname, hl⟩
  · rintro (⟨rfl, hn, hl⟩ | ⟨⟨hn, hl, hk⟩, hd⟩)
    · refine ⟨by rwa [readAt_snoc_length], by rwa [levelAt_snoc_length], ?_⟩
      intro k hik hkl
      rw [List.length_append, List.length_singleton] at hkl
      omega
    · have hlt := lt_length_of_readAt hn
      refine ⟨by rwa [readAt_append_left hlt], by rwa [levelAt_append_left hlt], ?_⟩
      intro k hik hkl
      rw [List.length_append, List.length_singleton] at hkl
      by_cases hkl' : k < ls.length
      · rw [levelAt_append_left hkl']
        exact hk k hik hkl'
      · obtain rfl : k = ls.length := by omega
        rwa [levelAt_snoc_length]

theorem mem_scopes {f : Frame} :
    f ∈ (afterLines ls).scopes ↔ ∃ i, Opens ls i f := by
  induction ls using List.reverseRecOn with
  | nil =>
    simp only [afterLines_nil, List.not_mem_nil, false_iff, not_exists]
    rintro i ⟨hn, -, -⟩
    cases hn
  | append_singleton ls line ih =>
    rw [afterLines_snoc, scopes_readCode, List.mem_append, mem_leave (sortedScopes_afterLines ls), ih]
    simp only [opens_snoc, exists_or, exists_eq_left, exists_and_right]
    apply or_congr _ Iff.rfl
    cases className? line with
    | none => simp
    | some name =>
      obtain ⟨n, d⟩ := f
      simp [eq_comm]

theorem covers_length :
    Covers (ls ++ [line]) i ls.length ↔ ∃ f, Opens ls i f ∧ f.indent < indentLevel line := by
  constructor
  · rintro ⟨hlt, hd, hk⟩
    obtain ⟨name, hn⟩ := Option.isSome_iff_exists.mp hd
    rw [readAt_append_left hlt] at hn
    rw [levelAt_append_left hlt] at hk
    refine ⟨⟨name, levelAt ls i⟩, ⟨hn, rfl, ?_⟩, ?_⟩
    · intro k hik hkl
      have := hk k hik hkl.le
      rwa [levelAt_append_left hkl] at this
    · have := hk ls.length hlt le_rfl
      rwa [levelAt_snoc_length] at this
  · rintro ⟨f, ⟨hn, hl, hk⟩, hd⟩
    have hlt := lt_length_of_readAt hn
    refine ⟨hlt, by simp [readAt_append_left hlt, hn], ?_⟩
    intro k hik hkl
    rw [levelAt_append_left hlt, hl]
    by_cases hkl' : k < ls.length
    · rw [levelAt_append_left hkl']
      exact hk k hik hkl'
    · obtain rfl : k = ls.length := by omega
      rwa [levelAt_snoc_length]

theorem encloses_of_leave {f : Frame} {rest : List Frame}
    (h : leave (indentLevel line) (afterLines ls).scopes = f :: rest) :
    ∃ i, Encloses (ls ++ [line]) i ls.length ∧ readAt className? (ls ++ [line]) i = some f.name := by
  have hs := sortedScopes_afterLines ls
  have hsorted : SortedScopes (f :: rest) := h ▸ hs.sublist (List.dropWhile_sublist _)
  obtain ⟨hf, hd⟩ := (mem_leave hs).mp (h ▸ List.mem_cons_self)
  obtain ⟨i, hi⟩ := mem_scopes.mp hf
  have hlt := lt_length_of_readAt hi.name
  refine ⟨i, ⟨covers_length.mpr ⟨f, hi, hd⟩, ?_⟩, by rw [readAt_append_left hlt]; exact hi.name⟩
  intro i' hc
  obtain ⟨g, hg, hgd⟩ := covers_length.mp hc
  have hgm : g ∈ f :: rest := h ▸ (mem_leave hs).mpr ⟨mem_scopes.mpr ⟨i', hg⟩, hgd⟩
  have hle : g.indent ≤ f.indent := by
    rcases List.mem_cons.mp hgm with rfl | hm
    · exact le_rfl
    · exact ((List.pairwise_cons.mp hsorted).1 g hm).le
  -- a class line behind line `i` would be indented more than it
  by_contra hii
  have := hi.deeper i' (by omega) (lt_length_of_readAt hg.name)
  rw [hg.level] at this
  omega

theorem owner?_eq_none :
    (afterLines ls).owner? line = none ↔ ∀ i, ¬ Encloses (ls ++ [line]) i ls.length := by
  constructor
  · intro h i he
    obtain ⟨f, hf, hd⟩ := covers_length.mp he.1
    have hm := (mem_leave (sortedScopes_afterLines ls)).mpr ⟨mem_scopes.mpr ⟨i, hf⟩, hd⟩
    rw [leave_eq_nil h] at hm
    cases hm
  · intro h
    rw [Option.eq_none_iff_forall_ne_some]
    intro owner ho
    obtain ⟨f, rest, hl, -⟩ := leave_eq_cons ho
    obtain ⟨i, he, -⟩ := encloses_of_leave hl
    exact h i he

theorem owner?_eq_some {c : String} :
    (afterLines ls).owner? line = some c ↔
      ∃ i, Encloses (ls ++ [line]) i ls.length ∧ readAt className? (ls ++ [line]) i = some c := by
  constructor
  · intro h
    obtain ⟨f, rest, hl, rfl⟩ := leave_eq_cons h
    exact encloses_of_leave hl
  · rintro ⟨i, he, hn⟩
    cases ho : (afterLines ls).owner? line with
    | none => exact absurd he (owner?_eq_none.mp ho i)
    | some owner =>
      obtain ⟨f, rest, hl, rfl⟩ := leave_eq_cons ho
      obtain ⟨i', he', hn'⟩ := encloses_of_leave hl
      rw [he'.unique he, hn] at hn'
      exact hn'.symm

end Extractor

end AbleIndex
