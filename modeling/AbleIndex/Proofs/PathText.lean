import AbleIndex.Files.Host
import Mathlib.Data.List.Basic

namespace AbleIndex

namespace Text

theorem pieces_eq_splitOn (sep : Char) (cs : List Char) : pieces sep cs = cs.splitOn sep := by
  induction cs with
  | nil => rfl
  | cons c cs ih =>
    obtain ⟨p, ps, hp⟩ := List.exists_cons_of_ne_nil (pieces_ne_nil sep cs)
    rw [pieces_cons, List.splitOn_cons_eq_if_modifyHead, ← ih, hp]
    by_cases h : c = sep <;> simp [h]

end Text

namespace Path

theorem segments_intercalate {parts : List String} (hne : parts ≠ []) (h : ∀ part ∈ parts, IsComponent part) :
    segments ("/".intercalate parts) = parts := by
  have hsplit : (List.intercalate ['/'] (parts.map String.toList)).splitOn '/' = parts.map String.toList := by
    apply List.splitOn_intercalate
    · intro l hl
      obtain ⟨part, hp, rfl⟩ := List.mem_map.mp hl
      exact (h part hp).2
    · simpa using hne
  rw [segments, String.toList_intercalate, Text.pieces_eq_splitOn, show "/".toList = ['/'] from rfl, hsplit]
  simp

theorem steps_intercalate {parts : List String} (h : ∀ part ∈ parts, IsComponent part) :
    (segments ("/".intercalate parts)).filter isStep = parts := by
  cases parts with
  | nil => decide
  | cons part parts =>
    rw [segments_intercalate (by simp) h, List.filter_eq_self]
    intro a ha
    exact (h a ha).1

theorem segments_slash (s : String) : segments ("/" ++ s) = "" :: segments s := by
  simp [segments, Text.pieces_cons]

theorem IsComponent.toList_ne_nil {part : String} (h : IsComponent part) : part.toList ≠ [] := by
  intro he
  rw [String.toList_eq_nil_iff] at he
  simp [IsComponent, isStep, he] at h

theorem head?_intercalate_cons {part : String} {parts : List String} (h : IsComponent part) :
    ∃ c, c ≠ '/' ∧ ("/".intercalate (part :: parts)).toList.head? = some c := by
  obtain ⟨c, cs, hc⟩ := List.exists_cons_of_ne_nil h.toList_ne_nil
  have hslash : c ≠ '/' := by
    rintro rfl
    exact h.2 (by simp [hc])
  cases parts with
  | nil => exact ⟨c, hslash, by simp [hc]⟩
  | cons q qs => exact ⟨c, hslash, by simp [hc]⟩

theorem head?_intercalate {parts : List String} (h : ∀ part ∈ parts, IsComponent part) :
    ("/".intercalate parts).toList.head? ≠ some '/' := by
  cases parts with
  | nil => simp
  | cons part parts =>
    obtain ⟨c, hslash, hc⟩ := head?_intercalate_cons (h part List.mem_cons_self)
    rw [hc, Ne, Option.some.injEq]
    exact hslash

theorem anchorOf_append {s : String} (a : Anchor) (h : s.toList.head? ≠ some '/') : anchorOf (a.text ++ s) = a := by
  unfold anchorOf
  rw [String.toList_append]
  cases hs : s.toList with
  | nil => cases a <;> rfl
  | cons c cs =>
    have hc : c ≠ '/' := by simpa [hs] using h
    cases a
    · simp [Anchor.text, hc]
    · simp [Anchor.text, hc]
    · simp [Anchor.text, hc]

theorem text_eq {a : Anchor} {parts : List String} (h : a ≠ .relative ∨ parts ≠ []) :
    text ⟨a, parts⟩ = a.text ++ "/".intercalate parts := by
  unfold text
  split
  · simp_all
  · simp_all

theorem text_append_concat (root : Path) (dirs : List String) (name suffix : String) :
    (root.append (dirs ++ [name ++ suffix])).text = (root.append (dirs ++ [name])).text ++ suffix := by
  obtain ⟨a, ps⟩ := root
  have hjoin (before : List String) :
      "/".intercalate (before ++ [name ++ suffix]) = "/".intercalate (before ++ [name]) ++ suffix := by
    cases before with
    | nil => simp
    | cons b bs =>
      rw [String.intercalate_append_of_ne_nil (by simp) (by simp),
        String.intercalate_append_of_ne_nil (by simp) (by simp)]
      simp [String.append_assoc]
  rw [append, append, text_eq (by simp), text_eq (by simp), ← List.append_assoc, ← List.append_assoc, hjoin,
    String.append_assoc]

theorem isAbsolute_iff {s : String} : isAbsolute s = true ↔ anchorOf s ≠ .relative := by
  unfold isAbsolute anchorOf
  cases hs : s.toList with
  | nil => simp
  | cons c cs =>
    by_cases hc : c = '/'
    · subst hc
      split <;> simp_all
    · simp [hc]

theorem ofString_text {p : Path} (h : p.IsProper) : ofString p.text = p := by
  obtain ⟨a, parts⟩ := p
  have hsteps := steps_intercalate h
  have hanchor := anchorOf_append a (head?_intercalate h)
  cases a with
  | relative =>
    cases parts with
    | nil => decide
    | cons part parts =>
      simp only [ofString, text, Path.mk.injEq]
      refine ⟨hanchor, ?_⟩
      simpa [Anchor.text] using hsteps
  | slash =>
    simp only [ofString, text, Path.mk.injEq]
    refine ⟨hanchor, ?_⟩
    rw [Anchor.text, segments_slash, List.filter_cons_of_neg (by decide), hsteps]
  | doubleSlash =>
    simp only [ofString, text, Path.mk.injEq]
    refine ⟨hanchor, ?_⟩
    rw [Anchor.text, show "//" = "/" ++ "/" from rfl, String.append_assoc, segments_slash, segments_slash,
      List.filter_cons_of_neg (by decide), List.filter_cons_of_neg (by decide), hsteps]

theorem text_injective {p q : Path} (hp : p.IsProper) (hq : q.IsProper) (h : p.text = q.text) : p = q := by
  rw [← ofString_text hp, ← ofString_text hq, h]

theorem foldl_climb_of_not_mem {parts : List String} (h : ".." ∉ parts) (base : List String) :
    parts.foldl climb base = base ++ parts := by
  induction parts generalizing base with
  | nil => simp
  | cons part parts ih =>
    have hpart : part ≠ ".." := fun he => h (he ▸ List.mem_cons_self)
    rw [List.foldl_cons, climb, if_neg hpart, ih fun hp => h (List.mem_cons_of_mem part hp), List.append_assoc]
    rfl

theorem absolute_of_relative {s : String} (cwd : Path) (hs : anchorOf s = .relative) :
    absolute cwd s = ⟨cwd.anchor, (ofString s).parts.foldl climb cwd.parts⟩ := by
  simp only [absolute, ofString, hs]

theorem absolute_of_anchored {s : String} (cwd : Path) (hs : anchorOf s ≠ .relative) :
    absolute cwd s = ⟨anchorOf s, (ofString s).parts.foldl climb []⟩ := by
  unfold absolute
  dsimp only
  split
  · rename_i ha
    exact absurd ha hs
  · rfl

theorem absolute_text {p : Path} (hp : p.IsResolved) (cwd : Path) : absolute cwd p.text = p := by
  have hread := ofString_text hp.proper
  have hanchor : anchorOf p.text = p.anchor := congrArg Path.anchor hread
  rw [absolute_of_anchored cwd (hanchor ▸ hp.absolute), hanchor, hread, foldl_climb_of_not_mem hp.climbed]
  rfl

end Path

theorem Host.absolute_text {p : Path} (hp : p.IsResolved) (h : Host) : h.absolute p.text = p :=
  Path.absolute_text hp h.cwd

end AbleIndex
