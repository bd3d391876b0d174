import AbleIndex.Proofs.PathText
import Mathlib.Data.String.Basic

namespace AbleIndex

namespace Path

inductive Respells : List String → List String → Prop
  | nil : Respells [] []
  | keep (segment : String) {segments others : List String} (h : Respells segments others) :
      Respells (segment :: segments) (segment :: others)
  | swap {segment other : String} {segments others : List String} (hs : isStep segment = false)
      (ho : isStep other = false) (h : Respells segments others) : Respells (segment :: segments) (other :: others)
  | drop {segment : String} {segments others : List String} (hs : isStep segment = false)
      (h : Respells segments others) : Respells (segment :: segments) others

theorem Respells.append_left (before : List String) {segments others : List String} (h : Respells segments others) :
    Respells (before ++ segments) (before ++ others) := by
  induction before with
  | nil => exact h
  | cons segment before ih => exact .keep segment ih

theorem respells_filter (segments : List String) : Respells segments (segments.filter isStep) := by
  induction segments with
  | nil => exact .nil
  | cons segment segments ih =>
    cases hs : isStep segment with
    | true =>
      rw [List.filter_cons_of_pos hs]
      exact .keep segment ih
    | false =>
      rw [List.filter_cons_of_neg (by simp [hs])]
      exact .drop hs ih

theorem respells_blank {segments : List String} (hne : segments ≠ []) (hs : segments.filter isStep = [])
    {blank : String} (hb : isStep blank = false) : Respells segments [blank] := by
  obtain ⟨first, rest, rfl⟩ := List.exists_cons_of_ne_nil hne
  rw [List.filter_eq_nil_iff] at hs
  refine .swap (by simpa using hs first List.mem_cons_self) hb ?_
  have hrest : rest.filter isStep = [] := by
    rw [List.filter_eq_nil_iff]
    intro segment hsegment
    exact hs segment (List.mem_cons_of_mem first hsegment)
  simpa [hrest] using respells_filter rest

theorem segments_ne_nil (s : String) : segments s ≠ [] := by
  simp [segments, Text.pieces_ne_nil]

theorem segments_anchor (a : Anchor) (rest : String) :
    segments (a.text ++ rest) = List.replicate a.text.length "" ++ segments rest := by
  cases a with
  | relative => simp [Anchor.text]
  | slash => exact segments_slash rest
  | doubleSlash =>
    rw [Anchor.text, show "//" = "/" ++ "/" from rfl, String.append_assoc, segments_slash, segments_slash]
    rfl

theorem exists_anchor (s : String) : ∃ rest, s = (anchorOf s).text ++ rest := by
  have hcut (cs : List Char) : ∀ a : Anchor, s.toList = a.text.toList ++ cs → ∃ rest, s = a.text ++ rest := by
    intro a ha
    refine ⟨String.ofList cs, ?_⟩
    rw [← String.toList_inj, ha, String.toList_append, String.toList_ofList]
  unfold anchorOf
  split
  · rename_i cs hs
    exact hcut ('/' :: '/' :: cs) .slash hs
  · rename_i cs _ hs
    exact hcut cs .doubleSlash hs
  · rename_i cs _ _ hs
    exact hcut cs .slash hs
  · exact ⟨s, by simp [Anchor.text]⟩

theorem filter_segments_anchor (a : Anchor) (rest : String) :
    (segments (a.text ++ rest)).filter isStep = (segments rest).filter isStep := by
  rw [segments_anchor, List.filter_append, List.filter_replicate]
  simp [isStep]

theorem text_ofString (s : String) :
    ((ofString s).text = "." ∧ (segments s).filter isStep = []) ∨
      ∃ rest, s = (anchorOf s).text ++ rest ∧
        (ofString s).text = (anchorOf s).text ++ "/".intercalate ((segments rest).filter isStep) := by
  by_cases hdot : anchorOf s = .relative ∧ (segments s).filter isStep = []
  · left
    rw [ofString, hdot.1, hdot.2]
    exact ⟨rfl, rfl⟩
  · right
    obtain ⟨rest, hrest⟩ := exists_anchor s
    have hsteps : (segments s).filter isStep = (segments rest).filter isStep := by
      conv_lhs => rw [hrest]
      exact filter_segments_anchor _ rest
    refine ⟨rest, hrest, ?_⟩
    rw [← hsteps]
    exact text_eq (by tauto)

theorem respells_text (s : String) : Respells (segments s) (segments (ofString s).text) := by
  rcases text_ofString s with ⟨htext, hsteps⟩ | ⟨rest, hrest, htext⟩
  · rw [htext]
    exact respells_blank (segments_ne_nil s) hsteps (show isStep "." = false by decide)
  · rw [htext, segments_anchor]
    conv_lhs => rw [hrest, segments_anchor]
    apply Respells.append_left
    by_cases hnil : (segments rest).filter isStep = []
    · rw [hnil]
      exact respells_blank (segments_ne_nil rest) hnil (show isStep "" = false by decide)
    · rw [segments_intercalate hnil (isProper_ofString rest)]
      exact respells_filter (segments rest)

theorem intercalate_filter_sublist {α : Type} (sep : List α) (p : List α → Bool) (pieces : List (List α)) :
    (sep.intercalate (pieces.filter p)).Sublist (sep.intercalate pieces) := by
  induction pieces with
  | nil => exact .slnil
  | cons piece pieces ih =>
    cases hp : p piece with
    | false =>
      rw [List.filter_cons_of_neg (by simp [hp])]
      cases pieces with
      | nil => simp
      | cons next rest =>
        rw [List.intercalate_cons_cons]
        exact ih.trans (List.sublist_append_right _ _)
    | true =>
      rw [List.filter_cons_of_pos hp]
      cases pieces with
      | nil => exact List.Sublist.refl _
      | cons next rest =>
        rw [List.intercalate_cons_cons]
        cases hf : (next :: rest).filter p with
        | nil =>
          rw [List.intercalate_singleton, List.append_assoc]
          exact List.sublist_append_left _ _
        | cons other others =>
          rw [List.intercalate_cons_cons, ← hf]
          exact (List.Sublist.refl _).append ih

theorem text_ofString_sublist (s : String) :
    (ofString s).text = "." ∨ (ofString s).text.toList.Sublist s.toList := by
  rcases text_ofString s with ⟨htext, -⟩ | ⟨rest, hrest, htext⟩
  · exact .inl htext
  · right
    have hsplit : rest.toList = ['/'].intercalate (Text.pieces '/' rest.toList) := by
      rw [Text.pieces_eq_splitOn, List.intercalate_splitOn]
    rw [htext]
    conv_rhs => rw [hrest]
    rw [String.toList_append, String.toList_append, String.toList_intercalate]
    refine (List.Sublist.refl _).append ?_
    conv_rhs => rw [hsplit]
    rw [segments, List.filter_map, List.map_map]
    simpa [Function.comp_def] using
      intercalate_filter_sublist ['/'] (fun cs => isStep (String.ofList cs)) (Text.pieces '/' rest.toList)

theorem isAbsolute_text_ofString (s : String) : isAbsolute (ofString s).text = isAbsolute s := by
  have hanchor : anchorOf (ofString s).text = anchorOf s := (Path.mk.inj (ofString_text (isProper_ofString s))).1
  rw [Bool.eq_iff_iff, isAbsolute_iff, isAbsolute_iff, hanchor]

end Path

namespace Disk

open AbleIndex.Path

variable {d : Disk} {loc loc' : Location} {segments others : List String}

theorem walkUntilLink_cons_of_not_isStep {segment : String} (hs : isStep segment = false)
    (follow : Location → List String → Except LookupError Location) (loc : Location) (rest : List String) :
    d.walkUntilLink false follow loc (segment :: rest) =
      if ¬ d.isDirectoryAt loc then .error .notDirectory else d.walkUntilLink false follow loc rest := by
  have hblank : segment = "" ∨ segment = "." := by
    simpa [isStep, or_iff_not_imp_left] using hs
  rw [walkUntilLink, if_pos hblank]

theorem walkUntilLink_respells {follow follow' : Location → List String → Except LookupError Location}
    (hfollow : ∀ loc segments others loc', Respells segments others → follow loc segments = .ok loc' →
      follow' loc others = .ok loc')
    (hr : Respells segments others) (h : d.walkUntilLink false follow loc segments = .ok loc') :
    d.walkUntilLink false follow' loc others = .ok loc' := by
  induction hr generalizing loc with
  | nil => exact h
  | swap hs ho hr ih =>
    rw [walkUntilLink_cons_of_not_isStep hs] at h
    rw [walkUntilLink_cons_of_not_isStep ho]
    split at h
    · cases h
    · rename_i hdir
      rw [if_neg hdir]
      exact ih h
  | drop hs hr ih =>
    rw [walkUntilLink_cons_of_not_isStep hs] at h
    split at h
    · cases h
    · exact ih h
  | keep segment hr ih =>
    rw [walkUntilLink] at h ⊢
    simp only [Bool.false_and, Bool.false_eq_true, if_false] at h ⊢
    split at h
    · cases h
    rename_i hdir
    rw [if_neg hdir]
    split at h
    · rename_i hblank
      rw [if_pos hblank]
      exact ih h
    rename_i hblank
    rw [if_neg hblank]
    split at h
    · rename_i hup
      rw [if_pos hup]
      exact ih h
    rename_i hup
    rw [if_neg hup]
    split at h
    · cases h
    rename_i hlong
    rw [if_neg hlong]
    split at h
    · cases h
    · exact hfollow _ _ _ _ (hr.append_left _) h
    · exact ih h

theorem walk_respells {links : Nat} (hr : Respells segments others)
    (h : d.walk false links loc segments = .ok loc') : d.walk false links loc others = .ok loc' := by
  induction links generalizing loc loc' segments others with
  | zero => exact walkUntilLink_respells (fun _ _ _ _ _ he => by cases he) hr h
  | succ links ih => exact walkUntilLink_respells (fun _ _ _ _ hr he => ih hr he) hr h

theorem locate_ofString {cwd : Location} {s : String} (h : d.locate cwd s = .ok loc) :
    d.locate cwd (ofString s).text = .ok loc := by
  unfold locate at h
  split at h
  · cases h
  split at h
  · cases h
  split at h
  · cases h
  rename_i husable hsize
  have hne : (ofString s).text ≠ "" := by
    intro he
    have hempty : ofString "" = ofString s := by rw [← he, ofString_text (isProper_ofString s)]
    rw [← hempty] at he
    exact absurd he (by decide)
  have husable' : isUsable (ofString s).text = true := by
    rcases text_ofString_sublist s with htext | hsub
    · rw [htext]
      decide
    · have hnul : '\x00' ∉ s.toList := by simpa [isUsable] using husable
      simpa [isUsable] using fun hmem => hnul (hsub.subset hmem)
  have hsize' : ¬ pathLimit < (ofString s).text.utf8ByteSize := by
    rcases text_ofString_sublist s with htext | hsub
    · rw [htext]
      decide
    · have hle := String.utf8Len_le_of_sublist hsub
      rw [← String.utf8ByteSize_ofList, ← String.utf8ByteSize_ofList, String.ofList_toList, String.ofList_toList] at hle
      omega
  rw [locate, if_neg hne, if_neg (not_not_intro husable'), if_neg hsize', isAbsolute_text_ofString]
  exact walk_respells (respells_text s) h

end Disk

theorem Host.isDirectory_ofString {h : Host} {s : String} (hs : h.isDirectory s = true) :
    h.isDirectory (Path.ofString s).text = true := by
  unfold isDirectory Disk.isDirectory Disk.lookup at hs ⊢
  cases hl : h.disk.locate h.cwd.parts s with
  | error e => simp [hl, bind, Except.bind] at hs
  | ok loc => rwa [Disk.locate_ofString hl, ← hl]

end AbleIndex
