import AbleIndex.Proofs.CursorContext

namespace AbleIndex.Context

open Text

variable {line typed typed' moduleName list : List Char} {c : Context}

def HasForm (line : List Char) : Context → Prop
  | member v => ∃ body tail, line = body ++ tail ∧ isEnd tail = true ∧ EndsInMember body v
  | decorator typed => IsDecorator line typed.toList
  | importModule typed => IsImport line typed.toList
  | importFrom moduleName typed =>
    ∃ list, IsImportFrom line moduleName.toList list ∧ IsLastItem list typed.toList
  | general =>
    (∀ typed, ¬ IsDecorator line typed) ∧ (∀ typed, ¬ IsImport line typed) ∧
      ∀ moduleName list, ¬ IsImportFrom line moduleName list

theorem IsDecorator.not_isImport (h : IsDecorator line typed) : ¬ IsImport line typed' := by
  intro h'
  have hheads := h.head?.symm.trans h'.head?
  cases hheads

theorem IsDecorator.not_isImportFrom (h : IsDecorator line typed) : ¬ IsImportFrom line moduleName list := by
  intro h'
  have hheads := h.head?.symm.trans h'.head?
  cases hheads

theorem IsImport.not_isImportFrom (h : IsImport line typed) : ¬ IsImportFrom line moduleName list := by
  intro h'
  have hheads := h.head?.symm.trans h'.head?
  cases hheads

theorem decorator?_eq_none : decorator? line = none ↔ ∀ typed, ¬ IsDecorator line typed := by
  rw [Option.eq_none_iff_forall_ne_some]
  constructor
  · intro h typed hform
    exact h _ (decorator?_eq_some.mpr ⟨typed, hform, rfl⟩)
  · intro h c hc
    obtain ⟨typed, hform, -⟩ := decorator?_eq_some.mp hc
    exact h typed hform

theorem importModule?_eq_none : importModule? line = none ↔ ∀ typed, ¬ IsImport line typed := by
  rw [Option.eq_none_iff_forall_ne_some]
  constructor
  · intro h typed hform
    exact h _ (importModule?_eq_some.mpr ⟨typed, hform, rfl⟩)
  · intro h c hc
    obtain ⟨typed, hform, -⟩ := importModule?_eq_some.mp hc
    exact h typed hform

theorem importFrom?_eq_none : importFrom? line = none ↔ ∀ moduleName list, ¬ IsImportFrom line moduleName list := by
  rw [Option.eq_none_iff_forall_ne_some]
  constructor
  · intro h moduleName list hform
    exact h _ (importFrom?_eq_some.mpr ⟨moduleName, list, hform, rfl⟩)
  · intro h c hc
    obtain ⟨moduleName, list, hform, -⟩ := importFrom?_eq_some.mp hc
    exact h moduleName list hform

theorem hasForm_place (line : List Char) : HasForm line (place line) ∧ ∀ v, place line ≠ member v := by
  unfold place
  cases hd : decorator? line with
  | some c =>
    obtain ⟨typed, hform, rfl⟩ := decorator?_eq_some.mp hd
    refine ⟨?_, nofun⟩
    rw [Option.getD_some, HasForm, String.toList_ofList]
    exact hform
  | none =>
    cases hi : importModule? line with
    | some c =>
      obtain ⟨typed, hform, rfl⟩ := importModule?_eq_some.mp hi
      refine ⟨?_, nofun⟩
      rw [Option.getD_none, Option.getD_some, HasForm, String.toList_ofList]
      exact hform
    | none =>
      cases hf : importFrom? line with
      | some c =>
        obtain ⟨moduleName, list, hform, rfl⟩ := importFrom?_eq_some.mp hf
        refine ⟨?_, nofun⟩
        rw [Option.getD_none, Option.getD_none, Option.getD_some, HasForm, String.toList_ofList, String.toList_ofList]
        exact ⟨list, hform, isLastItem_iff.mpr rfl⟩
      | none =>
        exact ⟨⟨decorator?_eq_none.mp hd, importModule?_eq_none.mp hi, importFrom?_eq_none.mp hf⟩, nofun⟩

theorem HasForm.place_eq (h : HasForm line c) (hc : ∀ v, c ≠ member v) : place line = c := by
  cases c with
  | member v => exact absurd rfl (hc v)
  | decorator typed =>
    have hd : decorator? line = some (decorator typed) := by
      apply decorator?_eq_some.mpr
      exact ⟨typed.toList, h, by rw [String.ofList_toList]⟩
    rw [place, hd, Option.getD_some]
  | importModule typed =>
    have hd : decorator? line = none := decorator?_eq_none.mpr fun _ hform => hform.not_isImport h
    have hi : importModule? line = some (importModule typed) := by
      apply importModule?_eq_some.mpr
      exact ⟨typed.toList, h, by rw [String.ofList_toList]⟩
    rw [place, hd, hi, Option.getD_none, Option.getD_some]
  | importFrom moduleName typed =>
    obtain ⟨list, hform, hitem⟩ := h
    have hd : decorator? line = none := decorator?_eq_none.mpr fun _ hform' => hform'.not_isImportFrom hform
    have hi : importModule? line = none := importModule?_eq_none.mpr fun _ hform' => hform'.not_isImportFrom hform
    have hf : importFrom? line = some (importFrom moduleName typed) := by
      apply importFrom?_eq_some.mpr
      refine ⟨moduleName.toList, list, hform, ?_⟩
      rw [← isLastItem_iff.mp hitem, String.ofList_toList, String.ofList_toList]
    rw [place, hd, hi, hf, Option.getD_none, Option.getD_none, Option.getD_some]
  | general =>
    obtain ⟨hd, hi, hf⟩ := h
    rw [place, decorator?_eq_none.mpr hd, importModule?_eq_none.mpr hi, importFrom?_eq_none.mpr hf]
    rfl

theorem mem_ofLine {line : String} : c ∈ ofLine line ↔ HasForm line.toList c := by
  have hplace := hasForm_place line.toList
  rw [ofLine, List.mem_append, Option.mem_toList, List.mem_singleton]
  constructor
  · rintro (hm | rfl)
    · obtain ⟨body, tail, v, hline, he, hv, rfl⟩ := member?_eq_some.mp hm
      exact ⟨body, tail, hline, he, hv⟩
    · exact hplace.1
  · intro h
    by_cases hc : ∃ v, c = member v
    · obtain ⟨v, rfl⟩ := hc
      obtain ⟨body, tail, hline, he, hv⟩ := h
      exact .inl (member?_eq_some.mpr ⟨body, tail, v, hline, he, hv, rfl⟩)
    · push Not at hc
      exact .inr (h.place_eq hc).symm

/-- The contexts of a line are those whose form it has. The last of them is the only one that is no member access, and
at most one comes before it, when it is an import or nothing special. No line has two of the forms of decorators, imports
and imports from a module, and one of the last kind has one module and one list, up to the white space around it. -/
theorem ofLine_unambiguous (line : String) :
    (∃ c, (∀ v, c ≠ member v) ∧
      (ofLine line = [c] ∨
        ∃ v, ofLine line = [member v, c] ∧ (c = general ∨ ∃ typed, c = importModule typed))) ∧
    (∀ c, c ∈ ofLine line ↔ HasForm line.toList c) ∧
    (∀ typed, IsDecorator line.toList typed → ∀ typed', ¬ IsImport line.toList typed') ∧
    (∀ moduleName list, IsImportFrom line.toList moduleName list →
      ∀ typed, ¬ IsDecorator line.toList typed ∧ ¬ IsImport line.toList typed) ∧
    ∀ moduleName list moduleName' list', IsImportFrom line.toList moduleName list →
      IsImportFrom line.toList moduleName' list' → moduleName = moduleName' ∧ trim list = trim list' := by
  refine ⟨⟨place line.toList, (hasForm_place line.toList).2, ?_⟩, fun _ => mem_ofLine, fun _ h _ => h.not_isImport,
    fun _ _ h _ => ⟨fun h' => h'.not_isImportFrom h, fun h' => h'.not_isImportFrom h⟩, fun _ _ _ _ h h' => h.unique h'⟩
  cases hm : member? line.toList with
  | none =>
    left
    rw [ofLine, hm]
    rfl
  | some c =>
    obtain ⟨body, tail, v, hline, he, hv, rfl⟩ := member?_eq_some.mp hm
    obtain ⟨before, hbody⟩ := List.getLast?_eq_some_iff.mp hv.getLast?
    refine .inr ⟨v, ?_, ?_⟩
    · rw [ofLine, hm]
      rfl
    · rw [hline, hbody, List.append_assoc, List.singleton_append]
      exact place_of_dot_end before he

-- the word before the dot starts behind the digit, and the line feed is passed over
example : ofLine " import m.2a.\n" = [member "a", importModule "m.2a."] := by decide

end AbleIndex.Context
