import AbleIndex.Proofs.Reading

namespace AbleIndex.Source

variable {line : List Char}

def IsDeclaration (line : List Char) : Prop :=
  (className? line).isSome = true ∨ (functionName? line).isSome = true

theorem binding?_eq_none_of_isDeclaration (h : IsDeclaration line) : binding? line = none := by
  obtain h | h := h
  · obtain ⟨name, hn⟩ := Option.isSome_iff_exists.mp h
    exact binding?_eq_none_of_className? hn
  · obtain ⟨name, hn⟩ := Option.isSome_iff_exists.mp h
    exact binding?_eq_none_of_functionName? hn

theorem assignment?_eq_none_of_binding? (h : binding? line = none) : assignment? line = none := by
  rw [assignment?, h]
  rfl

theorem objectStart?_eq_none_of_binding? (h : binding? line = none) : objectStart? line = none := by
  rw [objectStart?, h]
  rfl

theorem assignment?_of_construction? {name className : String} (h : construction? line = some (name, className)) :
    assignment? line = some name :=
  assignment?_eq_some.mpr (exists_binding?_of_construction? h)

theorem assignment?_of_objectStart? {name : String} (h : objectStart? line = some name) :
    assignment? line = some name :=
  assignment?_eq_some.mpr (exists_binding?_of_objectStart? h)

theorem objectStart?_eq_none_of_construction? {p : String × String} (h : construction? line = some p) :
    objectStart? line = none := by
  rw [Option.eq_none_iff_forall_ne_some]
  intro name hobject
  simp only [construction?, bind, Option.bind_eq_some_iff, pure] at h
  simp only [objectStart?, bind, Option.bind_eq_some_iff, pure] at hobject
  obtain ⟨⟨_, rest⟩, hb, ⟨className, _⟩, hi, -⟩ := h
  obtain ⟨⟨_, rest'⟩, hb', _, hbrace, -⟩ := hobject
  rw [hb, Option.some.injEq, Prod.mk.injEq] at hb'
  obtain ⟨-, rfl⟩ := hb'
  obtain ⟨c, ds, hrest, hc, -⟩ := identifier?_eq_some.mp hi
  rw [after?_eq_some.mp hbrace, List.singleton_append, List.cons.injEq] at hrest
  rw [← hrest.1] at hc
  exact absurd hc (by decide)

end AbleIndex.Source

namespace AbleIndex

open Source

theorem Extractor.readStatement_of_no_binding {line : List Char} (h : binding? line = none) (s : Extractor)
    (indent : Nat) : s.readStatement line indent = s.collectKeys line indent false := by
  have hconstruction (s : Extractor) : s.bindConstruction line = s := by
    rw [bindConstruction, construction?_eq_none_of_binding? h]
  have hliteral (s : Extractor) : s.openLiteral line indent = s := by
    rw [openLiteral, objectStart?_eq_none_of_binding? h]
  have hvariable (s : Extractor) : s.bindVariable line = s := by
    rw [bindVariable, assignment?_eq_none_of_binding? h]
  rw [readStatement, hconstruction, ite_self, hliteral, hvariable, ite_self, objectStart?_eq_none_of_binding? h]
  rfl

structure OverlapsAsOrdered (line : List Char) : Prop where
  apart : ¬ ((className? line).isSome = true ∧ (functionName? line).isSome = true)
  unbound : IsDeclaration line → construction? line = none ∧ objectStart? line = none ∧ assignment? line = none
  /-- All that is lost when a declaration is read no further: keys of the open object literal and its end. -/
  stopped : IsDeclaration line → ∀ (s : Extractor) (indent : Nat), ∃ properties openObject,
    s.readStatement line indent = s.collectKeys line indent false ∧
      s.collectKeys line indent false = { s with table := { s.table with properties }, openObject } ∧
      (openObject = s.openObject ∨ openObject = none)
  oneValue : ¬ ((construction? line).isSome = true ∧ (objectStart? line).isSome = true)
  construction : ∀ name className, construction? line = some (name, className) → assignment? line = some name
  objectStart : ∀ name, objectStart? line = some name → assignment? line = some name

/-- Two readers accept the same line only where one of them reads a binding and the other what is bound, and then they
read the same name. -/
theorem overlapsAsOrdered (line : List Char) : OverlapsAsOrdered line where
  apart := by
    rintro ⟨hc, hf⟩
    obtain ⟨name, hn⟩ := Option.isSome_iff_exists.mp hc
    rw [functionName?_eq_none_of_className? hn] at hf
    cases hf
  unbound h := by
    have hb := binding?_eq_none_of_isDeclaration h
    exact ⟨construction?_eq_none_of_binding? hb, objectStart?_eq_none_of_binding? hb, assignment?_eq_none_of_binding? hb⟩
  stopped h s indent := by
    refine ⟨_, _, s.readStatement_of_no_binding (binding?_eq_none_of_isDeclaration h) indent,
      s.collectKeys_eq line indent false, ?_⟩
    cases s.openObject with
    | none => exact .inl rfl
    | some o => cases hc : Extractor.closes o line indent false <;> simp [hc, Option.filter]
  oneValue := by
    rintro ⟨hc, ho⟩
    obtain ⟨p, hp⟩ := Option.isSome_iff_exists.mp hc
    rw [objectStart?_eq_none_of_construction? hp] at ho
    cases ho
  construction _ _ h := assignment?_of_construction? h
  objectStart _ h := assignment?_of_objectStart? h

-- a keyword can be bound, and is then no keyword
example : assignment? "class = 1".toList = some "class" ∧ className? "class = 1".toList = none ∧
    construction? "async = f(".toList = some ("async", "f") ∧ assignment? "fun x =".toList = none := by
  decide +kernel

end AbleIndex
