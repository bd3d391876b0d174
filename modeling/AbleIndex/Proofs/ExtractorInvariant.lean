import AbleIndex.Proofs.Scopes

namespace AbleIndex

open Source

namespace Extractor

structure Invariant (s : Extractor) : Prop where
  disjoint : ∀ f, f ∈ s.table.functions → f ∉ s.table.classes
  scopesDeclared : ∀ f ∈ s.scopes, f.name ∈ s.table.classes
  ownersDeclared : ∀ c names, s.table.methods.find? c = some names →
    c ∈ s.table.functions ∨ c ∈ s.table.classes
  scopesSorted : SortedScopes s.scopes
  typesBound : ∀ v c, s.table.variableTypes.find? v = some c → v ∈ s.table.bindings
  objectBound : ∀ o, s.openObject = some o → o.indent = 0 → o.name ∈ s.table.bindings
  noEmptyMethods : NoEmptySet s.table.methods
  noEmptyProperties : NoEmptySet s.table.properties
  functionNames : ∀ f ∈ s.table.functions, IsIdentifier f
  classNames : ∀ c ∈ s.table.classes, IsIdentifier c
  bindingNames : ∀ v ∈ s.table.bindings, IsIdentifier v
  methodNames : ∀ c m, HasMember s.table.methods c m → IsIdentifier m

variable {s : Extractor} {line : List Char}

theorem mem_scopes_of_mem_leave {indent : Nat} {scopes : List Frame} {f : Frame} (h : f ∈ leave indent scopes) :
    f ∈ scopes := (List.dropWhile_sublist _).mem h

theorem not_mem_classes_readCode (h : Invariant s) {f : String} (hf : f ∈ (s.readCode line).table.functions) :
    f ∉ (s.readCode line).table.classes := by
  rw [mem_classes_readCode]
  rintro (hc | ⟨hc, hno⟩)
  · rcases mem_functions_readCode.mp hf with ⟨-, hne⟩ | ⟨hfn, -⟩
    · exact hne hc
    · rw [className?_eq_none_of_functionName? hfn] at hc
      cases hc
  · rcases mem_functions_readCode.mp hf with ⟨hf, -⟩ | hfn
    · exact h.disjoint f hf hc
    · exact hno hfn

theorem mem_classes_of_mem_scopes_readCode (h : Invariant s) {f : Frame} (hf : f ∈ (s.readCode line).scopes) :
    f.name ∈ (s.readCode line).table.classes := by
  rw [scopes_readCode, List.mem_append] at hf
  rw [mem_classes_readCode]
  rcases hf with hf | hf
  · obtain ⟨name, hc, rfl⟩ := Option.map_eq_some_iff.mp (Option.mem_toList.mp hf)
    exact .inl hc
  · refine .inr ⟨h.scopesDeclared f (mem_scopes_of_mem_leave hf), ?_⟩
    -- a function outside every class is declared only when all classes have been left
    rintro ⟨-, ho⟩
    rw [leave_eq_nil ho] at hf
    cases hf

theorem declared_readCode {c : String} (h : c ∈ s.table.functions ∨ c ∈ s.table.classes) :
    c ∈ (s.readCode line).table.functions ∨ c ∈ (s.readCode line).table.classes := by
  rw [mem_functions_readCode, mem_classes_readCode]
  rcases h with h | h
  · by_cases hc : className? line = some c
    · exact .inr (.inl hc)
    · exact .inl (.inl ⟨h, hc⟩)
  · by_cases hf : functionName? line = some c ∧ s.owner? line = none
    · exact .inl (.inr hf)
    · exact .inr (.inr ⟨h, hf⟩)

theorem owner_declared_readCode (h : Invariant s) {c : String} {names : NameSet}
    (hc : (s.readCode line).table.methods.find? c = some names) :
    c ∈ (s.readCode line).table.functions ∨ c ∈ (s.readCode line).table.classes := by
  apply declared_readCode
  rw [methods_readCode] at hc
  cases hm : s.method? line with
  | none =>
    rw [hm] at hc
    exact h.ownersDeclared c names hc
  | some p =>
    obtain ⟨owner, name⟩ := p
    rw [hm, Option.elim_some, find?_addMember] at hc
    split at hc
    · rename_i he
      obtain ⟨f, rest, hl, hn⟩ := leave_eq_cons (method?_eq_some.mp hm).2
      rw [he, ← hn]
      exact .inr (h.scopesDeclared f (mem_scopes_of_mem_leave (hl ▸ List.mem_cons_self)))
    · exact h.ownersDeclared c names hc

theorem topBinding?_of_topConstruction? {v c : String} (h : topConstruction? line = some (v, c)) :
    topBinding? line = some v := by
  simp only [topConstruction?, Option.ite_none_right_eq_some] at h
  obtain ⟨hi, hc⟩ := h
  rw [topBinding?, if_pos hi, assignment?_eq_some]
  exact exists_binding?_of_construction? hc

theorem topBinding?_of_objectStart? {n : String} (h : objectStart? line = some n) (hi : indentLevel line = 0) :
    topBinding? line = some n := by
  rw [topBinding?, if_pos hi, assignment?_eq_some]
  exact exists_binding?_of_objectStart? h

theorem isStatement_of_topConstruction? {p : String × String} (h : topConstruction? line = some p) :
    isStatement line = true := by
  by_contra hs
  rw [topConstruction?_of_not_statement hs] at h
  cases h

theorem type_bound_readCode (h : Invariant s) {v c : String}
    (hv : (s.readCode line).table.variableTypes.find? v = some c) : v ∈ (s.readCode line).table.bindings := by
  rw [variableTypes_readCode] at hv
  rw [mem_bindings_readCode]
  cases ht : topConstruction? line with
  | none =>
    rw [ht] at hv
    exact .inl (h.typesBound v c hv)
  | some p =>
    obtain ⟨w, d⟩ := p
    rw [ht, Option.elim_some, SortedMap.find?_insert] at hv
    split at hv
    · rename_i he
      rw [he]
      exact .inr ⟨isStatement_of_topConstruction? ht, topBinding?_of_topConstruction? ht⟩
    · exact .inl (h.typesBound v c hv)

theorem object_bound_readCode (h : Invariant s) {o : Frame} (ho : (s.readCode line).openObject = some o)
    (hi : o.indent = 0) : o.name ∈ (s.readCode line).table.bindings := by
  rw [openObject_readCode] at ho
  rw [mem_bindings_readCode]
  split at ho
  · rename_i hs
    have hcol := (Option.filter_eq_some_iff.mp ho).1
    unfold collecting at hcol
    cases hstart : objectStart? line with
    | none =>
      rw [hstart] at hcol
      exact .inl (h.objectBound o hcol hi)
    | some name =>
      rw [hstart] at hcol
      cases hcol
      exact .inr ⟨hs, topBinding?_of_objectStart? hstart hi⟩
  · exact .inl (h.objectBound o ho hi)

theorem noEmptySet_methods_readCode (h : NoEmptySet s.table.methods) :
    NoEmptySet (s.readCode line).table.methods := by
  rw [methods_readCode]
  cases s.method? line with
  | none => exact h
  | some p => exact noEmptySet_addMember h

theorem noEmptySet_properties_readCode (h : NoEmptySet s.table.properties) :
    NoEmptySet (s.readCode line).table.properties := by
  rw [properties_readCode]
  split
  · cases s.collecting line with
    | none => exact h
    | some o => exact noEmptySet_foldl_addMember h
  · exact h

theorem invariant_empty : Invariant {} where
  disjoint f hf := absurd hf (SortedSet.not_mem_empty f)
  scopesDeclared _ hf := absurd hf List.not_mem_nil
  ownersDeclared _ _ hc := nomatch hc
  scopesSorted := .nil
  typesBound _ _ hv := nomatch hv
  objectBound _ ho := nomatch ho
  noEmptyMethods := noEmptySet_empty
  noEmptyProperties := noEmptySet_empty
  functionNames f hf := absurd hf (SortedSet.not_mem_empty f)
  classNames c hc := absurd hc (SortedSet.not_mem_empty c)
  bindingNames v hv := absurd hv (SortedSet.not_mem_empty v)
  methodNames _ _ hm := absurd hm not_hasMember_empty

theorem invariant_readCode (h : Invariant s) (line : List Char) : Invariant (s.readCode line) where
  disjoint _ := not_mem_classes_readCode h
  scopesDeclared _ := mem_classes_of_mem_scopes_readCode h
  ownersDeclared _ _ := owner_declared_readCode h
  scopesSorted := sortedScopes_readCode h.scopesSorted line
  typesBound _ _ := type_bound_readCode h
  objectBound _ := object_bound_readCode h
  noEmptyMethods := noEmptySet_methods_readCode h.noEmptyMethods
  noEmptyProperties := noEmptySet_properties_readCode h.noEmptyProperties
  functionNames f hf := by
    rcases mem_functions_readCode.mp hf with ⟨hf, -⟩ | ⟨hf, -⟩
    · exact h.functionNames f hf
    · exact isIdentifier_of_functionName? hf
  classNames c hc := by
    rcases mem_classes_readCode.mp hc with hc | ⟨hc, -⟩
    · exact isIdentifier_of_className? hc
    · exact h.classNames c hc
  bindingNames v hv := by
    rcases mem_bindings_readCode.mp hv with hv | ⟨-, hv⟩
    · exact h.bindingNames v hv
    · exact isIdentifier_of_assignment? (Option.ite_none_right_eq_some.mp hv).2
  methodNames c m hm := by
    rcases hasMember_methods_readCode.mp hm with hm | ⟨hf, -⟩
    · exact h.methodNames c m hm
    · exact isIdentifier_of_functionName? hf

theorem invariant_foldl_readCode (h : Invariant s) (ls : List (List Char)) : Invariant (ls.foldl readCode s) := by
  induction ls generalizing s with
  | nil => exact h
  | cons line ls ih => exact ih (invariant_readCode h line)

theorem invariant_afterLines (ls : List (List Char)) : Invariant (afterLines ls) :=
  invariant_foldl_readCode invariant_empty ls

theorem invariant_setComment (h : Invariant s) (b : Bool) : Invariant (s.setComment b) where
  __ := h

theorem invariant_read (h : Invariant s) (text : List Char) : Invariant (s.read text) := by
  rw [read_eq]
  exact invariant_setComment (invariant_foldl_readCode h _) _

theorem invariant_foldl_read (h : Invariant s) (texts : List String) :
    Invariant (texts.foldl (fun s text => s.read text.toList) s) := by
  induction texts generalizing s with
  | nil => exact h
  | cons text texts ih => exact ih (invariant_read h text.toList)

theorem invariant_of_texts (texts : List String) (count : Nat) :
    Invariant ((texts.take count).foldl (fun s text => s.read text.toList) {}) :=
  invariant_foldl_read invariant_empty (texts.take count)

end Extractor

end AbleIndex
