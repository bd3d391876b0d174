import AbleIndex.Proofs.ExtractorInvariant

namespace AbleIndex

open Source

def IsTopFunction (ls : List (List Char)) (f : String) (j : Nat) : Prop :=
  readAt functionName? ls j = some f ∧ ∀ i, ¬ Encloses ls i j

def IsMethod (ls : List (List Char)) (c m : String) (j : Nat) : Prop :=
  readAt functionName? ls j = some m ∧ ∃ i, Encloses ls i j ∧ readAt className? ls i = some c

structure Declares (ls : List (List Char)) (t : SymbolTable) : Prop where
  methods : ∀ c m, HasMember t.methods c m ↔ ∃ j, IsMethod ls c m j
  owners : ∀ c, t.methods.contains c = true ↔ ∃ m, HasMember t.methods c m
  functions : ∀ f, f ∈ t.functions ↔
    ∃ j, IsTopFunction ls f j ∧ ∀ k, j < k → readAt className? ls k ≠ some f
  classes : ∀ c, c ∈ t.classes ↔
    ∃ i, readAt className? ls i = some c ∧ ∀ j, i < j → ¬ IsTopFunction ls c j
  bindings : ∀ v, v ∈ t.bindings ↔
    ∃ line ∈ ls, indentLevel line = 0 ∧ className? line = none ∧ functionName? line = none ∧
      assignment? line = some v
  types : ∀ v c, t.variableTypes.find? v = some c ↔ IsLastWrite topConstruction? ls v c
  untyped : ∀ v, t.variableTypes.find? v = none ↔ ∀ line ∈ ls, ∀ c, topConstruction? line ≠ some (v, c)

variable {ls : List (List Char)} {line : List Char}

theorem isEvent_isTopFunction (f : String) : IsEvent fun ls j => IsTopFunction ls f j where
  lt_length h := lt_length_of_readAt h.1
  append_left hj rest := by
    unfold IsTopFunction
    rw [readAt_append_left hj]
    simp only [encloses_append_left hj]

theorem isEvent_isMethod (c m : String) : IsEvent fun ls j => IsMethod ls c m j where
  lt_length h := lt_length_of_readAt h.1
  append_left {ls j} hj rest := by
    unfold IsMethod
    rw [readAt_append_left hj, and_congr_right_iff]
    intro hm
    simp only [encloses_append_left hj]
    apply exists_congr
    intro i
    rw [and_congr_right_iff]
    intro he
    rw [readAt_append_left (he.1.lt.trans hj)]

namespace Extractor

theorem isTopFunction_length {f : String} :
    IsTopFunction (ls ++ [line]) f ls.length ↔
      functionName? line = some f ∧ (afterLines ls).owner? line = none := by
  rw [IsTopFunction, readAt_snoc_length, owner?_eq_none]

theorem isMethod_length {c m : String} :
    IsMethod (ls ++ [line]) c m ls.length ↔
      functionName? line = some m ∧ (afterLines ls).owner? line = some c := by
  rw [IsMethod, readAt_snoc_length, owner?_eq_some]

theorem mem_functions (ls : List (List Char)) (f : String) :
    f ∈ (afterLines ls).table.functions ↔
      ∃ j, IsTopFunction ls f j ∧ ∀ k, j < k → readAt className? ls k ≠ some f := by
  refine survives (P := fun ls => f ∈ (afterLines ls).table.functions) (isEvent_isTopFunction f)
    (isEvent_readAt className? f) (SortedSet.not_mem_empty f) ?_ ls
  intro ls line
  rw [afterLines_snoc, mem_functions_readCode, isTopFunction_length, readAt_snoc_length, or_comm]

theorem mem_classes (ls : List (List Char)) (c : String) :
    c ∈ (afterLines ls).table.classes ↔
      ∃ i, readAt className? ls i = some c ∧ ∀ j, i < j → ¬ IsTopFunction ls c j := by
  refine survives (P := fun ls => c ∈ (afterLines ls).table.classes) (isEvent_readAt className? c)
    (isEvent_isTopFunction c) (SortedSet.not_mem_empty c) ?_ ls
  intro ls line
  rw [afterLines_snoc, mem_classes_readCode, isTopFunction_length, readAt_snoc_length]

theorem hasMember_methods (ls : List (List Char)) (c m : String) :
    HasMember (afterLines ls).table.methods c m ↔ ∃ j, IsMethod ls c m j := by
  refine occurs (P := fun ls => HasMember (afterLines ls).table.methods c m) (isEvent_isMethod c m)
    not_hasMember_empty ?_ ls
  intro ls line
  rw [afterLines_snoc, hasMember_methods_readCode, isMethod_length, or_comm]

theorem mem_bindings {v : String} :
    v ∈ (afterLines ls).table.bindings ↔
      ∃ line ∈ ls, isStatement line = true ∧ topBinding? line = some v := by
  induction ls using List.reverseRecOn with
  | nil => simp
  | append_singleton ls line ih =>
    rw [afterLines_snoc, mem_bindings_readCode, ih]
    simp [or_and_right, exists_or]

theorem variableTypes_afterLines (ls : List (List Char)) :
    (afterLines ls).table.variableTypes = ls.foldl (SortedMap.write topConstruction?) ∅ := by
  induction ls using List.reverseRecOn with
  | nil => rfl
  | append_singleton ls line ih =>
    rw [afterLines_snoc, variableTypes_readCode, ih, List.foldl_append]
    rfl

end Extractor

theorem declares_ofText (text : String) :
    Declares (contentLines false text.toList) (SymbolTable.ofText text) := by
  rw [ofText_eq]
  refine
    { methods := Extractor.hasMember_methods _
      owners := fun _ => contains_iff_hasMember (Extractor.invariant_afterLines _).noEmptyMethods
      functions := Extractor.mem_functions _
      classes := Extractor.mem_classes _
      bindings := ?_
      types := ?_
      untyped := ?_ }
  · intro v
    rw [Extractor.mem_bindings]
    simp only [isStatement_iff, topBinding?, Option.ite_none_right_eq_some]
    grind
  · intro v c
    rw [Extractor.variableTypes_afterLines]
    exact find?_foldl_write
  · intro v
    rw [Extractor.variableTypes_afterLines]
    exact find?_foldl_write_eq_none

end AbleIndex
