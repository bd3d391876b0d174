import AbleIndex.Proofs.Members
import AbleIndex.Proofs.Recognition
import AbleIndex.Symbols.Extractor

namespace AbleIndex

open Source Text

def contentLines (inComment : Bool) (text : List Char) : List (List Char) :=
  (codeLines inComment (sourceLines text)).filter fun line => !isBlankLine line

def isStatement (line : List Char) : Bool := (className? line).isNone && (functionName? line).isNone

theorem isStatement_iff {line : List Char} :
    isStatement line = true ↔ className? line = none ∧ functionName? line = none := by
  simp [isStatement]

def topBinding? (line : List Char) : Option String :=
  if indentLevel line = 0 then assignment? line else none

def topConstruction? (line : List Char) : Option (String × String) :=
  if indentLevel line = 0 then construction? line else none

namespace Extractor

def collecting (s : Extractor) (line : List Char) : Option Frame :=
  ((objectStart? line).map (⟨·, indentLevel line⟩)).or s.openObject

theorem bindConstruction_eq (s : Extractor) (line : List Char) :
    s.bindConstruction line = { s with table := { s.table with
      variableTypes := (construction? line).elim s.table.variableTypes
        fun p => s.table.variableTypes.insert p.1 p.2 } } := by
  unfold bindConstruction
  cases construction? line <;> rfl

theorem bindVariable_eq (s : Extractor) (line : List Char) :
    s.bindVariable line = { s with table := { s.table with
      bindings := (assignment? line).elim s.table.bindings s.table.bindings.insert } } := by
  unfold bindVariable
  cases assignment? line <;> rfl

theorem openLiteral_eq (s : Extractor) (line : List Char) :
    s.openLiteral line (indentLevel line) = { s with openObject := s.collecting line } := by
  unfold openLiteral collecting
  cases objectStart? line <;> rfl

theorem collectKeys_eq (s : Extractor) (line : List Char) (indent : Nat) (starts : Bool) :
    s.collectKeys line indent starts = { s with
      table := { s.table with
        properties := s.openObject.elim s.table.properties
          fun o => (objectKeys line).foldl (addMember · o.name) s.table.properties }
      openObject := s.openObject.filter fun o => !closes o line indent starts } := by
  obtain ⟨table, scopes, openObject, inComment⟩ := s
  unfold collectKeys
  cases openObject with
  | none => rfl
  | some o => cases h : closes o line indent starts <;> simp [h, Option.filter]

theorem readStatement_eq (s : Extractor) (line : List Char) :
    s.readStatement line (indentLevel line) = { s with
      table := { s.table with
        bindings := (topBinding? line).elim s.table.bindings s.table.bindings.insert
        variableTypes := (topConstruction? line).elim s.table.variableTypes
          fun p => s.table.variableTypes.insert p.1 p.2
        properties := (s.collecting line).elim s.table.properties
          fun o => (objectKeys line).foldl (addMember · o.name) s.table.properties }
      openObject := (s.collecting line).filter fun o =>
        !closes o line (indentLevel line) (objectStart? line).isSome } := by
  unfold readStatement topBinding? topConstruction?
  by_cases h : indentLevel line = 0
  · simp only [if_pos h, bindConstruction_eq, openLiteral_eq, collectKeys_eq, bindVariable_eq]
    rfl
  · simp only [if_neg h, openLiteral_eq, collectKeys_eq]
    rfl

def owner? (s : Extractor) (line : List Char) : Option String :=
  (leave (indentLevel line) s.scopes).head?.map Frame.name

theorem leave_eq_nil {s : Extractor} {line : List Char} (h : s.owner? line = none) :
    leave (indentLevel line) s.scopes = [] := by
  simpa [owner?] using h

theorem leave_eq_cons {s : Extractor} {line : List Char} {owner : String} (h : s.owner? line = some owner) :
    ∃ f rest, leave (indentLevel line) s.scopes = f :: rest ∧ f.name = owner := by
  obtain ⟨f, hf, hn⟩ := Option.map_eq_some_iff.mp h
  obtain ⟨rest, hr⟩ := List.head?_eq_some_iff.mp hf
  exact ⟨f, rest, hr, hn⟩

theorem readCode_cases (s : Extractor) (line : List Char) :
    (∃ name, className? line = some name ∧ functionName? line = none ∧
      s.readCode line = { s with
        table := { s.table with
          functions := s.table.functions.erase name
          classes := s.table.classes.insert name }
        scopes := ⟨name, indentLevel line⟩ :: leave (indentLevel line) s.scopes }) ∨
    (∃ name, className? line = none ∧ functionName? line = some name ∧ s.owner? line = none ∧
      s.readCode line = { s with
        table := { s.table with
          classes := s.table.classes.erase name
          functions := s.table.functions.insert name }
        scopes := leave (indentLevel line) s.scopes }) ∨
    (∃ name owner, className? line = none ∧ functionName? line = some name ∧ s.owner? line = some owner ∧
      s.readCode line = { s with
        table := { s.table with methods := addMember s.table.methods owner name }
        scopes := leave (indentLevel line) s.scopes }) ∨
    (isStatement line = true ∧ s.readCode line =
      { s with scopes := leave (indentLevel line) s.scopes }.readStatement line (indentLevel line)) := by
  cases hc : className? line with
  | some name =>
    refine .inl ⟨name, rfl, functionName?_eq_none_of_className? hc, ?_⟩
    simp only [readCode, hc, declareClass]
  | none =>
    cases hf : functionName? line with
    | none =>
      refine .inr (.inr (.inr ⟨isStatement_iff.mpr ⟨hc, hf⟩, ?_⟩))
      simp only [readCode, hc, hf]
    | some name =>
      cases ho : s.owner? line with
      | none =>
        refine .inr (.inl ⟨name, rfl, rfl, rfl, ?_⟩)
        simp only [readCode, hc, hf, declareFunction, leave_eq_nil ho]
      | some owner =>
        obtain ⟨f, rest, hl, rfl⟩ := leave_eq_cons ho
        refine .inr (.inr (.inl ⟨name, f.name, rfl, rfl, rfl, ?_⟩))
        simp only [readCode, hc, hf, declareFunction, hl]

theorem scopes_readCode (s : Extractor) (line : List Char) :
    (s.readCode line).scopes = ((className? line).map (⟨·, indentLevel line⟩)).toList ++
      leave (indentLevel line) s.scopes := by
  rcases readCode_cases s line with
    ⟨name, hc, -, he⟩ | ⟨name, hc, -, -, he⟩ | ⟨name, owner, hc, -, -, he⟩ | ⟨hs, he⟩
  · rw [he, hc]
    rfl
  · rw [he, hc]
    rfl
  · rw [he, hc]
    rfl
  · rw [he, readStatement_eq, (isStatement_iff.mp hs).1]
    rfl

theorem mem_functions_readCode {s : Extractor} {line : List Char} {f : String} :
    f ∈ (s.readCode line).table.functions ↔
      (f ∈ s.table.functions ∧ className? line ≠ some f) ∨ (functionName? line = some f ∧ s.owner? line = none) := by
  rcases readCode_cases s line with
    ⟨name, hc, hf, he⟩ | ⟨name, hc, hf, ho, he⟩ | ⟨name, owner, hc, hf, ho, he⟩ | ⟨hs, he⟩
  · simp [he, hc, hf, and_comm, eq_comm]
  · simp [he, hc, hf, ho, or_comm, eq_comm]
  · simp [he, hc, ho]
  · obtain ⟨hc, hf⟩ := isStatement_iff.mp hs
    simp [he, hc, hf, readStatement_eq]

theorem mem_classes_readCode {s : Extractor} {line : List Char} {c : String} :
    c ∈ (s.readCode line).table.classes ↔
      className? line = some c ∨ (c ∈ s.table.classes ∧ ¬ (functionName? line = some c ∧ s.owner? line = none)) := by
  rcases readCode_cases s line with
    ⟨name, hc, hf, he⟩ | ⟨name, hc, hf, ho, he⟩ | ⟨name, owner, hc, hf, ho, he⟩ | ⟨hs, he⟩
  · simp [he, hc, hf, eq_comm]
  · simp [he, hc, hf, ho, and_comm, eq_comm]
  · simp [he, hc, ho]
  · obtain ⟨hc, hf⟩ := isStatement_iff.mp hs
    simp [he, hc, hf, readStatement_eq]

def method? (s : Extractor) (line : List Char) : Option (String × String) :=
  (s.owner? line).bind fun owner => (functionName? line).map (owner, ·)

theorem method?_eq_some {s : Extractor} {line : List Char} {owner name : String} :
    s.method? line = some (owner, name) ↔ functionName? line = some name ∧ s.owner? line = some owner := by
  unfold method?
  cases s.owner? line <;> cases functionName? line <;> simp [and_comm]

theorem methods_readCode (s : Extractor) (line : List Char) :
    (s.readCode line).table.methods = (s.method? line).elim s.table.methods
      fun p => addMember s.table.methods p.1 p.2 := by
  rcases readCode_cases s line with
    ⟨name, -, hf, he⟩ | ⟨name, -, -, ho, he⟩ | ⟨name, owner, -, hf, ho, he⟩ | ⟨hs, he⟩
  · simp [he, method?, hf]
  · simp [he, method?, ho]
  · simp [he, method?, hf, ho]
  · simp [he, method?, (isStatement_iff.mp hs).2, readStatement_eq]

theorem hasMember_methods_readCode {s : Extractor} {line : List Char} {c m : String} :
    HasMember (s.readCode line).table.methods c m ↔
      HasMember s.table.methods c m ∨ (functionName? line = some m ∧ s.owner? line = some c) := by
  rw [methods_readCode, ← method?_eq_some]
  cases s.method? line with
  | none => simp
  | some p =>
    obtain ⟨owner, name⟩ := p
    simp [hasMember_addMember, or_comm, eq_comm]

theorem mem_bindings_readCode {s : Extractor} {line : List Char} {v : String} :
    v ∈ (s.readCode line).table.bindings ↔
      v ∈ s.table.bindings ∨ (isStatement line = true ∧ topBinding? line = some v) := by
  rcases readCode_cases s line with
    ⟨name, hc, -, he⟩ | ⟨name, -, hf, -, he⟩ | ⟨name, owner, -, hf, -, he⟩ | ⟨hs, he⟩
  · simp [he, isStatement, hc]
  · simp [he, isStatement, hf]
  · simp [he, isStatement, hf]
  · cases hb : topBinding? line <;> simp [he, hs, hb, readStatement_eq, or_comm, eq_comm]

theorem topConstruction?_of_not_statement {line : List Char} (h : ¬ isStatement line = true) :
    topConstruction? line = none := by
  have hb : binding? line = none := by
    cases hc : className? line with
    | some name => exact binding?_eq_none_of_className? hc
    | none =>
      cases hf : functionName? line with
      | some name => exact binding?_eq_none_of_functionName? hf
      | none => exact absurd (isStatement_iff.mpr ⟨hc, hf⟩) h
  simp [topConstruction?, construction?_eq_none_of_binding? hb]

theorem variableTypes_readCode (s : Extractor) (line : List Char) :
    (s.readCode line).table.variableTypes = (topConstruction? line).elim s.table.variableTypes
      fun p => s.table.variableTypes.insert p.1 p.2 := by
  rcases readCode_cases s line with
    ⟨name, hc, -, he⟩ | ⟨name, -, hf, -, he⟩ | ⟨name, owner, -, hf, -, he⟩ | ⟨hs, he⟩
  · rw [he, topConstruction?_of_not_statement (by simp [isStatement, hc])]
    rfl
  · rw [he, topConstruction?_of_not_statement (by simp [isStatement, hf])]
    rfl
  · rw [he, topConstruction?_of_not_statement (by simp [isStatement, hf])]
    rfl
  · rw [he, readStatement_eq]

theorem properties_readCode (s : Extractor) (line : List Char) :
    (s.readCode line).table.properties =
      if isStatement line then (s.collecting line).elim s.table.properties
        fun o => (objectKeys line).foldl (addMember · o.name) s.table.properties
      else s.table.properties := by
  rcases readCode_cases s line with
    ⟨name, hc, -, he⟩ | ⟨name, -, hf, -, he⟩ | ⟨name, owner, -, hf, -, he⟩ | ⟨hs, he⟩
  · simp [he, isStatement, hc]
  · simp [he, isStatement, hf]
  · simp [he, isStatement, hf]
  · rw [he, readStatement_eq, if_pos hs]
    rfl

theorem openObject_readCode (s : Extractor) (line : List Char) :
    (s.readCode line).openObject =
      if isStatement line then (s.collecting line).filter fun o =>
        !closes o line (indentLevel line) (objectStart? line).isSome
      else s.openObject := by
  rcases readCode_cases s line with
    ⟨name, hc, -, he⟩ | ⟨name, -, hf, -, he⟩ | ⟨name, owner, -, hf, -, he⟩ | ⟨hs, he⟩
  · simp [he, isStatement, hc]
  · simp [he, isStatement, hf]
  · simp [he, isStatement, hf]
  · rw [he, readStatement_eq, if_pos hs]
    rfl

def setComment (s : Extractor) (inComment : Bool) : Extractor := { s with inComment }

theorem readCode_setComment (s : Extractor) (b : Bool) (line : List Char) :
    (s.setComment b).readCode line = (s.readCode line).setComment b := by
  unfold readCode declareClass declareFunction
  simp only [readStatement_eq]
  dsimp only [setComment]
  cases className? line with
  | some name => rfl
  | none =>
    cases functionName? line with
    | none => rfl
    | some name => cases leave (indentLevel line) s.scopes <;> rfl

theorem foldl_readCode_setComment (s : Extractor) (b : Bool) (ls : List (List Char)) :
    ls.foldl readCode (s.setComment b) = (ls.foldl readCode s).setComment b := by
  induction ls generalizing s with
  | nil => rfl
  | cons line ls ih => rw [List.foldl_cons, readCode_setComment, ih, List.foldl_cons]

theorem readLine_eq (s : Extractor) (line : List Char) :
    s.readLine line = ((([(stripComments s.inComment line).1]).filter fun l => !isBlankLine l).foldl readCode s).setComment
      (stripComments s.inComment line).2 := by
  unfold readLine
  cases h : isBlankLine (stripComments s.inComment line).1 with
  | true =>
    simp only [h, if_true, List.filter_cons, List.filter_nil, Bool.not_true, Bool.false_eq_true, if_false]
    rfl
  | false =>
    simp only [h, Bool.false_eq_true, if_false, List.filter_cons, List.filter_nil, Bool.not_false, if_true,
      List.foldl_cons, List.foldl_nil]
    exact readCode_setComment s _ _

theorem foldl_readLine (s : Extractor) (lines : List (List Char)) :
    lines.foldl readLine s =
      (((codeLines s.inComment lines).filter fun line => !isBlankLine line).foldl readCode s).setComment
        (commentAfter s.inComment lines) := by
  induction lines generalizing s with
  | nil => rfl
  | cons line lines ih =>
    rw [List.foldl_cons, ih, readLine_eq, foldl_readCode_setComment, codeLines, ← List.foldl_append,
      ← List.filter_append]
    rfl

theorem read_eq (s : Extractor) (text : List Char) :
    s.read text = ((contentLines s.inComment text).foldl readCode s).setComment
      (commentAfter s.inComment (sourceLines text)) :=
  foldl_readLine s (sourceLines text)

def afterLines (ls : List (List Char)) : Extractor := ls.foldl readCode {}

@[simp] theorem afterLines_nil : afterLines [] = {} := rfl

theorem afterLines_snoc (ls : List (List Char)) (line : List Char) :
    afterLines (ls ++ [line]) = (afterLines ls).readCode line := by
  simp [afterLines]

end Extractor

theorem ofText_eq (text : String) :
    SymbolTable.ofText text = (Extractor.afterLines (contentLines false text.toList)).table := by
  rw [SymbolTable.ofText, Extractor.read_eq]
  rfl

end AbleIndex
