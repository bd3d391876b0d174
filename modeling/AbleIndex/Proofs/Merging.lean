import AbleIndex.Proofs.Members

namespace AbleIndex

namespace SortedSet

variable {κ : Type} [LT κ] [DecidableEq κ] [DecidableLT κ] [KeyOrder κ]

theorem union_comm (s t : SortedSet κ) : s.union t = t.union s := by
  apply ext_mem
  intro k
  rw [mem_union, mem_union, or_comm]

theorem union_assoc (s t u : SortedSet κ) : (s.union t).union u = s.union (t.union u) := by
  apply ext_mem
  intro k
  simp only [mem_union, or_assoc]

theorem union_self (s : SortedSet κ) : s.union s = s := by
  apply ext_mem
  intro k
  rw [mem_union, or_self]

theorem empty_union (s : SortedSet κ) : (∅ : SortedSet κ).union s = s := by
  apply ext_mem
  intro k
  simp

instance : Std.Commutative (union : SortedSet κ → SortedSet κ → SortedSet κ) := ⟨union_comm⟩

instance : Std.Associative (union : SortedSet κ → SortedSet κ → SortedSet κ) := ⟨union_assoc⟩

instance : Std.IdempotentOp (union : SortedSet κ → SortedSet κ → SortedSet κ) := ⟨union_self⟩

end SortedSet

section Members

variable {m : NameMap NameSet} {key other : String}

theorem find?_addMembers (names : NameSet) :
    (addMembers m key names).find? other =
      if other = key then (m.find? key).merge SortedSet.union (some names) else m.find? other := by
  unfold addMembers
  rw [m.find?_alter key other]
  cases m.find? key with
  | none => simp [SortedSet.empty_union]
  | some s => simp

theorem find?_foldl_addMembers {es : List (String × NameSet)} (hes : (es.map Prod.fst).Pairwise (· < ·)) :
    (es.foldl (fun m e => addMembers m e.1 e.2) m).find? other =
      (m.find? other).merge SortedSet.union (es.lookup other) := by
  induction es generalizing m with
  | nil => rw [List.foldl_nil, List.lookup_nil, Option.merge_none_right]
  | cons e es ih =>
    obtain ⟨he, hes⟩ := List.pairwise_cons.mp hes
    rw [List.foldl_cons, ih hes, find?_addMembers, SortedMap.lookup_cons_if]
    by_cases h : other = e.1
    · -- no later entry has the key of this one
      rw [if_pos h, if_pos h, h, SortedMap.lookup_eq_none he, Option.merge_none_right]
    · rw [if_neg h, if_neg h]

end Members

namespace SymbolTable

attribute [ext] SymbolTable

variable {a b c : SymbolTable}

theorem find?_methods_merge (a b : SymbolTable) (owner : String) :
    (a.merge b).methods.find? owner = (a.methods.find? owner).merge SortedSet.union (b.methods.find? owner) :=
  find?_foldl_addMembers b.methods.sorted

structure SameNames (a b : SymbolTable) : Prop where
  functions : a.functions = b.functions
  classes : a.classes = b.classes
  bindings : a.bindings = b.bindings
  methods : a.methods = b.methods

theorem merge_comm (a b : SymbolTable) : SameNames (a.merge b) (b.merge a) where
  functions := SortedSet.union_comm a.functions b.functions
  classes := SortedSet.union_comm a.classes b.classes
  bindings := SortedSet.union_comm a.bindings b.bindings
  methods := by
    apply SortedMap.ext_find?
    intro owner
    rw [find?_methods_merge, find?_methods_merge]
    exact Std.Commutative.comm _ _

theorem merge_assoc (a b c : SymbolTable) : (a.merge b).merge c = a.merge (b.merge c) := by
  ext1
  case methods =>
    apply SortedMap.ext_find?
    intro owner
    simp only [find?_methods_merge]
    exact Std.Associative.assoc _ _ _
  case functions => exact SortedSet.union_assoc _ _ _
  case classes => exact SortedSet.union_assoc _ _ _
  case bindings => exact SortedSet.union_assoc _ _ _
  case variableTypes => rfl
  case properties => rfl

theorem merge_self (a : SymbolTable) : a.merge a = a := by
  ext1
  case methods =>
    apply SortedMap.ext_find?
    intro owner
    rw [find?_methods_merge]
    exact Std.IdempotentOp.idempotent _
  case functions => exact SortedSet.union_self _
  case classes => exact SortedSet.union_self _
  case bindings => exact SortedSet.union_self _
  case variableTypes => rfl
  case properties => rfl

theorem SameNames.merge_eq (h : SameNames b c) (a : SymbolTable) : a.merge b = a.merge c := by
  unfold merge
  rw [h.functions, h.classes, h.bindings, h.methods]

theorem merge_right_comm (a b c : SymbolTable) : (a.merge b).merge c = (a.merge c).merge b := by
  rw [merge_assoc, merge_assoc, (merge_comm b c).merge_eq]

end SymbolTable

end AbleIndex
