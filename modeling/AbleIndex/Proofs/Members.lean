import AbleIndex.Symbols.Table

namespace AbleIndex

def HasMember (m : NameMap NameSet) (key name : String) : Prop :=
  ∃ names, m.find? key = some names ∧ name ∈ names

def NoEmptySet (m : NameMap NameSet) : Prop :=
  ∀ key names, m.find? key = some names → ∃ name, name ∈ names

variable {m : NameMap NameSet} {key other name member : String}

theorem not_hasMember_empty : ¬ HasMember ∅ key name := by
  rintro ⟨names, h, -⟩
  cases h

theorem noEmptySet_empty : NoEmptySet ∅ := by
  intro key names h
  cases h

theorem find?_addMember :
    (addMember m key name).find? other =
      if other = key then some (((m.find? key).getD ∅).insert name) else m.find? other :=
  m.find?_alter key other _

theorem hasMember_addMember :
    HasMember (addMember m key name) other member ↔ (other = key ∧ member = name) ∨ HasMember m other member := by
  unfold HasMember
  rw [find?_addMember]
  by_cases h : other = key
  · subst h
    cases hf : m.find? other <;> simp
  · simp [h]

theorem noEmptySet_addMember (h : NoEmptySet m) : NoEmptySet (addMember m key name) := by
  intro other names hf
  rw [find?_addMember] at hf
  split at hf
  · cases hf
    exact ⟨name, by simp⟩
  · exact h other names hf

theorem hasMember_foldl_addMember {names : List String} :
    HasMember (names.foldl (addMember · key) m) other member ↔
      (other = key ∧ member ∈ names) ∨ HasMember m other member := by
  induction names generalizing m with
  | nil => simp
  | cons name names ih =>
    rw [List.foldl_cons, ih, hasMember_addMember, List.mem_cons]
    grind

theorem noEmptySet_foldl_addMember {names : List String} (h : NoEmptySet m) :
    NoEmptySet (names.foldl (addMember · key) m) := by
  induction names generalizing m with
  | nil => exact h
  | cons name names ih => exact ih (noEmptySet_addMember h)

theorem contains_iff_hasMember (h : NoEmptySet m) : m.contains key = true ↔ ∃ name, HasMember m key name := by
  unfold SortedMap.contains
  rw [Option.isSome_iff_exists]
  constructor
  · rintro ⟨names, hf⟩
    obtain ⟨name, hn⟩ := h key names hf
    exact ⟨name, names, hf, hn⟩
  · rintro ⟨name, names, hf, -⟩
    exact ⟨names, hf⟩

end AbleIndex
