import AbleIndex.Sorted.Map
import Mathlib.Data.List.Induction

namespace AbleIndex

variable {α β κ : Type}

def readAt (reader : β → Option α) (xs : List β) (i : Nat) : Option α := xs[i]?.bind reader

section Positions

variable {reader : β → Option α} {xs : List β} {x : β} {i : Nat} {a : α}

theorem lt_length_of_readAt (h : readAt reader xs i = some a) : i < xs.length := by
  obtain ⟨y, hy, -⟩ := Option.bind_eq_some_iff.mp h
  exact (List.getElem?_eq_some_iff.mp hy).1

theorem readAt_append_left (h : i < xs.length) (ys : List β) : readAt reader (xs ++ ys) i = readAt reader xs i := by
  rw [readAt, List.getElem?_append_left h, readAt]

@[simp] theorem readAt_snoc_length : readAt reader (xs ++ [x]) xs.length = reader x := by
  simp [readAt]

end Positions

structure IsEvent (E : List β → Nat → Prop) : Prop where
  lt_length : ∀ {xs i}, E xs i → i < xs.length
  append_left : ∀ {xs i}, i < xs.length → ∀ ys, E (xs ++ ys) i ↔ E xs i

theorem isEvent_readAt (reader : β → Option α) (a : α) : IsEvent fun xs i => readAt reader xs i = some a where
  lt_length := lt_length_of_readAt
  append_left hi ys := by rw [readAt_append_left hi]

theorem IsEvent.snoc {E : List β → Nat → Prop} (h : IsEvent E) {xs : List β} {x : β} {i : Nat} :
    E (xs ++ [x]) i ↔ (i < xs.length ∧ E xs i) ∨ (i = xs.length ∧ E (xs ++ [x]) xs.length) := by
  constructor
  · intro he
    have hi := h.lt_length he
    rw [List.length_append, List.length_singleton] at hi
    by_cases hlt : i < xs.length
    · exact .inl ⟨hlt, (h.append_left hlt [x]).mp he⟩
    · obtain rfl : i = xs.length := by omega
      exact .inr ⟨rfl, he⟩
  · rintro (⟨hlt, he⟩ | ⟨rfl, he⟩)
    · exact (h.append_left hlt [x]).mpr he
    · exact he

theorem readAt_snoc_eq_some {reader : β → Option α} {xs : List β} {x : β} {i : Nat} {a : α} :
    readAt reader (xs ++ [x]) i = some a ↔
      (i < xs.length ∧ readAt reader xs i = some a) ∨ (i = xs.length ∧ reader x = some a) := by
  rw [(isEvent_readAt reader a).snoc, readAt_snoc_length]

/-- What each step brings about or takes back holds in the end if it was brought about at some position and
not taken back later. -/
theorem survives {P : List β → Prop} {born kill : List β → Nat → Prop} (hborn : IsEvent born)
    (hkill : IsEvent kill) (hnil : ¬ P [])
    (hstep : ∀ xs x, P (xs ++ [x]) ↔
      born (xs ++ [x]) xs.length ∨ (P xs ∧ ¬ kill (xs ++ [x]) xs.length)) (xs : List β) :
    P xs ↔ ∃ i, born xs i ∧ ∀ j, i < j → ¬ kill xs j := by
  induction xs using List.reverseRecOn with
  | nil =>
    refine iff_of_false hnil ?_
    rintro ⟨i, hi, -⟩
    exact absurd (hborn.lt_length hi) (Nat.not_lt_zero i)
  | append_singleton xs x ih =>
    rw [hstep, ih]
    constructor
    · rintro (hb | ⟨⟨i, hi, hlater⟩, hlast⟩)
      · refine ⟨xs.length, hb, ?_⟩
        intro j hj hk
        rcases hkill.snoc.mp hk with ⟨hlt, -⟩ | ⟨he, -⟩ <;> omega
      · refine ⟨i, hborn.snoc.mpr (.inl ⟨hborn.lt_length hi, hi⟩), ?_⟩
        intro j hij hk
        rcases hkill.snoc.mp hk with ⟨-, hk⟩ | ⟨-, hk⟩
        · exact hlater j hij hk
        · exact hlast hk
    · rintro ⟨i, hi, hlater⟩
      rcases hborn.snoc.mp hi with ⟨hlt, hb⟩ | ⟨-, hb⟩
      · refine .inr ⟨⟨i, hb, ?_⟩, hlater xs.length hlt⟩
        intro j hij hk
        exact hlater j hij (hkill.snoc.mpr (.inl ⟨hkill.lt_length hk, hk⟩))
      · exact .inl hb

theorem occurs {P : List β → Prop} {born : List β → Nat → Prop} (hborn : IsEvent born) (hnil : ¬ P [])
    (hstep : ∀ xs x, P (xs ++ [x]) ↔ born (xs ++ [x]) xs.length ∨ P xs) (xs : List β) :
    P xs ↔ ∃ i, born xs i := by
  have hnever : IsEvent fun (_ : List β) _ => False := ⟨False.elim, fun _ _ => Iff.rfl⟩
  rw [survives hborn hnever hnil (by simpa using hstep)]
  simp

def IsLastWrite (reader : β → Option (κ × α)) (xs : List β) (k : κ) (a : α) : Prop :=
  ∃ before x after, xs = before ++ x :: after ∧ reader x = some (k, a) ∧
    ∀ y ∈ after, ∀ b, reader y ≠ some (k, b)

theorem isLastWrite_snoc {reader : β → Option (κ × α)} {xs : List β} {x : β} {k : κ} {a : α} :
    IsLastWrite reader (xs ++ [x]) k a ↔
      reader x = some (k, a) ∨ (IsLastWrite reader xs k a ∧ ∀ b, reader x ≠ some (k, b)) := by
  constructor
  · rintro ⟨before, y, after, he, hy, hlast⟩
    rcases List.eq_nil_or_concat after with rfl | ⟨after, z, rfl⟩
    · obtain ⟨-, hx⟩ := List.append_inj' he rfl
      cases hx
      exact .inl hy
    · rw [List.concat_eq_append, ← List.cons_append, ← List.append_assoc] at he
      obtain ⟨hxs, hx⟩ := List.append_inj' he rfl
      cases hx
      refine .inr ⟨⟨before, y, after, hxs, hy, ?_⟩, ?_⟩
      · intro z hz
        exact hlast z (by simp [hz])
      · exact hlast x (by simp)
  · rintro (hx | ⟨⟨before, y, after, rfl, hy, hlast⟩, hno⟩)
    · exact ⟨xs, x, [], rfl, hx, by simp⟩
    · refine ⟨before, y, after ++ [x], by simp, hy, ?_⟩
      intro z hz
      rcases List.mem_append.mp hz with hz | hz
      · exact hlast z hz
      · rw [List.mem_singleton.mp hz]
        exact hno

variable [LT κ] [DecidableEq κ] [DecidableLT κ] [KeyOrder κ]

def SortedMap.write (reader : β → Option (κ × α)) (m : SortedMap κ α) (x : β) : SortedMap κ α :=
  (reader x).elim m fun p => m.insert p.1 p.2

theorem SortedMap.find?_write_of_none {reader : β → Option (κ × α)} {m : SortedMap κ α} {x : β} {k : κ}
    (h : ∀ b, reader x ≠ some (k, b)) : (m.write reader x).find? k = m.find? k := by
  unfold write
  cases hx : reader x with
  | none => rfl
  | some p =>
    obtain ⟨j, b⟩ := p
    have hk : k ≠ j := by
      rintro rfl
      exact h b hx
    simp [hk]

theorem SortedMap.find?_write_of_some {reader : β → Option (κ × α)} {m : SortedMap κ α} {x : β} {k : κ} {a : α}
    (h : reader x = some (k, a)) : (m.write reader x).find? k = some a := by
  simp [write, h]

theorem find?_foldl_write {reader : β → Option (κ × α)} {xs : List β} {k : κ} {a : α} :
    (xs.foldl (SortedMap.write reader) ∅).find? k = some a ↔ IsLastWrite reader xs k a := by
  induction xs using List.reverseRecOn with
  | nil =>
    constructor
    · intro h
      cases h
    · rintro ⟨before, x, after, he, -⟩
      simp at he
  | append_singleton xs x ih =>
    rw [List.foldl_append, List.foldl_cons, List.foldl_nil, isLastWrite_snoc]
    by_cases h : ∃ b, reader x = some (k, b)
    · obtain ⟨b, hb⟩ := h
      simp [SortedMap.find?_write_of_some hb, hb]
    · simp only [not_exists] at h
      rw [SortedMap.find?_write_of_none h, ih]
      simp [h]

theorem find?_foldl_write_eq_none {reader : β → Option (κ × α)} {xs : List β} {k : κ} :
    (xs.foldl (SortedMap.write reader) ∅).find? k = none ↔ ∀ x ∈ xs, ∀ a, reader x ≠ some (k, a) := by
  induction xs using List.reverseRecOn with
  | nil => exact iff_of_true rfl (by simp)
  | append_singleton xs x ih =>
    rw [List.foldl_append, List.foldl_cons, List.foldl_nil, List.forall_mem_append, List.forall_mem_singleton]
    by_cases h : ∃ b, reader x = some (k, b)
    · obtain ⟨b, hb⟩ := h
      rw [SortedMap.find?_write_of_some hb]
      exact iff_of_false (by simp) fun hno => hno.2 b hb
    · simp only [not_exists] at h
      rw [SortedMap.find?_write_of_none h, ih, and_iff_left h]

end AbleIndex
