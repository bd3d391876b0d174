/-!
Finite sets over a linear order, kept as strictly increasing lists. A set has one representation,
so two sets with the same members are equal.
-/

namespace AbleIndex

variable {κ : Type} [LT κ]

class KeyOrder (κ : Type) [LT κ] : Prop where
  trans : ∀ {a b c : κ}, a < b → b < c → a < c
  irrefl : ∀ a : κ, ¬ a < a
  total : ∀ a b : κ, a < b ∨ a = b ∨ b < a

theorem KeyOrder.lt_of_not_lt [KeyOrder κ] {a b : κ} (h : ¬ a < b) (hne : a ≠ b) : b < a := by
  rcases total a b with h' | h' | h'
  · exact absurd h' h
  · exact absurd h' hne
  · exact h'

instance : KeyOrder String := ⟨String.lt_trans, String.lt_irrefl, by grind⟩

instance : KeyOrder (List String) := ⟨List.lt_trans, List.lt_irrefl, by grind⟩

theorem sorted_nil : ([] : List κ).Pairwise (· < ·) := .nil

@[ext]
structure SortedSet (κ : Type) [LT κ] where
  toList : List κ
  sorted : toList.Pairwise (· < ·)
  deriving DecidableEq

namespace SortedSet

def empty : SortedSet κ := ⟨[], sorted_nil⟩

instance : EmptyCollection (SortedSet κ) := ⟨empty⟩

instance : Inhabited (SortedSet κ) := ⟨empty⟩

instance : Membership κ (SortedSet κ) := ⟨fun s k => k ∈ s.toList⟩

instance [DecidableEq κ] (k : κ) (s : SortedSet κ) : Decidable (k ∈ s) :=
  inferInstanceAs (Decidable (k ∈ s.toList))

def isEmpty (s : SortedSet κ) : Bool := s.toList.isEmpty

theorem mem_def {k : κ} {s : SortedSet κ} : k ∈ s ↔ k ∈ s.toList := Iff.rfl

@[simp] theorem not_mem_empty (k : κ) : k ∉ (∅ : SortedSet κ) := by
  intro h
  cases h

theorem nodup [KeyOrder κ] (s : SortedSet κ) : s.toList.Nodup := by
  refine s.sorted.imp ?_
  rintro a b h rfl
  exact KeyOrder.irrefl a h

theorem sorted_ext [KeyOrder κ] {xs ys : List κ} (hx : xs.Pairwise (· < ·)) (hy : ys.Pairwise (· < ·))
    (h : ∀ k, k ∈ xs ↔ k ∈ ys) : xs = ys := by
  induction xs generalizing ys with
  | nil =>
    cases ys with
    | nil => rfl
    | cons y ys => exact absurd ((h y).2 List.mem_cons_self) List.not_mem_nil
  | cons x xs ih =>
    cases ys with
    | nil => exact absurd ((h x).1 List.mem_cons_self) List.not_mem_nil
    | cons y ys =>
      have hx' := List.pairwise_cons.1 hx
      have hy' := List.pairwise_cons.1 hy
      have he : x = y := by
        rcases List.mem_cons.1 ((h x).1 List.mem_cons_self) with he | hm
        · exact he
        · rcases List.mem_cons.1 ((h y).2 List.mem_cons_self) with he | hm'
          · exact he.symm
          · exact absurd (KeyOrder.trans (hx'.1 y hm') (hy'.1 x hm)) (KeyOrder.irrefl x)
      subst he
      refine congrArg (x :: ·) (ih hx'.2 hy'.2 fun k => ?_)
      have hk := h k
      simp only [List.mem_cons] at hk
      constructor
      · intro hm
        rcases hk.1 (.inr hm) with rfl | hm'
        · exact absurd (hx'.1 k hm) (KeyOrder.irrefl k)
        · exact hm'
      · intro hm
        rcases hk.2 (.inr hm) with rfl | hm'
        · exact absurd (hy'.1 k hm) (KeyOrder.irrefl k)
        · exact hm'

theorem ext_mem [KeyOrder κ] {s t : SortedSet κ} (h : ∀ k, k ∈ s ↔ k ∈ t) : s = t :=
  SortedSet.ext (sorted_ext s.sorted t.sorted h)

variable [DecidableEq κ]

def erase (s : SortedSet κ) (k : κ) : SortedSet κ :=
  ⟨s.toList.erase k, s.sorted.sublist List.erase_sublist⟩

@[simp] theorem mem_erase [KeyOrder κ] {k j : κ} {s : SortedSet κ} : j ∈ s.erase k ↔ j ≠ k ∧ j ∈ s :=
  s.nodup.mem_erase_iff

variable [DecidableLT κ]

def place (k : κ) : List κ → List κ
  | [] => [k]
  | x :: xs => if k < x then k :: x :: xs else if k = x then x :: xs else x :: place k xs

theorem mem_place {k j : κ} {xs : List κ} : j ∈ place k xs ↔ j = k ∨ j ∈ xs := by
  induction xs with
  | nil => simp [place]
  | cons x xs ih =>
    rw [place]
    split
    · simp
    · split
      · simp_all
      · simp only [List.mem_cons, ih]
        grind

variable [KeyOrder κ]

theorem sorted_place (k : κ) {xs : List κ} (h : xs.Pairwise (· < ·)) :
    (place k xs).Pairwise (· < ·) := by
  induction xs with
  | nil => simp [place]
  | cons x xs ih =>
    have hx := List.pairwise_cons.1 h
    rw [place]
    split
    · refine List.pairwise_cons.2 ⟨?_, h⟩
      intro y hy
      rcases List.mem_cons.1 hy with rfl | hy
      · assumption
      · exact KeyOrder.trans (by assumption) (hx.1 y hy)
    · split
      · exact h
      · refine List.pairwise_cons.2 ⟨?_, ih hx.2⟩
        intro y hy
        rcases mem_place.1 hy with rfl | hy
        · exact KeyOrder.lt_of_not_lt (by assumption) (by assumption)
        · exact hx.1 y hy

def insert (s : SortedSet κ) (k : κ) : SortedSet κ := ⟨place k s.toList, sorted_place k s.sorted⟩

def union (s t : SortedSet κ) : SortedSet κ := t.toList.foldl insert s

def ofList (ks : List κ) : SortedSet κ := ks.foldl insert ∅

@[simp] theorem mem_insert {k j : κ} {s : SortedSet κ} : j ∈ s.insert k ↔ j = k ∨ j ∈ s :=
  mem_place

theorem mem_foldl_insert {j : κ} {ks : List κ} {s : SortedSet κ} :
    j ∈ ks.foldl insert s ↔ j ∈ ks ∨ j ∈ s := by
  induction ks generalizing s with
  | nil => simp
  | cons k ks ih =>
    rw [List.foldl_cons, ih, mem_insert, List.mem_cons]
    grind

@[simp] theorem mem_union {j : κ} {s t : SortedSet κ} : j ∈ s.union t ↔ j ∈ s ∨ j ∈ t :=
  mem_foldl_insert.trans Or.comm

@[simp] theorem mem_ofList {j : κ} {ks : List κ} : j ∈ ofList ks ↔ j ∈ ks := by
  simp [ofList, mem_foldl_insert]

end SortedSet

end AbleIndex
