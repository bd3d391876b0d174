import AbleIndex.Sorted.Set

namespace AbleIndex

variable {κ α : Type} [LT κ]

@[ext]
structure SortedMap (κ α : Type) [LT κ] where
  toList : List (κ × α)
  sorted : (toList.map Prod.fst).Pairwise (· < ·)
  deriving DecidableEq

namespace SortedMap

def empty : SortedMap κ α := ⟨[], sorted_nil⟩

instance : EmptyCollection (SortedMap κ α) := ⟨empty⟩

instance : Inhabited (SortedMap κ α) := ⟨empty⟩

def size (m : SortedMap κ α) : Nat := m.toList.length

def values (m : SortedMap κ α) : List α := m.toList.map Prod.snd

def keys (m : SortedMap κ α) : List κ := m.toList.map Prod.fst

variable [DecidableEq κ]

def find? (m : SortedMap κ α) (k : κ) : Option α := m.toList.lookup k

def contains (m : SortedMap κ α) (k : κ) : Bool := (m.find? k).isSome

def filterKeys (m : SortedMap κ α) (p : κ → Bool) : SortedMap κ α :=
  ⟨m.toList.filter (fun e => p e.1), m.sorted.sublist (List.filter_sublist.map _)⟩

omit [LT κ] in
theorem lookup_cons_if (e : κ × α) (es : List (κ × α)) (j : κ) :
    (e :: es).lookup j = if j = e.1 then some e.2 else es.lookup j := by
  rw [List.lookup_cons]
  by_cases h : j = e.1 <;> simp [h, beq_eq_false_iff_ne.2]

omit [LT κ] in
theorem lookup_filter (p : κ → Bool) (es : List (κ × α)) (k : κ) :
    (es.filter fun e => p e.1).lookup k = if p k then es.lookup k else none := by
  induction es with
  | nil => simp
  | cons e es ih =>
    rw [lookup_cons_if, List.filter_cons]
    by_cases hp : p e.1 = true
    · rw [if_pos hp, lookup_cons_if, ih]
      by_cases hk : k = e.1 <;> simp [hk, hp]
    · rw [if_neg hp, ih]
      by_cases hk : k = e.1 <;> simp [hk, hp]

theorem find?_filterKeys (m : SortedMap κ α) (p : κ → Bool) (k : κ) :
    (m.filterKeys p).find? k = if p k then m.find? k else none :=
  lookup_filter p m.toList k

theorem lookup_eq_none [KeyOrder κ] {k : κ} {es : List (κ × α)}
    (h : ∀ j ∈ es.map Prod.fst, k < j) : es.lookup k = none := by
  rw [List.lookup_eq_none_iff]
  intro e he
  have := h e.1 (List.mem_map_of_mem he)
  rw [bne_iff_ne]
  rintro rfl
  exact KeyOrder.irrefl _ this

theorem sorted_ext [KeyOrder κ] {es fs : List (κ × α)} (he : (es.map Prod.fst).Pairwise (· < ·))
    (hf : (fs.map Prod.fst).Pairwise (· < ·)) (h : ∀ k, es.lookup k = fs.lookup k) : es = fs := by
  induction es generalizing fs with
  | nil =>
    cases fs with
    | nil => rfl
    | cons f fs => simpa [lookup_cons_if] using h f.1
  | cons e es ih =>
    cases fs with
    | nil => simpa [lookup_cons_if] using h e.1
    | cons f fs =>
      have he' := List.pairwise_cons.1 he
      have hf' := List.pairwise_cons.1 hf
      have hk : e.1 = f.1 := by
        rcases KeyOrder.total e.1 f.1 with hlt | heq | hlt
        · have hn : (f :: fs).lookup e.1 = none := lookup_eq_none fun j hj => by
            rcases List.mem_cons.1 hj with rfl | hj
            · exact hlt
            · exact KeyOrder.trans hlt (hf'.1 j hj)
          simpa [lookup_cons_if, hn] using h e.1
        · exact heq
        · have hn : (e :: es).lookup f.1 = none := lookup_eq_none fun j hj => by
            rcases List.mem_cons.1 hj with rfl | hj
            · exact hlt
            · exact KeyOrder.trans hlt (he'.1 j hj)
          simpa [lookup_cons_if, hn] using h f.1
      have hv : e.2 = f.2 := by simpa [lookup_cons_if, hk] using h e.1
      have ht : es = fs := ih he'.2 hf'.2 fun k => by
        by_cases hkk : k = e.1
        · rw [hkk, lookup_eq_none he'.1, hk, lookup_eq_none hf'.1]
        · simpa [lookup_cons_if, hkk, hk ▸ hkk] using h k
      rw [Prod.ext hk hv, ht]

theorem ext_find? [KeyOrder κ] {m n : SortedMap κ α} (h : ∀ k, m.find? k = n.find? k) : m = n :=
  SortedMap.ext (sorted_ext m.sorted n.sorted h)

variable [DecidableLT κ]

def place (k : κ) (f : Option α → α) : List (κ × α) → List (κ × α)
  | [] => [(k, f none)]
  | e :: es =>
    if k < e.1 then (k, f none) :: e :: es
    else if k = e.1 then (k, f (some e.2)) :: es
    else e :: place k f es

theorem mem_keys_place {k j : κ} {f : Option α → α} {es : List (κ × α)} :
    j ∈ (place k f es).map Prod.fst ↔ j = k ∨ j ∈ es.map Prod.fst := by
  induction es with
  | nil => simp [place]
  | cons e es ih =>
    rw [place]
    split
    · simp
    · split
      · simp_all
      · simp only [List.map_cons, List.mem_cons, ih]
        grind

variable [KeyOrder κ]

theorem sorted_place (k : κ) (f : Option α → α) {es : List (κ × α)}
    (h : (es.map Prod.fst).Pairwise (· < ·)) : ((place k f es).map Prod.fst).Pairwise (· < ·) := by
  induction es with
  | nil => simp [place]
  | cons e es ih =>
    have he := List.pairwise_cons.1 h
    rw [place]
    split
    · refine List.pairwise_cons.2 ⟨?_, h⟩
      intro y hy
      rcases List.mem_cons.1 hy with rfl | hy
      · assumption
      · exact KeyOrder.trans (by assumption) (he.1 y hy)
    · split
      · rename_i hk
        rw [List.map_cons, hk]
        exact h
      · refine List.pairwise_cons.2 ⟨?_, ih he.2⟩
        intro y hy
        rcases mem_keys_place.1 hy with rfl | hy
        · exact KeyOrder.lt_of_not_lt (by assumption) (by assumption)
        · exact he.1 y hy

def alter (m : SortedMap κ α) (k : κ) (f : Option α → α) : SortedMap κ α :=
  ⟨place k f m.toList, sorted_place k f m.sorted⟩

def insert (m : SortedMap κ α) (k : κ) (a : α) : SortedMap κ α := m.alter k fun _ => a

theorem lookup_place {k j : κ} {f : Option α → α} {es : List (κ × α)}
    (h : (es.map Prod.fst).Pairwise (· < ·)) :
    (place k f es).lookup j = if j = k then some (f (es.lookup k)) else es.lookup j := by
  induction es with
  | nil => simp [place, lookup_cons_if]
  | cons e es ih =>
    have he := List.pairwise_cons.1 h
    rw [place]
    split
    · rename_i hk
      have hn : (e :: es).lookup k = none := lookup_eq_none fun i hi => by
        rcases List.mem_cons.1 hi with rfl | hi
        · exact hk
        · exact KeyOrder.trans hk (he.1 i hi)
      rw [lookup_cons_if, hn]
    · split
      · rename_i hk
        simp only [lookup_cons_if, hk, if_true]
        split <;> rfl
      · rename_i hk
        simp only [lookup_cons_if, ih he.2, if_neg hk]
        by_cases hj : j = k
        · subst hj
          simp [hk]
        · simp [hj]

theorem find?_alter (m : SortedMap κ α) (k j : κ) (f : Option α → α) :
    (m.alter k f).find? j = if j = k then some (f (m.find? k)) else m.find? j :=
  lookup_place m.sorted

@[simp] theorem find?_insert (m : SortedMap κ α) (k j : κ) (a : α) :
    (m.insert k a).find? j = if j = k then some a else m.find? j :=
  m.find?_alter k j _

end SortedMap

end AbleIndex
