import AbleIndex.Completion.Resolve
import AbleIndex.Proofs.Merging
import AbleIndex.Workspace.Scan
import Mathlib.Data.List.Nodup
import Mathlib.Data.String.Basic

/-!
The order in which modules are stored. A ledger keeps the entries of an index as they come, and answers from
them in that order, sorting names only where it shows them. Ledgers that hold the same entries complete
alike, and so does the index itself.
-/

namespace AbleIndex

theorem SortedMap.find?_of_mem {κ α : Type} [LT κ] [DecidableEq κ] [KeyOrder κ] (m : SortedMap κ α) {e : κ × α}
    (he : e ∈ m.toList) : m.find? e.1 = some e.2 := by
  obtain ⟨es, hes⟩ := m
  unfold find?
  dsimp only at he ⊢
  induction es with
  | nil => cases he
  | cons x es ih =>
    obtain ⟨hx, hes⟩ := List.pairwise_cons.mp hes
    rw [lookup_cons_if]
    rcases List.mem_cons.mp he with rfl | he
    · rw [if_pos rfl]
    · have hne : e.1 ≠ x.1 := by
        intro heq
        have hlt := hx e.1 (List.mem_map_of_mem he)
        rw [heq] at hlt
        exact KeyOrder.irrefl x.1 hlt
      rw [if_neg hne]
      exact ih hes he

structure Ledger where
  settings : Settings
  searchRoots : List Path
  entries : List ModuleEntry := []
  nodup : (entries.map ModuleEntry.name).Nodup := by decide

namespace Ledger

def put (e : ModuleEntry) : List ModuleEntry → List ModuleEntry
  | [] => [e]
  | x :: xs => if x.name = e.name then e :: xs else x :: put e xs

theorem mem_names_put {e : ModuleEntry} {xs : List ModuleEntry} {name : String} :
    name ∈ (put e xs).map ModuleEntry.name ↔ name = e.name ∨ name ∈ xs.map ModuleEntry.name := by
  induction xs with
  | nil => simp [put]
  | cons x xs ih =>
    rw [put]
    split
    · simp_all
    · rw [List.map_cons, List.mem_cons, ih, List.map_cons, List.mem_cons, or_left_comm]

theorem nodup_put (e : ModuleEntry) {xs : List ModuleEntry} (h : (xs.map ModuleEntry.name).Nodup) :
    ((put e xs).map ModuleEntry.name).Nodup := by
  induction xs with
  | nil => simp [put]
  | cons x xs ih =>
    rw [put]
    split
    · rename_i hx
      rwa [List.map_cons, ← hx]
    · rename_i hx
      obtain ⟨hnew, hxs⟩ := List.nodup_cons.mp h
      refine List.nodup_cons.mpr ⟨?_, ih hxs⟩
      rw [mem_names_put]
      exact not_or.mpr ⟨hx, hnew⟩

def store (l : Ledger) (e : ModuleEntry) : Ledger :=
  { l with entries := put e l.entries, nodup := nodup_put e l.nodup }

def find? (l : Ledger) (name : String) : Option ModuleEntry := l.entries.find? (·.name = name)

def mergedSymbols (l : Ledger) : SymbolTable := l.entries.foldl (fun t e => t.merge e.symbols) {}

def sortedNames (l : Ledger) : List String := (l.entries.map ModuleEntry.name).mergeSort (· ≤ ·)

def entryFor? (l : Ledger) (p : Path) : Option ModuleEntry :=
  ((moduleName? l.settings l.searchRoots p).filter (· ≠ "")).bind l.find?

def candidatesIn (l : Ledger) (file : Option Path) : Context → List Candidate
  | .member target =>
    match file.bind l.entryFor? with
    | none => []
    | some e => e.symbols.memberCandidates target
  | .decorator typed => Workspace.decoratorCandidates typed
  | .importModule typed =>
    Candidate.ofLabels .moduleName ((Catalog.modules ++ l.sortedNames).filter (startsWith typed))
  | .importFrom moduleName typed =>
    match l.find? moduleName with
    | none => []
    | some e => e.symbols.candidates.filter fun c => startsWith typed c.label
  | .general =>
    Candidate.ofLabels .keyword Catalog.keywords ++
      Candidate.ofLabels .typeName Catalog.types ++
      Candidate.ofLabels .function Catalog.functions ++
      l.mergedSymbols.candidates

def complete (l : Ledger) (line : String) (file : Option Path) : List Candidate :=
  let members := ((Context.member? line.toList).map (l.candidatesIn file)).getD []
  if members = [] then l.candidatesIn file (Context.place line.toList) else members

variable {l k : Ledger} {w : Workspace}

theorem find?_put (e : ModuleEntry) (xs : List ModuleEntry) (name : String) :
    (put e xs).find? (·.name = name) = if name = e.name then some e else xs.find? (·.name = name) := by
  induction xs with
  | nil =>
    by_cases h : name = e.name
    · simp [put, h]
    · simp [put, h, Ne.symm h]
  | cons x xs ih =>
    rw [put]
    by_cases hx : x.name = e.name
    · by_cases h : name = e.name
      · simp [hx, h]
      · simp [hx, h, Ne.symm h]
    · rw [if_neg hx, List.find?_cons, List.find?_cons, ih]
      by_cases h : name = e.name
      · simp [h, hx]
      · simp [h]

theorem find?_store (l : Ledger) (e : ModuleEntry) (name : String) :
    (l.store e).find? name = if name = e.name then some e else l.find? name :=
  find?_put e l.entries name

theorem mem_entries {e : ModuleEntry} : e ∈ l.entries ↔ l.find? e.name = some e := by
  constructor
  · intro he
    have hsome : (l.find? e.name).isSome := List.find?_isSome.mpr ⟨e, he, by simp⟩
    obtain ⟨x, hx⟩ := Option.isSome_iff_exists.mp hsome
    have hname : x.name = e.name := by simpa using List.find?_some hx
    -- names are not repeated, so the entry found is the one asked for
    rw [hx, List.inj_on_of_nodup_map l.nodup (List.mem_of_find?_eq_some hx) he hname]
  · intro h
    exact List.mem_of_find?_eq_some h

structure HoldsSame (l k : Ledger) : Prop where
  settings : l.settings = k.settings
  searchRoots : l.searchRoots = k.searchRoots
  find? : ∀ name, l.find? name = k.find? name

theorem HoldsSame.perm (h : HoldsSame l k) : l.entries.Perm k.entries := by
  rw [List.perm_ext_iff_of_nodup (List.Nodup.of_map _ l.nodup) (List.Nodup.of_map _ k.nodup)]
  intro e
  rw [mem_entries, mem_entries, h.find?]

theorem HoldsSame.mergedSymbols (h : HoldsSame l k) : l.mergedSymbols = k.mergedSymbols :=
  h.perm.foldl_eq' (fun x _ y _ t => SymbolTable.merge_right_comm t x.symbols y.symbols) {}

theorem HoldsSame.sortedNames (h : HoldsSame l k) : l.sortedNames = k.sortedNames := by
  have hsorted (names : List String) : (names.mergeSort (· ≤ ·)).Pairwise (fun a b => decide (a ≤ b) = true) :=
    List.pairwise_mergeSort (by simpa using fun a b c => le_trans) (by simpa using le_total) names
  have hperm : l.sortedNames.Perm k.sortedNames :=
    (List.mergeSort_perm _ _).trans ((h.perm.map _).trans (List.mergeSort_perm _ _).symm)
  refine hperm.eq_of_pairwise ?_ (hsorted _) (hsorted _)
  intro a b _ _ hab hba
  exact le_antisymm (of_decide_eq_true hab) (of_decide_eq_true hba)

theorem HoldsSame.candidatesIn (h : HoldsSame l k) (file : Option Path) (c : Context) :
    l.candidatesIn file c = k.candidatesIn file c := by
  have hfind : l.find? = k.find? := funext h.find?
  have hentry : l.entryFor? = k.entryFor? := by
    funext p
    rw [entryFor?, entryFor?, h.settings, h.searchRoots, hfind]
  cases c with
  | member target => rw [Ledger.candidatesIn, Ledger.candidatesIn, hentry]
  | decorator typed => rfl
  | importModule typed => rw [Ledger.candidatesIn, Ledger.candidatesIn, h.sortedNames]
  | importFrom moduleName typed => rw [Ledger.candidatesIn, Ledger.candidatesIn, hfind]
  | general => rw [Ledger.candidatesIn, Ledger.candidatesIn, h.mergedSymbols]

theorem HoldsSame.complete (h : HoldsSame l k) (line : String) (file : Option Path) :
    l.complete line file = k.complete line file := by
  have hcandidates : l.candidatesIn file = k.candidatesIn file := funext (h.candidatesIn file)
  rw [Ledger.complete, Ledger.complete, hcandidates]

structure Fills (l : Ledger) (w : Workspace) : Prop where
  settings : l.settings = w.settings
  searchRoots : l.searchRoots = w.searchRoots
  find? : ∀ name, l.find? name = w.modules.find? name

theorem Fills.store (h : Fills l w) (e : ModuleEntry) :
    Fills (l.store e) (w.store e.name e.file e.symbols) where
  settings := h.settings
  searchRoots := h.searchRoots
  find? name := by
    rw [find?_store, h.find?]
    exact (w.modules.find?_insert e.name name e).symm

theorem Fills.storeAll (h : Fills l w) (entries : List ModuleEntry) :
    Fills (entries.foldl Ledger.store l) (w.storeAll entries) := by
  unfold Workspace.storeAll
  induction entries generalizing l w with
  | nil => exact h
  | cons e es ih => exact ih (h.store e)

def blank (w : Workspace) : Ledger := { settings := w.settings, searchRoots := w.searchRoots }

theorem fills_blank (w : Workspace) : Fills (blank w) w.clear := ⟨rfl, rfl, fun _ => rfl⟩

theorem find?_map_snd {es : List (String × ModuleEntry)} (h : ∀ e ∈ es, e.2.name = e.1) (name : String) :
    (es.map Prod.snd).find? (·.name = name) = es.lookup name := by
  induction es with
  | nil => rfl
  | cons e es ih =>
    have he := h e List.mem_cons_self
    rw [List.map_cons, List.find?_cons, SortedMap.lookup_cons_if, ih fun x hx => h x (List.mem_cons_of_mem e hx)]
    by_cases hn : name = e.1
    · simp [hn, he]
    · simp [hn, he, Ne.symm hn]

end Ledger

namespace Workspace

variable {w : Workspace}

def IsNamed (w : Workspace) : Prop := ∀ e ∈ w.modules.toList, e.2.name = e.1

theorem IsNamed.names_values (h : w.IsNamed) : w.modules.values.map ModuleEntry.name = w.modules.keys := by
  rw [SortedMap.values, List.map_map, SortedMap.keys]
  exact List.map_congr_left h

def ledger (w : Workspace) (h : w.IsNamed) : Ledger where
  settings := w.settings
  searchRoots := w.searchRoots
  entries := w.modules.values
  nodup := by
    rw [h.names_values]
    exact w.modules.sorted.imp ne_of_lt

theorem find?_ledger (h : w.IsNamed) (name : String) : (w.ledger h).find? name = w.modules.find? name :=
  Ledger.find?_map_snd h name

theorem sortedNames_ledger (h : w.IsNamed) : (w.ledger h).sortedNames = w.modules.keys := by
  change (w.modules.values.map ModuleEntry.name).mergeSort (· ≤ ·) = w.modules.keys
  rw [h.names_values]
  exact List.mergeSort_of_pairwise (w.modules.sorted.imp fun hlt => decide_eq_true (le_of_lt hlt))

theorem candidatesIn_ledger (h : w.IsNamed) (file : Option Path) (c : Context) :
    (w.ledger h).candidatesIn file c = w.candidatesIn file c := by
  have hfind : (w.ledger h).find? = w.modules.find? := funext (find?_ledger h)
  have hentry : (w.ledger h).entryFor? = w.entryFor? := by
    funext p
    rw [Ledger.entryFor?, hfind]
    rfl
  cases c with
  | member target =>
    rw [Ledger.candidatesIn, hentry]
    rfl
  | decorator typed => rfl
  | importModule typed =>
    rw [Ledger.candidatesIn, sortedNames_ledger]
    rfl
  | importFrom moduleName typed =>
    rw [Ledger.candidatesIn, hfind]
    rfl
  | general => rfl

theorem complete_ledger (h : w.IsNamed) (line : String) (file : Option Path) :
    (w.ledger h).complete line file = w.complete line file := by
  have hcandidates : (w.ledger h).candidatesIn file = w.candidatesIn file := funext (candidatesIn_ledger h file)
  rw [Ledger.complete, hcandidates]
  rfl

end Workspace

namespace Ledger

variable {l k : Ledger} {w : Workspace}

theorem Fills.isNamed (h : Fills l w) : w.IsNamed := by
  intro e he
  have hfind := h.find? e.1
  rw [w.modules.find?_of_mem he] at hfind
  simpa using List.find?_some hfind

theorem Fills.holdsSame_ledger (h : Fills l w) : HoldsSame (w.ledger h.isNamed) l where
  settings := h.settings.symm
  searchRoots := h.searchRoots.symm
  find? name := by rw [Workspace.find?_ledger, h.find?]

/-- Merging tables is commutative, associative and idempotent in what it merges, and leaves alone what it
does not. A ledger that is filled with an index holds what the index holds. So the order in which modules were
stored shows neither in the names of all of them nor in what is completed. -/
theorem complete_ignores_order :
    (∀ a b c : SymbolTable, SymbolTable.SameNames (a.merge b) (b.merge a) ∧
      (a.merge b).merge c = a.merge (b.merge c) ∧ a.merge a = a ∧
      (a.merge b).variableTypes = a.variableTypes ∧ (a.merge b).properties = a.properties) ∧
    (∀ (w : Workspace) (entries : List ModuleEntry),
      Fills (entries.foldl store (blank w)) (w.clear.storeAll entries)) ∧
    ∀ l k : Ledger, HoldsSame l k →
      l.mergedSymbols = k.mergedSymbols ∧ (∀ line file, l.complete line file = k.complete line file) ∧
      ∀ w : Workspace, Fills l w →
        w.mergedSymbols = l.mergedSymbols ∧ ∀ line file, w.complete line file = l.complete line file := by
  refine ⟨?_, ?_, ?_⟩
  · intro a b c
    exact ⟨SymbolTable.merge_comm a b, SymbolTable.merge_assoc a b c, SymbolTable.merge_self a, rfl, rfl⟩
  · intro w entries
    exact (fills_blank w).storeAll entries
  · intro l k hlk
    refine ⟨hlk.mergedSymbols, hlk.complete, ?_⟩
    intro w hw
    have hsame := hw.holdsSame_ledger
    refine ⟨hsame.mergedSymbols, ?_⟩
    intro line file
    rw [← Workspace.complete_ledger hw.isNamed, hsame.complete]

theorem complete_ignores_order_again :
    let w : Workspace := { searchRoots := [⟨.slash, ["t"]⟩] }
    let a : ModuleEntry := ⟨"a", .ofText "class C\n  fun m", "/t/a.abl"⟩
    let b : ModuleEntry := ⟨"b", .ofText "class C\n  fun n\nfun f", "/t/b.abl"⟩
    let l := [⟨"b", {}, "/t/b/__init__.abl"⟩, a, b].foldl store (blank w)
    let k := [a, b].foldl store (blank w)
    HoldsSame l k ∧ l.entries = [b, a] ∧ k.entries = [a, b] ∧ l.mergedSymbols = k.mergedSymbols ∧
      l.complete "import b" none = k.complete "import b" none ∧
      k.complete "import b" none = [⟨"builtins", .moduleName⟩, ⟨"b", .moduleName⟩] := by
  intro w a b l k
  have hsame : HoldsSame l k := by
    refine ⟨rfl, rfl, ?_⟩
    intro name
    simp only [l, k, List.foldl_cons, List.foldl_nil, find?_store]
    by_cases hb : name = b.name
    · simp [hb]
    · have hb' : name ≠ "b" := hb
      simp [hb, hb']
  obtain ⟨-, hfills, horder⟩ := complete_ignores_order
  obtain ⟨hmerged, hcomplete, -⟩ := horder l k hsame
  have hanswer : (w.clear.storeAll [a, b]).complete "import b" none =
      [⟨"builtins", .moduleName⟩, ⟨"b", .moduleName⟩] := by
    unfold w a b
    decide +kernel
  refine ⟨hsame, rfl, rfl, hmerged, hcomplete _ _, ?_⟩
  obtain ⟨-, -, hindex⟩ := horder k k ⟨rfl, rfl, fun _ => rfl⟩
  rw [← (hindex _ (hfills w [a, b])).2, hanswer]

end Ledger

end AbleIndex
