import AbleIndex.Proofs.SingleUpdate

/-!
Texts of single files as registers. Each module and each file holds what was written to it last, and what is written to
one of them leaves the others alone.
-/

namespace AbleIndex

namespace SortedMap

variable {α : Type}

theorem insert_insert (m : NameMap α) (k : String) (a b : α) : (m.insert k a).insert k b = m.insert k b := by
  apply SortedMap.ext_find?
  intro j
  rw [find?_insert, find?_insert, find?_insert]
  split <;> rfl

theorem insert_comm (m : NameMap α) {k j : String} (h : k ≠ j) (a b : α) :
    (m.insert k a).insert j b = (m.insert j b).insert k a := by
  apply SortedMap.ext_find?
  intro i
  rw [find?_insert, find?_insert, find?_insert, find?_insert]
  by_cases hj : i = j
  · rw [if_pos hj, if_neg (fun hk => h (hk.symm.trans hj)), if_pos hj]
  · rw [if_neg hj, if_neg hj]

end SortedMap

namespace Workspace

variable {h : Host} {w : Workspace} {p q t u name : String}

theorem store_store (w : Workspace) (name file : String) (s s' : SymbolTable) :
    (w.store name file s).store name file s' = w.store name file s' := by
  simp only [store, SortedMap.insert_insert]

theorem store_comm (w : Workspace) {name other file file' : String} (hname : name ≠ other) (hfile : file ≠ file')
    (s s' : SymbolTable) :
    (w.store name file s).store other file' s' = (w.store other file' s').store name file s := by
  simp only [store, SortedMap.insert_comm _ hname, SortedMap.insert_comm _ hfile]

def put (h : Host) (w : Workspace) (path text : String) : Workspace := (w.updateFile h path (some text)).1

def nameOf? (h : Host) (w : Workspace) (path : String) : Option String := w.indexedName? (h.absolute path)

theorem put_eq (h : Host) (w : Workspace) (p t : String) : w.put h p t = (w.update (h.absolute p) t).1 := rfl

theorem put_of_named (hp : w.nameOf? h p = some name) :
    w.put h p t = w.store name (h.absolute p).text (.ofText t) := by
  have hp : w.indexedName? (h.absolute p) = some name := hp
  rw [put_eq, update, hp]

theorem put_of_unnamed (hp : w.nameOf? h p = none) : w.put h p t = w := by
  have hp : w.indexedName? (h.absolute p) = none := hp
  rw [put_eq, update, hp]

theorem nameOf?_put (h : Host) (w : Workspace) (p t q : String) : (w.put h p t).nameOf? h q = w.nameOf? h q :=
  indexedName?_update w (h.absolute p) (h.absolute q) t

theorem text_ne_of_nameOf?_ne (hname : w.nameOf? h p ≠ w.nameOf? h q) :
    (h.absolute p).text ≠ (h.absolute q).text := by
  intro htext
  apply hname
  have hproper (s : String) : (h.absolute s).IsProper := (h.isResolved_absolute s).proper
  rw [nameOf?, nameOf?, Path.text_injective (hproper p) (hproper q) htext]

theorem put_put (h : Host) (w : Workspace) (p t u : String) : (w.put h p t).put h p u = w.put h p u := by
  have hkeep := nameOf?_put h w p t p
  cases hp : w.nameOf? h p with
  | none => rw [put_of_unnamed hp]
  | some name =>
    rw [hp] at hkeep
    rw [put_of_named hkeep, put_of_named hp, put_of_named hp, store_store]

theorem put_comm (hname : ∀ m, w.nameOf? h p = some m → w.nameOf? h q ≠ some m) :
    (w.put h p t).put h q u = (w.put h q u).put h p t := by
  have hkeepq := nameOf?_put h w p t q
  have hkeepp := nameOf?_put h w q u p
  cases hp : w.nameOf? h p with
  | none =>
    rw [hp] at hkeepp
    rw [put_of_unnamed hp, put_of_unnamed hkeepp]
  | some name =>
    cases hq : w.nameOf? h q with
    | none =>
      rw [hq] at hkeepq
      rw [put_of_unnamed hq, put_of_unnamed hkeepq]
    | some other =>
      rw [hp] at hkeepp
      rw [hq] at hkeepq
      have hne : name ≠ other := by
        rintro rfl
        exact hname name hp hq
      have htext : (h.absolute p).text ≠ (h.absolute q).text := by
        apply text_ne_of_nameOf?_ne (w := w)
        rw [hp, hq, ne_eq, Option.some.injEq]
        exact hne
      rw [put_of_named hkeepq, put_of_named hkeepp, put_of_named hp, put_of_named hq, store_comm w hne htext]

theorem find?_modules_put (h : Host) (w : Workspace) (p t m : String) :
    (w.put h p t).modules.find? m =
      if w.nameOf? h p = some m then some ⟨m, .ofText t, (h.absolute p).text⟩ else w.modules.find? m := by
  split
  · rename_i hp
    exact find?_modules_update hp t
  · rename_i hp
    exact find?_modules_update_of_ne hp t

theorem find?_fileModules_put (h : Host) (w : Workspace) (p t file : String) :
    (w.put h p t).fileModules.find? file =
      if file = (h.absolute p).text then (w.nameOf? h p).or (w.fileModules.find? file)
      else w.fileModules.find? file := by
  cases hp : w.nameOf? h p with
  | none =>
    rw [put_of_unnamed hp, Option.none_or]
    split <;> rfl
  | some name =>
    rw [put_of_named hp, Option.some_or]
    exact find?_fileModules_store ⟨name, .ofText t, (h.absolute p).text⟩ file

theorem put_absolute (other : Host) (p t : String) : w.put other (h.absolute p).text t = w.put h p t := by
  rw [put_eq, put_eq, Host.absolute_text (h.isResolved_absolute p)]

structure IsRegister (h : Host) (w : Workspace) (p : String) : Prop where
  overwritten : ∀ t u, (w.put h p t).put h p u = w.put h p u
  commutes : ∀ q t u, (∀ m, w.nameOf? h p = some m → w.nameOf? h q ≠ some m) →
    (w.put h p t).put h q u = (w.put h q u).put h p t
  entry : ∀ t m, (w.put h p t).modules.find? m =
    if w.nameOf? h p = some m then some ⟨m, .ofText t, (h.absolute p).text⟩ else w.modules.find? m
  record : ∀ t file, (w.put h p t).fileModules.find? file =
    if file = (h.absolute p).text then (w.nameOf? h p).or (w.fileModules.find? file) else w.fileModules.find? file
  configuration : ∀ t, (w.put h p t).clear = w.clear
  unnamed : w.nameOf? h p = none → ∀ t, w.put h p t = w
  spelling : ∀ q t, h.absolute q = h.absolute p → w.updateFile h q (some t) = w.updateFile h p (some t)
  absolute : ∀ (other : Host) t, w.put other (h.absolute p).text t = w.put h p t

theorem isRegister_put (h : Host) (w : Workspace) (p : String) : IsRegister h w p where
  overwritten := put_put h w p
  commutes _ _ _ hname := put_comm hname
  entry := find?_modules_put h w p
  record := find?_fileModules_put h w p
  configuration t := by
    cases hp : w.nameOf? h p with
    | none => rw [put_of_unnamed hp]
    | some name =>
      rw [put_of_named hp]
      rfl
  unnamed hp _ := put_of_unnamed hp
  spelling q t hq := by rw [updateFile, updateFile, textOf, textOf, hq]
  absolute other t := put_absolute other p t

theorem isRegister_put_detour :
    let h : Host := default
    let w : Workspace := { searchRoots := [⟨.slash, ["t"]⟩] }
    w.nameOf? h "/t/d/__init__.abl" = some "d" ∧ w.nameOf? h "t/./e/../a.abl" = some "a" ∧
      ((w.put h "/t/d/__init__.abl" "fun f").put h "t/./e/../a.abl" "fun g" =
        (w.put h "t/./e/../a.abl" "fun g").put h "/t/d/__init__.abl" "fun f") ∧
      (w.put h "t/./e/../a.abl" "fun g").modules.find? "a" = some ⟨"a", .ofText "fun g", "/t/a.abl"⟩ ∧
      w.put h "t/./e/../a.abl" "fun g" = w.put h "/t/a.abl" "fun g" := by
  intro h w
  have hd : w.nameOf? h "/t/d/__init__.abl" = some "d" := by
    unfold w h
    decide +kernel
  have ha : w.nameOf? h "t/./e/../a.abl" = some "a" := by
    unfold w h
    decide +kernel
  have htext : (h.absolute "t/./e/../a.abl").text = "/t/a.abl" := by
    unfold h
    decide +kernel
  refine ⟨hd, ha, ?_, ?_, ?_⟩
  · apply (isRegister_put h w "/t/d/__init__.abl").commutes
    intro m hm
    rw [hd, Option.some.injEq] at hm
    rw [ha, ← hm]
    decide
  · rw [(isRegister_put h w "t/./e/../a.abl").entry, if_pos ha, htext]
  · rw [← (isRegister_put h w "t/./e/../a.abl").absolute h "fun g", htext]

end Workspace

end AbleIndex
