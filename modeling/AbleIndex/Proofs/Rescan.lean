import AbleIndex.Proofs.History
import AbleIndex.Proofs.PathText
import AbleIndex.Workspace.Scan

namespace AbleIndex.Workspace

def listing? (h : Host) (w : Workspace) : Option (List Path) :=
  (w.searchRoots.mapM fun root => h.listSources? w.settings root.text).map fun found => found.flatten.eraseDups

structure Provides (h : Host) (w : Workspace) (p : Path) (e : ModuleEntry) : Prop where
  name : w.moduleName? (h.absolute p.text) = some e.name
  nonempty : e.name ≠ ""
  file : e.file = (h.absolute p.text).text
  symbols : ∃ bytes source, h.lookup p.text = .ok (.file bytes) ∧ String.fromUTF8? bytes = some source ∧
    e.symbols = .ofText (String.ofList (Text.unifyLineEnds source.toList))

/-- An index that holds what the files provide: for each module the entry of the last file that provides
it, and for each such file its module. -/
structure Holds (h : Host) (w : Workspace) (files : List Path) (w' : Workspace) : Prop where
  present : ∀ m, w'.modules.contains m = true ↔ ∃ p ∈ files, ∃ e, Provides h w p e ∧ e.name = m
  entry : ∀ m e, w'.modules.find? m = some e ↔
    ∃ before p after, files = before ++ p :: after ∧ (Provides h w p e ∧ e.name = m) ∧
      ∀ q ∈ after, ∀ e', Provides h w q e' → e'.name ≠ m
  fileModule : ∀ file m, w'.fileModules.find? file = some m ↔
    ∃ p ∈ files, ∃ e, Provides h w p e ∧ e.file = file ∧ e.name = m

variable {h : Host} {w : Workspace} {files : List Path}

theorem readText_eq_ok {s text : String} :
    h.readText s = .ok text ↔
      ∃ bytes source, h.lookup s = .ok (.file bytes) ∧ String.fromUTF8? bytes = some source ∧
        String.ofList (Text.unifyLineEnds source.toList) = text := by
  unfold Host.readText Host.decode
  cases hl : h.lookup s with
  | error e => simp
  | ok node =>
    cases node with
    | directory => simp
    | link target => simp
    | file bytes => cases hd : String.fromUTF8? bytes <;> simp [hd]

theorem indexedName?_eq_some {p : Path} {name : String} :
    w.indexedName? p = some name ↔ w.moduleName? p = some name ∧ name ≠ "" := by
  simp [indexedName?, Option.filter_eq_some_iff]

theorem entry?_examine {p : Path} {e : ModuleEntry} :
    Finding.entry? (w.examine h p) = some e ↔ Provides h w p e := by
  unfold examine Host.read
  constructor
  · intro he
    cases hn : w.indexedName? (h.absolute p.text) with
    | none => simp [hn, Finding.entry?] at he
    | some name =>
      cases hr : h.readText p.text with
      | error err => simp [hn, hr, Finding.entry?] at he
      | ok text =>
        simp only [hn, hr, Finding.entry?, Option.some.injEq] at he
        obtain ⟨hname, hne⟩ := indexedName?_eq_some.mp hn
        obtain ⟨bytes, source, hl, hd, rfl⟩ := readText_eq_ok.mp hr
        subst he
        refine ⟨hname, hne, rfl, bytes, source, hl, hd, ?_⟩
        dsimp only
  · rintro ⟨hname, hne, hfile, bytes, source, hl, hd, hs⟩
    have hn := indexedName?_eq_some.mpr ⟨hname, hne⟩
    have hr := readText_eq_ok.mpr ⟨bytes, source, hl, hd, rfl⟩
    simp only [hn, hr, Finding.entry?, ← hfile, ← hs]

theorem mapM_listSources? (s : Settings) (roots : List Path) :
    roots.mapM (fun root => h.listSources? s root.text) =
      if (roots.map Path.text).all Path.isUsable then some (roots.map fun root => h.sourceFiles s root.text)
      else none := by
  induction roots with
  | nil => rfl
  | cons root roots ih =>
    rw [List.mapM_cons, ih]
    by_cases hr : Path.isUsable root.text = true <;> by_cases hrs : (roots.map Path.text).all Path.isUsable = true <;>
      simp [Host.listSources?, hr, hrs]

theorem listing?_eq (h : Host) (w : Workspace) :
    w.listing? h = if (w.searchRoots.map Path.text).all Path.isUsable then some (w.sourceFiles h) else none := by
  unfold listing?
  rw [mapM_listSources?]
  split <;> simp [sourceFiles, List.flatMap]

theorem storeAll_modules (entries : List ModuleEntry) (w : Workspace) :
    (w.storeAll entries).modules = entries.foldl (fun m e => m.insert e.name e) w.modules := by
  unfold storeAll
  induction entries generalizing w with
  | nil => rfl
  | cons e es ih => exact ih (w.store e.name e.file e.symbols)

theorem storeAll_fileModules (entries : List ModuleEntry) (w : Workspace) :
    (w.storeAll entries).fileModules = entries.foldl (fun m e => m.insert e.file e.name) w.fileModules := by
  unfold storeAll
  induction entries generalizing w with
  | nil => rfl
  | cons e es ih => exact ih (w.store e.name e.file e.symbols)

theorem clear_storeAll (entries : List ModuleEntry) (w : Workspace) : (w.storeAll entries).clear = w.clear := by
  unfold storeAll
  induction entries generalizing w with
  | nil => rfl
  | cons e es ih => exact ih (w.store e.name e.file e.symbols)

def indexOf (h : Host) (w : Workspace) (files : List Path) : Workspace :=
  w.clear.storeAll ((files.map (w.examine h)).filterMap Finding.entry?)

theorem foldl_entries {α : Type} (insertion : ModuleEntry → String × α) (files : List Path) (m : NameMap α) :
    ((files.map (w.examine h)).filterMap Finding.entry?).foldl
        (fun m e => m.insert (insertion e).1 (insertion e).2) m =
      files.foldl (SortedMap.write fun p => (Finding.entry? (w.examine h p)).map insertion) m := by
  rw [List.filterMap_map, List.foldl_filterMap]
  congr
  funext m p
  unfold SortedMap.write
  cases hp : Finding.entry? (w.examine h p) <;> simp [hp]

theorem modules_indexOf (h : Host) (w : Workspace) (files : List Path) :
    (w.indexOf h files).modules =
      files.foldl (SortedMap.write fun p => (Finding.entry? (w.examine h p)).map fun e => (e.name, e)) ∅ := by
  rw [indexOf, storeAll_modules]
  exact foldl_entries (fun e => (e.name, e)) files ∅

theorem fileModules_indexOf (h : Host) (w : Workspace) (files : List Path) :
    (w.indexOf h files).fileModules =
      files.foldl (SortedMap.write fun p => (Finding.entry? (w.examine h p)).map fun e => (e.file, e.name)) ∅ := by
  rw [indexOf, storeAll_fileModules]
  exact foldl_entries (fun e => (e.file, e.name)) files ∅

theorem map_entry?_eq_some {α : Type} {insertion : ModuleEntry → String × α} {p : Path} {key : String} {a : α} :
    (Finding.entry? (w.examine h p)).map insertion = some (key, a) ↔
      ∃ e, Provides h w p e ∧ insertion e = (key, a) := by
  simp only [Option.map_eq_some_iff, entry?_examine]

theorem contains_indexOf {m : String} :
    (w.indexOf h files).modules.contains m = true ↔ ∃ p ∈ files, ∃ e, Provides h w p e ∧ e.name = m := by
  unfold SortedMap.contains
  rw [Option.isSome_iff_ne_none, modules_indexOf, ne_eq, find?_foldl_write_eq_none]
  simp only [ne_eq, map_entry?_eq_some, Prod.mk.injEq]
  push Not
  constructor
  · rintro ⟨p, hp, -, e, he, hm, -⟩
    exact ⟨p, hp, e, he, hm⟩
  · rintro ⟨p, hp, e, he, hm⟩
    exact ⟨p, hp, e, e, he, hm, rfl⟩

theorem find?_modules_indexOf {m : String} {e : ModuleEntry} :
    (w.indexOf h files).modules.find? m = some e ↔
      ∃ before p after, files = before ++ p :: after ∧ (Provides h w p e ∧ e.name = m) ∧
        ∀ q ∈ after, ∀ e', Provides h w q e' → e'.name ≠ m := by
  rw [modules_indexOf, find?_foldl_write, IsLastWrite]
  simp only [ne_eq, map_entry?_eq_some, Prod.mk.injEq]
  constructor
  · rintro ⟨before, p, after, hfiles, ⟨e', he, hm, rfl⟩, hlast⟩
    refine ⟨before, p, after, hfiles, ⟨he, hm⟩, ?_⟩
    intro q hq e' he' hm'
    exact hlast q hq e' ⟨e', he', hm', rfl⟩
  · rintro ⟨before, p, after, hfiles, ⟨he, hm⟩, hlast⟩
    refine ⟨before, p, after, hfiles, ⟨e, he, hm, rfl⟩, ?_⟩
    rintro q hq _ ⟨e', he', hm', -⟩
    exact hlast q hq e' he' hm'

theorem Provides.name_unique {p q : Path} {e e' : ModuleEntry} (hp : Provides h w p e)
    (hq : Provides h w q e') (hfile : e.file = e'.file) : e.name = e'.name := by
  rw [hp.file, hq.file] at hfile
  have habs : h.absolute p.text = h.absolute q.text :=
    Path.text_injective (h.isResolved_absolute _).proper (h.isResolved_absolute _).proper hfile
  have hname := hp.name
  rw [habs, hq.name] at hname
  exact (Option.some.inj hname).symm

theorem find?_fileModules_indexOf {file m : String} :
    (w.indexOf h files).fileModules.find? file = some m ↔
      ∃ p ∈ files, ∃ e, Provides h w p e ∧ e.file = file ∧ e.name = m := by
  have hsound (m : String) (hm : (w.indexOf h files).fileModules.find? file = some m) :
      ∃ p ∈ files, ∃ e, Provides h w p e ∧ e.file = file ∧ e.name = m := by
    rw [fileModules_indexOf, find?_foldl_write] at hm
    obtain ⟨before, p, after, hfiles, hp, -⟩ := hm
    obtain ⟨e, he, hins⟩ := map_entry?_eq_some.mp hp
    rw [Prod.mk.injEq] at hins
    exact ⟨p, by simp [hfiles], e, he, hins⟩
  constructor
  · exact hsound m
  · rintro ⟨p, hp, e, he, rfl, rfl⟩
    cases hf : (w.indexOf h files).fileModules.find? e.file with
    | none =>
      rw [fileModules_indexOf, find?_foldl_write_eq_none] at hf
      exact (hf p hp e.name (map_entry?_eq_some.mpr ⟨e, he, rfl⟩)).elim
    | some m =>
      obtain ⟨q, -, e', he', hfile, rfl⟩ := hsound m hf
      rw [he'.name_unique he hfile]

theorem sourceFiles_of_no_roots (h : Host) (hroots : w.searchRoots.map Path.text = []) : w.sourceFiles h = [] := by
  rw [sourceFiles, List.map_eq_nil_iff.mp hroots]
  rfl

def reportOf (h : Host) (w : Workspace) (files : List Path) : ScanReport where
  scanned := (files.map (w.examine h)).length
  indexed := ((files.map (w.examine h)).filterMap Finding.entry?).length
  skipped := (files.map (w.examine h)).countP Finding.isUnnamed
  errors := (files.map (w.examine h)).countP Finding.isUnreadable
  modules := (w.indexOf h files).modules.size
  roots := w.searchRoots.map Path.text

theorem scan_of_listing? (hreads : 0 ≤ w.settings.concurrentReads) (hf : w.listing? h = some files) :
    w.scan h = (w.indexOf h files, .ok (w.reportOf h files)) := by
  rw [listing?_eq, Option.ite_none_right_eq_some, Option.some.injEq] at hf
  obtain ⟨husable, rfl⟩ := hf
  unfold scan
  dsimp only
  by_cases hroots : w.searchRoots.map Path.text = []
  · rw [if_pos hroots, sourceFiles_of_no_roots h hroots, reportOf, hroots]
    rfl
  · rw [if_neg hroots, if_neg (not_not_intro husable), if_neg (by omega)]
    rfl

theorem scan_of_listing?_none (hf : w.listing? h = none) : w.scan h = (w.clear, .error .unusableRoot) := by
  rw [listing?_eq, ite_eq_right_iff] at hf
  have husable : ¬ (w.searchRoots.map Path.text).all Path.isUsable = true := fun hu => nomatch hf hu
  have hroots : w.searchRoots.map Path.text ≠ [] := by
    intro hr
    simp [hr] at husable
  unfold scan
  dsimp only
  rw [if_neg hroots, if_pos husable]

theorem holds_indexOf (files : List Path) : Holds h w files (w.indexOf h files) where
  present _ := contains_indexOf
  entry _ _ := find?_modules_indexOf
  fileModule _ _ := find?_fileModules_indexOf

theorem scan_congr {w' : Workspace} (hw : w.clear = w'.clear) : w.scan h = w'.scan h := by
  change w.clear.scan h = w'.clear.scan h
  rw [hw]

theorem clear_scan (h : Host) (w : Workspace) : (w.scan h).1.clear = w.clear := by
  unfold scan
  dsimp only
  split
  · rfl
  · split
    · rfl
    · split
      · rfl
      · exact clear_storeAll _ w.clear

/-- A scan rebuilds the index from the files below the search roots, and forgets what it held before.
Where a root cannot be listed it fails and leaves the index empty. -/
theorem scan_rebuilds (h : Host) (w : Workspace) (hreads : w.settings.concurrentReads = 1) :
    (match w.listing? h with
      | some files => (∃ report, (w.scan h).2 = .ok report) ∧ Holds h w files (w.scan h).1
      | none => w.scan h = (w.clear, .error .unusableRoot)) ∧
    (∀ modules fileModules, ({ w with modules, fileModules } : Workspace).scan h = w.scan h) ∧
    (w.scan h).1.scan h = w.scan h := by
  refine ⟨?_, fun modules fileModules => scan_congr rfl, scan_congr (clear_scan h w)⟩
  cases hf : w.listing? h with
  | none => exact scan_of_listing?_none hf
  | some files =>
    rw [scan_of_listing? (by omega) hf]
    exact ⟨⟨_, rfl⟩, holds_indexOf files⟩

theorem scan_rebuilds_package :
    let h : Host := {
      disk := (({} : Disk).put ["t", "d", "__init__.abl"] (.file "fun f".toUTF8)).put ["t", "d.abl"]
        (.file "fun g".toUTF8)
      cwd := ⟨.slash, ["t"]⟩ }
    let w : Workspace := {
      settings := { concurrentReads := 1 }
      searchRoots := [⟨.slash, ["t"]⟩]
      modules := (∅ : NameMap ModuleEntry).insert "old" default }
    w.settings.concurrentReads = 1 ∧
      (w.scan h).1.modules.find? "d" = some ⟨"d", .ofText "fun g", "/t/d.abl"⟩ ∧
      (w.scan h).1.modules.contains "old" = false := by
  intro h w
  have hlisting : w.listing? h =
      some [⟨.slash, ["t", "d", "__init__.abl"]⟩, ⟨.slash, ["t", "d.abl"]⟩] := by
    unfold h w
    decide +kernel
  have hscan := (scan_rebuilds h w rfl).1
  rw [hlisting] at hscan
  refine ⟨rfl, ?_, ?_⟩
  · apply (hscan.2.entry "d" _).mpr
    refine ⟨[⟨.slash, ["t", "d", "__init__.abl"]⟩], ⟨.slash, ["t", "d.abl"]⟩, [], rfl, ⟨?_, rfl⟩, by simp⟩
    unfold h w
    exact ⟨by decide +kernel, by decide, by decide +kernel, "fun g".toUTF8, "fun g", by rfl, by decide +kernel,
      by decide +kernel⟩
  · rw [Bool.eq_false_iff, ne_eq, hscan.2.present]
    rintro ⟨p, hp, e, he, hold⟩
    have hname := he.name
    rw [hold] at hname
    revert hname
    simp only [List.mem_cons, List.not_mem_nil, or_false] at hp
    unfold h w
    rcases hp with rfl | rfl <;> decide +kernel

end AbleIndex.Workspace
