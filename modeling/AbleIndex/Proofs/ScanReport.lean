import AbleIndex.Proofs.FirstRoot
import AbleIndex.Proofs.SearchOrder
import AbleIndex.Proofs.SingleUpdate
import Mathlib.Data.Set.Card

namespace AbleIndex

theorem countP_eq_ncard {α : Type} [DecidableEq α] {as : List α} (hn : as.Nodup) {test : α → Bool} {P : α → Prop}
    (h : ∀ a ∈ as, test a = true ↔ P a) : as.countP test = {a | a ∈ as ∧ P a}.ncard := by
  have hset : {a | a ∈ as ∧ P a} = ((as.filter test).toFinset : Set α) := by
    ext a
    simp only [Set.mem_ofPred_eq, Finset.mem_coe, List.mem_toFinset, List.mem_filter]
    exact and_congr_right fun ha => (h a ha).symm
  rw [hset, Set.ncard_coe_finset, List.toFinset_card_of_nodup (hn.filter test), List.countP_eq_length_filter]

theorem SortedMap.size_eq_ncard {α : Type} (m : NameMap α) : m.size = {k | m.contains k = true}.ncard := by
  have hnodup : m.keys.Nodup := by
    refine m.sorted.imp ?_
    rintro k _ hlt rfl
    exact KeyOrder.irrefl k hlt
  have hset : {k | m.contains k = true} = (m.keys.toFinset : Set String) := by
    ext k
    rw [Finset.mem_coe, List.mem_toFinset, SortedMap.mem_keys]
    rfl
  rw [hset, Set.ncard_coe_finset, List.toFinset_card_of_nodup hnodup, size, keys, List.length_map]

theorem Finding.length_eq (found : List Finding) :
    found.length = (found.filterMap Finding.entry?).length + found.countP isUnnamed + found.countP isUnreadable := by
  induction found with
  | nil => rfl
  | cons f found ih =>
    simp only [List.length_cons, List.filterMap_cons, List.countP_cons, ih]
    cases f with
    | unnamed =>
      simp only [Finding.entry?, isUnnamed, isUnreadable, if_true, if_false, Bool.false_eq_true]
      omega
    | unreadable =>
      simp only [Finding.entry?, isUnnamed, isUnreadable, if_true, if_false, Bool.false_eq_true]
      omega
    | module e =>
      simp only [Finding.entry?, isUnnamed, isUnreadable, if_false, Bool.false_eq_true, List.length_cons]
      omega

namespace Settings

variable {s : Settings}

theorem IsOffered.isPlain (hs : s.IsOffered) : s.IsPlain := by
  have hfile : s.packageFile = "__init__.abl" :=
    hs.fixed (f := Settings.packageFile) (fun _ => rfl) (fun _ _ => rfl) (fun _ _ => rfl)
  have hextension : s.sourceExtension = ".abl" :=
    hs.fixed (f := Settings.sourceExtension) (fun _ => rfl) (fun _ _ => rfl) (fun _ _ => rfl)
  constructor
  · exact hs.fixed (f := Settings.validate) (fun _ => rfl) (fun _ _ => rfl) (fun _ _ => rfl)
  · rw [hfile]
    decide
  · rw [hextension]
    decide
  · rw [hfile]
    decide
  · rw [hfile]
    decide

theorem intercalate_ne_empty (init : List String) {last : String} (h : last ≠ "") :
    ".".intercalate (init ++ [last]) ≠ "" := by
  intro he
  cases init with
  | nil => exact h (by simpa using he)
  | cons first init =>
    rw [String.intercalate_append_of_ne_nil (by simp) (by simp)] at he
    simp at he

theorem exists_nameBelow? (hs : s.IsPlain) {dirs : List String} {file : String}
    (hshown : file.toList.head? ≠ some '.') (hsource : s.isSourceName file = true) (hdirs : "" ∉ dirs)
    (hpackage : dirs ++ [file] ≠ [s.packageFile]) : ∃ name, s.nameBelow? (dirs ++ [file]) = some name ∧ name ≠ "" := by
  have hne (segments : List String) (hn : s.Names (dirs ++ [file]) segments) (h : ".".intercalate segments ≠ "") :
      ∃ name, s.nameBelow? (dirs ++ [file]) = some name ∧ name ≠ "" :=
    ⟨_, (nameBelow?_eq_some hs).mpr ⟨segments, hn, rfl⟩, h⟩
  by_cases hfile : file = s.packageFile
  · subst hfile
    rcases List.eq_nil_or_concat dirs with rfl | ⟨init, last, rfl⟩
    · exact absurd rfl hpackage
    · apply hne _ (.package (by simp))
      rw [List.concat_eq_append]
      apply intercalate_ne_empty
      rintro rfl
      exact hdirs (by simp)
  · obtain ⟨stem, rfl⟩ := isSourceName_iff.mp hsource
    apply hne _ (.file dirs stem hfile)
    apply intercalate_ne_empty
    rintro rfl
    rw [String.empty_append] at hshown
    exact hshown (validate_eq_ok.mp hs.valid).1

theorem nameBelow?_of_shown (hs : s.IsPlain) {parts : List String} (hparts : "" ∉ parts)
    (hshown : ∀ file ∈ parts.getLast?, file.toList.head? ≠ some '.' ∧ s.isSourceName file = true) :
    s.nameBelow? parts ≠ some "" ∧ (s.nameBelow? parts = none ↔ parts = [s.packageFile] ∨ parts = []) := by
  rcases List.eq_nil_or_concat parts with rfl | ⟨dirs, file, rfl⟩
  · simp [nameBelow?]
  · rw [List.concat_eq_append] at hparts hshown ⊢
    obtain ⟨hhidden, hsource⟩ := hshown file List.getLast?_concat
    by_cases hpackage : dirs ++ [file] = [s.packageFile]
    · rw [hpackage]
      simp [nameBelow?]
    · have hdirs : "" ∉ dirs := fun hd => hparts (List.mem_append_left [file] hd)
      obtain ⟨name, hname, hne⟩ := exists_nameBelow? hs hhidden hsource hdirs hpackage
      rw [hname]
      simp [hne, hpackage]

end Settings

namespace Workspace

variable {h : Host} {w w' : Workspace} {files : List Path} {p : Path}

theorem isUnnamed_examine : (w.examine h p).isUnnamed = true ↔ w.indexedName? (h.absolute p.text) = none := by
  unfold examine
  cases hn : w.indexedName? (h.absolute p.text) with
  | none => simp [hn, Finding.isUnnamed]
  | some name => cases h.read p <;> simp [hn, Finding.isUnnamed]

theorem isUnreadable_examine : (w.examine h p).isUnreadable = true ↔ w.indexedName? (h.absolute p.text) ≠ none ∧
    ¬ ∃ bytes source, h.lookup p.text = .ok (.file bytes) ∧ String.fromUTF8? bytes = some source := by
  have hread : (∃ bytes source, h.lookup p.text = .ok (.file bytes) ∧ String.fromUTF8? bytes = some source) ↔
      ∃ text, h.read p = .ok text := by
    unfold Host.read
    simp only [readText_eq_ok]
    constructor
    · rintro ⟨bytes, source, hl, hd⟩
      exact ⟨_, bytes, source, hl, hd, rfl⟩
    · rintro ⟨text, bytes, source, hl, hd, -⟩
      exact ⟨bytes, source, hl, hd⟩
  rw [hread]
  unfold examine
  cases hn : w.indexedName? (h.absolute p.text) with
  | none => simp [hn, Finding.isUnreadable]
  | some name => cases h.read p <;> simp [hn, Finding.isUnreadable]

theorem isSome_entry?_examine :
    (Finding.entry? (w.examine h p)).isSome = true ↔ ∃ e, Provides h w p e := by
  rw [Option.isSome_iff_exists]
  exact exists_congr fun e => entry?_examine

structure Accounts (h : Host) (w : Workspace) (files : List Path) (report : ScanReport) : Prop where
  scanned : report.scanned = files.length
  total : report.scanned = report.indexed + report.skipped + report.errors
  located : ∀ p ∈ files, h.absolute p.text = p ∧ ∃ root, Decides w.searchRoots root p
  indexed : report.indexed = {p | p ∈ files ∧ ∃ e, Provides h w p e}.ncard
  /-- The package file of the root that decides, or a root that is itself a file. -/
  skipped : report.skipped = {p | p ∈ files ∧ ∃ root, Decides w.searchRoots root p ∧
    (p = root.append [w.settings.packageFile] ∨ p = root)}.ncard
  errors : report.errors = {p | p ∈ files ∧ w.moduleName? p ≠ none ∧
    ¬ ∃ bytes source, h.lookup p.text = .ok (.file bytes) ∧ String.fromUTF8? bytes = some source}.ncard
  modules : report.modules = {m | ∃ p ∈ files, ∃ e, Provides h w p e ∧ e.name = m}.ncard
  roots : report.roots = w.searchRoots.map Path.text

theorem IsAnchored.exists_decides_of_mem (hw : w.IsAnchored) (hs : w.settings.IsPlain) (hd : h.disk.IsProper)
    (hp : p ∈ w.sourceFiles h) : ∃ root, Decides w.searchRoots root p ∧ w.moduleName? p ≠ some "" ∧
      (w.moduleName? p = none ↔ p = root.append [w.settings.packageFile] ∨ p = root) := by
  have hresolved : p.IsResolved := hw.isResolved_of_mem_sourceFiles hd hp
  obtain ⟨lister, hlister, hp⟩ := List.mem_flatMap.mp (List.mem_eraseDups.mp hp)
  obtain ⟨loc, dirs, file, -, -, hpath, hsight⟩ := Host.mem_sourceFiles.mp hp
  rw [Path.ofString_text (hw.searchRoots lister hlister).proper] at hpath
  obtain ⟨root, hdecides⟩ := exists_decides ⟨lister, hlister, dirs ++ [file], hpath⟩
  obtain ⟨parts, rfl⟩ := hdecides.1
  have hempty : "" ∉ parts := by
    intro hmem
    have hcomponent := hresolved.proper "" (List.mem_append_right root.parts hmem)
    exact absurd hcomponent (by decide)
  have hshown : ∀ last ∈ parts.getLast?, last.toList.head? ≠ some '.' ∧ w.settings.isSourceName last = true := by
    intro last hlast
    -- the root that lists the file may be another one, but the file has one name
    have hsame := congrArg (fun q : Path => q.parts.getLast?) hpath
    simp only [Path.append, List.getLast?_append, Option.mem_def.mp hlast, List.getLast?_singleton,
      Option.some_or, Option.some.injEq] at hsame
    rw [hsame, Settings.isSourceName, List.isSuffixOf_iff_suffix]
    exact ⟨hsight.source.shown, hsight.source.extension⟩
  obtain ⟨hne, hnone⟩ := Settings.nameBelow?_of_shown hs hempty hshown
  have hname : w.moduleName? (root.append parts) = w.settings.nameBelow? parts := moduleName?_of_decides hdecides
  refine ⟨root, hdecides, ?_, ?_⟩
  · rw [hname]
    exact hne
  · rw [hname, hnone]
    obtain ⟨anchor, above⟩ := root
    simp [Path.append]

theorem indexedName?_eq_moduleName? (hne : w.moduleName? p ≠ some "") : w.indexedName? p = w.moduleName? p := by
  unfold indexedName?
  cases hn : w.moduleName? p with
  | none => rfl
  | some name =>
    have hname : name ≠ "" := fun he => hne (by rw [hn, he])
    rw [Option.filter_some, if_pos (decide_eq_true hname)]

theorem IsAnchored.accounts (hw : w.IsAnchored) (hs : w.settings.IsPlain) (hd : h.disk.IsProper) :
    Accounts h w (w.sourceFiles h) (w.reportOf h (w.sourceFiles h)) := by
  have hnodup : (w.sourceFiles h).Nodup := (listsFirst_eraseDups _).distinct
  have habsolute : ∀ p ∈ w.sourceFiles h, h.absolute p.text = p := by
    intro p hp
    exact h.absolute_text (hw.isResolved_of_mem_sourceFiles hd hp)
  have hindexed : ∀ p ∈ w.sourceFiles h, w.indexedName? (h.absolute p.text) = w.moduleName? p := by
    intro p hp
    obtain ⟨root, -, hne, -⟩ := hw.exists_decides_of_mem hs hd hp
    rw [habsolute p hp]
    exact indexedName?_eq_moduleName? hne
  constructor
  · exact List.length_map _
  · exact Finding.length_eq _
  · intro p hp
    obtain ⟨root, hdecides, -⟩ := hw.exists_decides_of_mem hs hd hp
    exact ⟨habsolute p hp, root, hdecides⟩
  · rw [reportOf, List.filterMap_map, List.length_filterMap_eq_countP]
    exact countP_eq_ncard hnodup fun p _ => isSome_entry?_examine
  · apply List.countP_map.trans
    apply countP_eq_ncard hnodup
    intro p hp
    obtain ⟨root, hdecides, -, hnone⟩ := hw.exists_decides_of_mem hs hd hp
    rw [Function.comp_apply, isUnnamed_examine, hindexed p hp, hnone]
    constructor
    · intro hroot
      exact ⟨root, hdecides, hroot⟩
    · rintro ⟨other, hother, hroot⟩
      rwa [hdecides.unique hother]
  · apply List.countP_map.trans
    apply countP_eq_ncard hnodup
    intro p hp
    rw [Function.comp_apply, isUnreadable_examine, hindexed p hp]
  · rw [reportOf, SortedMap.size_eq_ncard]
    simp only [contains_indexOf]
  · rfl

theorem Scans.size_modules (hscan : Scans h w w') {report : ScanReport} (hr : (w.scan h).2 = .ok report) :
    w'.modules.size = (w.indexOf h (w.sourceFiles h)).modules.size := by
  cases hscan with
  | failed hs =>
    rw [hr] at hs
    cases hs
  | completed hs ho =>
    rw [SortedMap.size_eq_ncard, SortedMap.size_eq_ncard]
    simp only [contains_indexOf, ho.mem_iff]

theorem Reached.allowed_settings {allowed : Settings → Prop} {settled : Bool} (hw : Reached allowed settled w) :
    allowed w.settings := by
  induction hw with
  | new hs => exact hs
  | @configure settled w hw h root settings hs ih =>
    have hsettings : (w.configure h (root.map h.absolute) settings).1.settings = settings.getD w.settings := by
      unfold Workspace.configure
      dsimp only
      split <;> rfl
    rw [hsettings]
    cases settings with
    | none => exact ih
    | some s => exact hs s rfl
  | scan hw h hscan ih =>
    have hsettings := congrArg settings hscan.clear_eq
    exact hsettings ▸ ih
  | @update settled w hw h path text ih =>
    rcases update_cases w h path text with hu | ⟨e, -, hu⟩
    · rw [hu]
      exact ih
    · rw [hu]
      exact ih
  | clear hw ih => exact ih

/-- A scan accounts for each file below the search roots: it is indexed, or unreadable, or skipped because the first root
that contains it gives it no name. The modules it counts are those that it leaves, in whatever order files are read. -/
theorem scan_accounts {settled : Bool} (hw : Reached Settings.IsOffered settled w) (hd : h.disk.IsProper) :
    match w.listing? h with
    | some files => files.Nodup ∧ ∃ report, (w.scan h).2 = .ok report ∧ Accounts h w files report ∧
        ∀ w', Scans h w w' → w'.modules.size = report.modules
    | none => w.scan h = (w.clear, .error .unusableRoot) := by
  cases hf : w.listing? h with
  | none => exact scan_of_listing?_none hf
  | some files =>
    have hs : w.settings.IsPlain := hw.allowed_settings.isPlain
    have hreads : 0 < w.settings.concurrentReads := (Settings.validate_eq_ok.mp hs.valid).2.2.1
    have hscan := congrArg Prod.snd (scan_of_listing? hreads.le hf)
    rw [listing?_eq, Option.ite_none_right_eq_some, Option.some.injEq] at hf
    obtain ⟨-, rfl⟩ := hf
    have hanchored : w.IsAnchored := hw.isAnchored fun s hs => hs.libraryDir
    refine ⟨(listsFirst_eraseDups _).distinct, _, hscan, hanchored.accounts hs hd, ?_⟩
    intro w' hw'
    exact hw'.size_modules hscan

theorem scan_accounts_package :
    let h : Host := { (default : Host) with
      disk := (((({} : Disk).put ["t", "__init__.abl"] (.file "".toUTF8)).put ["t", "b.abl"]
        (.file ⟨#[255]⟩)).put ["t", "lib", "d.abl"] (.file "fun f".toUTF8)).put ["t", "lib", "d", "__init__.abl"]
        (.file "fun g".toUTF8) }
    let w := (({} : Workspace).configure h (some (h.absolute "/t")) none).1
    ∃ files report, w.listing? h = some files ∧ (w.scan h).2 = .ok report ∧ Accounts h w files report ∧
      report = { scanned := 4, indexed := 2, skipped := 1, errors := 1, modules := 1, roots := ["/t", "/t/lib"] } ∧
      {p | p ∈ files ∧ ∃ e, Provides h w p e}.ncard = 2 := by
  intro h w
  have hw : Reached Settings.IsOffered true w := (Reached.new .standard).configure h (some "/t") none (by simp)
  have hd : h.disk.IsProper := by
    unfold h
    iterate 4 refine Disk.isProper_put ?_ (by decide +kernel) _
    exact Disk.isProper_empty
  have hlisting : w.listing? h = some [⟨.slash, ["t", "__init__.abl"]⟩, ⟨.slash, ["t", "b.abl"]⟩,
      ⟨.slash, ["t", "lib", "d", "__init__.abl"]⟩, ⟨.slash, ["t", "lib", "d.abl"]⟩] := by
    unfold w h
    decide +kernel
  have haccounts := scan_accounts hw hd
  rw [hlisting] at haccounts
  obtain ⟨-, report, hscan, haccount, -⟩ := haccounts
  have hreport : (w.scan h).2 = .ok
      { scanned := 4, indexed := 2, skipped := 1, errors := 1, modules := 1, roots := ["/t", "/t/lib"] } := by
    unfold w h
    decide +kernel
  obtain rfl := Except.ok.inj (hscan.symm.trans hreport)
  exact ⟨_, _, hlisting, hscan, haccount, rfl, haccount.indexed.symm⟩

theorem scan_skips_file_root :
    let h : Host := { (default : Host) with
      disk := ({} : Disk).put ["t", "a.abl"] (.file "fun f".toUTF8)
      env := [("ABLESENSE_STDLIB_PATHS", "/t")] }
    let w := (({ settings := .ofEnvironment h.env } : Workspace).configure h (some (h.absolute "/t/a.abl")) none).1
    Reached Settings.IsOffered true w ∧ h.disk.IsProper ∧ w.listing? h = some [⟨.slash, ["t", "a.abl"]⟩] ∧
      (w.scan h).2 = .ok { scanned := 1, skipped := 1, roots := ["/t/a.abl", "/t"] } ∧
      ¬ ∃ root, Decides w.searchRoots root ⟨.slash, ["t", "a.abl"]⟩ ∧
        ⟨.slash, ["t", "a.abl"]⟩ = root.append [w.settings.packageFile] := by
  intro h w
  refine ⟨?_, ?_, ?_, ?_, ?_⟩
  · exact (Reached.new (.ofEnvironment h.env)).configure h (some "/t/a.abl") none (by simp)
  · exact Disk.isProper_put Disk.isProper_empty (by decide +kernel) _
  · unfold w h
    decide +kernel
  · unfold w h
    decide +kernel
  · rintro ⟨root, -, hroot⟩
    have hfile : w.settings.packageFile = "__init__.abl" := by
      unfold w h
      decide +kernel
    have hlast := congrArg (fun p : Path => p.parts.getLast?) hroot
    simp [Path.append, hfile] at hlast

end Workspace

end AbleIndex
