import AbleIndex.Proofs.Rescan

namespace AbleIndex.Workspace

def IsEmpty (w : Workspace) : Prop := w.modules = ∅ ∧ w.fileModules = ∅

instance (w : Workspace) : Decidable w.IsEmpty := inferInstanceAs (Decidable (_ ∧ _))

/-- What a scan can leave. Files are stored in the order in which their reads end, whichever that is. -/
inductive Scans (h : Host) (w : Workspace) : Workspace → Prop
  | completed {report : ScanReport} {order : List Path} (hs : (w.scan h).2 = .ok report)
      (ho : order.Perm (w.sourceFiles h)) : Scans h w (w.indexOf h order)
  | failed {e : ScanFailure} (hs : (w.scan h).2 = .error e) : Scans h w w.clear

/-- What operations lead to from a new workspace, when all settings are allowed ones. The machine may have
changed from one operation to the next. A workspace is settled if there has been no `configure` since its
index was last empty, as it is when a scan begins. -/
inductive Reached (allowed : Settings → Prop) : Bool → Workspace → Prop
  | new {s : Settings} (hs : allowed s) : Reached allowed true { settings := s }
  | configure {settled : Bool} {w : Workspace} (hw : Reached allowed settled w) (h : Host) (root : Option String)
      (settings : Option Settings) (hs : ∀ s ∈ settings, allowed s) :
      Reached allowed (decide w.IsEmpty) (w.configure h (root.map h.absolute) settings).1
  | scan {settled : Bool} {w w' : Workspace} (hw : Reached allowed settled w) (h : Host) (hscan : Scans h w w') :
      Reached allowed true w'
  | update {settled : Bool} {w : Workspace} (hw : Reached allowed settled w) (h : Host) (path text : String) :
      Reached allowed settled (w.update (h.absolute path) text).1
  | clear {settled : Bool} {w : Workspace} (hw : Reached allowed settled w) : Reached allowed true w.clear

variable {h : Host} {w : Workspace}

theorem scan_cases (h : Host) (w : Workspace) :
    (∃ report, w.scan h = (w.indexOf h (w.sourceFiles h), .ok report)) ∨ ∃ e, w.scan h = (w.clear, .error e) := by
  unfold scan
  dsimp only
  split
  · rename_i hroots
    rw [sourceFiles_of_no_roots h hroots]
    exact .inl ⟨{}, rfl⟩
  · split
    · exact .inr ⟨.unusableRoot, rfl⟩
    · split
      · exact .inr ⟨.negativeReads, rfl⟩
      · exact .inl ⟨_, rfl⟩

theorem scans_scan (h : Host) (w : Workspace) : Scans h w (w.scan h).1 := by
  rcases scan_cases h w with ⟨report, hs⟩ | ⟨e, hs⟩
  · have hok : (w.scan h).2 = .ok report := by rw [hs]
    rw [hs]
    exact .completed hok (.refl _)
  · have herror : (w.scan h).2 = .error e := by rw [hs]
    rw [hs]
    exact .failed herror

structure Fits (w : Workspace) (e : ModuleEntry) : Prop where
  nonempty : e.name ≠ ""
  file : ∃ p : Path, p.IsResolved ∧ e.file = p.text ∧ w.moduleName? p = some e.name

theorem fits_of_mem_entries {files : List Path} {e : ModuleEntry}
    (he : e ∈ (files.map (w.examine h)).filterMap Finding.entry?) : Fits w e := by
  obtain ⟨finding, hf, hentry⟩ := List.mem_filterMap.mp he
  obtain ⟨p, -, rfl⟩ := List.mem_map.mp hf
  have hp := entry?_examine.mp hentry
  exact ⟨hp.nonempty, h.absolute p.text, h.isResolved_absolute p.text, hp.file, hp.name⟩

theorem update_cases (w : Workspace) (h : Host) (path text : String) :
    (w.update (h.absolute path) text).1 = w ∨
      ∃ e, Fits w e ∧ (w.update (h.absolute path) text).1 = w.store e.name e.file e.symbols := by
  unfold update
  cases hn : w.indexedName? (h.absolute path) with
  | none => exact .inl rfl
  | some name =>
    obtain ⟨hname, hne⟩ := indexedName?_eq_some.mp hn
    exact .inr ⟨⟨name, .ofText text, (h.absolute path).text⟩,
      ⟨hne, h.absolute path, h.isResolved_absolute path, rfl, hname⟩, rfl⟩

structure IsCoherent (w : Workspace) : Prop where
  named : ∀ m e, w.modules.find? m = some e → e.name = m ∧ m ≠ ""
  filed : ∀ m e, w.modules.find? m = some e → w.fileModules.contains e.file = true
  indexed : ∀ file m, w.fileModules.find? file = some m → w.modules.contains m = true

structure IsCurrent (w : Workspace) : Prop where
  names : ∀ file m, w.fileModules.find? file = some m → ∀ h : Host, w.moduleName? (h.absolute file) = some m
  owns : ∀ m e, w.modules.find? m = some e → w.fileModules.find? e.file = some m

theorem IsEmpty.isCoherent (hw : w.IsEmpty) : w.IsCoherent where
  named m e he := by rw [hw.1] at he; cases he
  filed m e he := by rw [hw.1] at he; cases he
  indexed file m hm := by rw [hw.2] at hm; cases hm

theorem IsEmpty.isCurrent (hw : w.IsEmpty) : w.IsCurrent where
  names file m hm := by rw [hw.2] at hm; cases hm
  owns m e he := by rw [hw.1] at he; cases he

theorem isEmpty_clear (w : Workspace) : w.clear.IsEmpty := ⟨rfl, rfl⟩

theorem find?_modules_store (e : ModuleEntry) (m : String) :
    (w.store e.name e.file e.symbols).modules.find? m = if m = e.name then some e else w.modules.find? m := by
  simp [store]

theorem find?_fileModules_store (e : ModuleEntry) (file : String) :
    (w.store e.name e.file e.symbols).fileModules.find? file =
      if file = e.file then some e.name else w.fileModules.find? file := by
  simp [store]

theorem not_isEmpty_store (w : Workspace) (e : ModuleEntry) : ¬ (w.store e.name e.file e.symbols).IsEmpty := by
  rintro ⟨hm, -⟩
  have hfind := find?_modules_store (w := w) e e.name
  rw [hm, if_pos rfl] at hfind
  cases hfind

theorem IsCoherent.store (hw : w.IsCoherent) {e : ModuleEntry} (he : e.name ≠ "") :
    (w.store e.name e.file e.symbols).IsCoherent where
  named m e' he' := by
    rw [find?_modules_store] at he'
    split at he'
    · rename_i hm
      cases he'
      exact ⟨hm.symm, hm ▸ he⟩
    · exact hw.named m e' he'
  filed m e' he' := by
    rw [SortedMap.contains, find?_fileModules_store]
    rw [find?_modules_store] at he'
    split at he'
    · cases he'
      simp
    · have hfiled := hw.filed m e' he'
      split
      · rfl
      · exact hfiled
  indexed file m hm := by
    rw [SortedMap.contains, find?_modules_store]
    rw [find?_fileModules_store] at hm
    split at hm
    · cases hm
      simp
    · have hindexed := hw.indexed file m hm
      split
      · rfl
      · exact hindexed

theorem IsCurrent.store (hw : w.IsCurrent) {e : ModuleEntry} (he : Fits w e) :
    (w.store e.name e.file e.symbols).IsCurrent := by
  obtain ⟨p, hp, hfile, hname⟩ := he.file
  have hnow (h : Host) : w.moduleName? (h.absolute e.file) = some e.name := by
    rw [hfile, h.absolute_text hp, hname]
  constructor
  · intro file m hm h
    rw [find?_fileModules_store] at hm
    split at hm
    · rename_i hf
      cases hm
      rw [hf]
      exact hnow h
    · exact hw.names file m hm h
  · intro m e' he'
    rw [find?_fileModules_store]
    rw [find?_modules_store] at he'
    split at he'
    · rename_i hm
      cases he'
      rw [if_pos rfl, hm]
    · rename_i hm
      have howns := hw.owns m e' he'
      split
      · -- the file of another module would now have two module names
        rename_i hf
        have hother := hw.names e'.file m howns default
        rw [hf, hnow] at hother
        exact absurd (Option.some.inj hother).symm hm
      · exact howns

theorem IsCoherent.storeAll {entries : List ModuleEntry} (hw : w.IsCoherent) (he : ∀ e ∈ entries, e.name ≠ "") :
    (w.storeAll entries).IsCoherent := by
  unfold Workspace.storeAll
  induction entries generalizing w with
  | nil => exact hw
  | cons e es ih =>
    exact ih (hw.store (he e List.mem_cons_self)) fun e' he' => he e' (List.mem_cons_of_mem e he')

theorem IsCurrent.storeAll {entries : List ModuleEntry} (hw : w.IsCurrent) (he : ∀ e ∈ entries, Fits w e) :
    (w.storeAll entries).IsCurrent := by
  unfold Workspace.storeAll
  induction entries generalizing w with
  | nil => exact hw
  | cons e es ih =>
    apply ih (hw.store (he e List.mem_cons_self))
    intro e' he'
    -- what fits depends on the configuration only, which storing leaves alone
    obtain ⟨hne, hfile⟩ := he e' (List.mem_cons_of_mem e he')
    exact ⟨hne, hfile⟩

theorem Scans.isCoherent {w' : Workspace} (hscan : Scans h w w') : w'.IsCoherent := by
  cases hscan with
  | failed hs => exact (isEmpty_clear w).isCoherent
  | completed hs ho =>
    apply (isEmpty_clear w).isCoherent.storeAll
    intro e he
    exact (fits_of_mem_entries he).nonempty

theorem Scans.isCurrent {w' : Workspace} (hscan : Scans h w w') : w'.IsCurrent := by
  cases hscan with
  | failed hs => exact (isEmpty_clear w).isCurrent
  | completed hs ho =>
    apply (isEmpty_clear w).isCurrent.storeAll
    intro e he
    obtain ⟨hne, hfile⟩ := fits_of_mem_entries he
    exact ⟨hne, hfile⟩

theorem configure_modules (h : Host) (w : Workspace) (root : Option Path) (settings : Option Settings) :
    (w.configure h root settings).1.modules = w.modules := by
  unfold configure
  dsimp only
  split <;> rfl

theorem configure_fileModules (h : Host) (w : Workspace) (root : Option Path) (settings : Option Settings) :
    (w.configure h root settings).1.fileModules = w.fileModules := by
  unfold configure
  dsimp only
  split <;> rfl

variable {allowed : Settings → Prop} {settled : Bool}

theorem Reached.isCoherent (hw : Reached allowed settled w) : w.IsCoherent := by
  induction hw with
  | new hs => exact IsEmpty.isCoherent ⟨rfl, rfl⟩
  | configure hw h root settings hs ih =>
    constructor
    · rw [configure_modules]
      exact ih.named
    · rw [configure_modules, configure_fileModules]
      exact ih.filed
    · rw [configure_modules, configure_fileModules]
      exact ih.indexed
  | scan hw h hscan ih => exact hscan.isCoherent
  | @update settled w hw h path text ih =>
    rcases update_cases w h path text with hu | ⟨e, he, hu⟩
    · rw [hu]
      exact ih
    · rw [hu]
      exact ih.store he.nonempty
  | clear hw ih => exact (isEmpty_clear _).isCoherent

theorem Reached.isCurrent (hw : Reached allowed settled w) : settled = true → w.IsCurrent := by
  induction hw with
  | new hs =>
    intro _
    exact IsEmpty.isCurrent ⟨rfl, rfl⟩
  | configure hw h root settings hs ih =>
    intro hempty
    obtain ⟨hm, hf⟩ := of_decide_eq_true hempty
    apply IsEmpty.isCurrent
    exact ⟨(configure_modules h _ _ settings).trans hm, (configure_fileModules h _ _ settings).trans hf⟩
  | scan hw h hscan ih =>
    intro _
    exact hscan.isCurrent
  | @update settled w hw h path text ih =>
    intro hs
    rcases update_cases w h path text with hu | ⟨e, he, hu⟩
    · rw [hu]
      exact ih hs
    · rw [hu]
      exact (ih hs).store he
  | clear hw ih =>
    intro _
    exact (isEmpty_clear _).isCurrent

theorem Reached.settled_of_isEmpty (hw : Reached allowed settled w) : w.IsEmpty → settled = true := by
  induction hw with
  | new hs => exact fun _ => rfl
  | configure hw h root settings hs ih =>
    rintro ⟨hm, hf⟩
    rw [configure_modules] at hm
    rw [configure_fileModules] at hf
    exact decide_eq_true ⟨hm, hf⟩
  | scan hw h hscan ih => exact fun _ => rfl
  | @update settled w hw h path text ih =>
    rcases update_cases w h path text with hu | ⟨e, -, hu⟩
    · rw [hu]
      exact ih
    · rw [hu]
      exact fun hempty => absurd hempty (not_isEmpty_store w e)
  | clear hw ih => exact fun _ => rfl

/-- In every run the two maps fit together. Settled workspaces, those with an empty index among them, also
have each file on record for the module it belongs to now, and the modules on record are those that are
indexed. -/
theorem maps_in_step (hw : Reached allowed settled w) :
    w.IsCoherent ∧ (w.IsEmpty → settled = true) ∧
      (settled = true → w.IsCurrent ∧
        ∀ m, (∃ file, w.fileModules.find? file = some m) ↔ w.modules.contains m = true) := by
  refine ⟨hw.isCoherent, hw.settled_of_isEmpty, ?_⟩
  intro hs
  refine ⟨hw.isCurrent hs, fun m => ⟨?_, ?_⟩⟩
  · rintro ⟨file, hf⟩
    exact hw.isCoherent.indexed file m hf
  · intro hm
    obtain ⟨e, he⟩ := Option.isSome_iff_exists.mp hm
    exact ⟨e.file, (hw.isCurrent hs).owns m e he⟩

theorem maps_in_step_package :
    let h : Host := default
    let opened := (({} : Workspace).configure h (some (h.absolute "/t")) none).1
    let w := ((opened.update (h.absolute "/t/d/__init__.abl") "fun f").1.update (h.absolute "/t/d.abl") "fun g").1
    Reached (fun _ => True) true w ∧ w.modules.keys = ["d"] ∧
      w.fileModules.keys = ["/t/d.abl", "/t/d/__init__.abl"] ∧ w.IsCoherent ∧ w.IsCurrent := by
  intro h opened w
  have hopened : Reached (fun _ => True) true opened :=
    (Reached.new trivial).configure h (some "/t") none (by simp)
  have hw : Reached (fun _ => True) true w :=
    (hopened.update h "/t/d/__init__.abl" "fun f").update h "/t/d.abl" "fun g"
  obtain ⟨hcoherent, -, hsettled⟩ := maps_in_step hw
  refine ⟨hw, ?_, ?_, hcoherent, (hsettled rfl).1⟩
  · unfold w opened h
    decide +kernel
  · unfold w opened h
    decide +kernel

end AbleIndex.Workspace
