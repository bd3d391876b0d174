import AbleIndex.Proofs.DiskNames
import AbleIndex.Proofs.PlainSight
import AbleIndex.Proofs.Runs

namespace AbleIndex

namespace Path

theorem isAbsolute_text {p : Path} (h : p.anchor ≠ .relative) : isAbsolute p.text = true := by
  obtain ⟨a, parts⟩ := p
  cases a with
  | relative => exact absurd rfl h
  | slash => simp [isAbsolute, text, Anchor.text]
  | doubleSlash => simp [isAbsolute, text, Anchor.text]

theorem isAbsolute_append {s : String} (h : isAbsolute s = true) (t : String) : isAbsolute (s ++ t) = true := by
  obtain ⟨cs, hs⟩ := List.head?_eq_some_iff.mp (by simpa [isAbsolute] using h)
  simp [isAbsolute, hs]

theorem segments_append_slash (s t : String) : segments (s ++ "/" ++ t) = segments s ++ segments t := by
  simp [segments, Text.pieces_append]

theorem parts_append_slash (s t : String) :
    (ofString (s ++ "/" ++ t)).parts = (ofString s).parts ++ (ofString t).parts := by
  simp only [ofString, segments_append_slash, List.filter_append]

theorem parts_join (base : String) {s : String} (hs : isAbsolute s = false) :
    (ofString (join base s)).parts = (ofString base).parts ++ (ofString s).parts := by
  unfold join
  rw [hs, if_neg Bool.false_ne_true]
  split
  · rename_i hend
    rcases hend with rfl | hend
    · rw [String.empty_append, show (ofString "").parts = [] by decide, List.nil_append]
    · -- the slash that ends the path text separates the two
      obtain ⟨init, hinit⟩ := List.getLast?_eq_some_iff.mp hend
      have hbase : base = String.ofList init ++ "/" := by
        rw [← String.toList_inj, hinit]
        simp
      have hslash := parts_append_slash (String.ofList init) ""
      rw [String.append_empty, show (ofString "").parts = [] by decide, List.append_nil] at hslash
      rw [hbase, parts_append_slash, hslash]
  · exact parts_append_slash base s

theorem isResolved_join {base : Path} (hbase : base.IsResolved) {s : String} (hs : isAbsolute s = false)
    (hdots : ".." ∉ (ofString s).parts) : (ofString (join base.text s)).IsResolved where
  absolute := by
    apply isAbsolute_iff.mp
    have habs := isAbsolute_text hbase.absolute
    unfold join
    rw [hs, if_neg Bool.false_ne_true]
    split
    · exact isAbsolute_append habs s
    · exact isAbsolute_append (isAbsolute_append habs "/") s
  proper := isProper_ofString _
  climbed hp := by
    rw [parts_join base.text hs, ofString_text hbase.proper] at hp
    rcases List.mem_append.mp hp with hp | hp
    · exact hbase.climbed hp
    · exact hdots hp

end Path

theorem forall₂_of_mapM {α β ε : Type} {f : α → Except ε β} {as : List α} {bs : List β}
    (h : as.mapM f = .ok bs) : List.Forall₂ (fun a b => f a = .ok b) as bs := by
  induction as generalizing bs with
  | nil =>
    rw [List.mapM_nil] at h
    cases h
    exact .nil
  | cons a as ih =>
    rw [List.mapM_cons] at h
    cases ha : f a with
    | error e => simp [ha, bind, Except.bind] at h
    | ok c =>
      cases hs : as.mapM f with
      | error e => simp [ha, hs, bind, Except.bind] at h
      | ok cs =>
        simp only [ha, hs, bind, Except.bind, pure, Except.pure, Except.ok.injEq] at h
        subst h
        exact .cons ha (ih hs)

theorem exists_of_mem_mapM {α β ε : Type} {f : α → Except ε β} {as : List α} {bs : List β}
    (h : as.mapM f = .ok bs) {b : β} (hb : b ∈ bs) : ∃ a ∈ as, f a = .ok b := by
  have hrelated := forall₂_of_mapM h
  clear h
  induction hrelated with
  | nil => cases hb
  | @cons a _ as _ ha _ ih =>
    rcases List.mem_cons.mp hb with rfl | hb
    · exact ⟨a, List.mem_cons_self, ha⟩
    · obtain ⟨other, ho, hf⟩ := ih hb
      exact ⟨other, List.mem_cons_of_mem a ho, hf⟩

namespace Host

variable {h : Host}

theorem libraryRoot?_eq_some {s : Settings} {root : Path} {lib : String} :
    h.libraryRoot? s root = some lib ↔ h.isDirectory lib = true ∧ Path.join root.text s.libraryDir = lib := by
  simp only [libraryRoot?, Option.ite_none_right_eq_some, Option.some.injEq]
  constructor
  · rintro ⟨hdir, rfl⟩
    exact ⟨hdir, rfl⟩
  · rintro ⟨hdir, rfl⟩
    exact ⟨hdir, rfl⟩

theorem isResolved_configuredRoot {workspace : Option Path} {s : String} {p : Path}
    (hp : h.configuredRoot workspace s = .ok p) : p.IsResolved := by
  unfold configuredRoot at hp
  split at hp
  · cases hp
  · rw [Except.ok.injEq] at hp
    subst hp
    split <;> exact h.isResolved_absolute _
  · rw [Except.ok.injEq] at hp
    exact hp ▸ h.isResolved_absolute _

theorem isResolved_of_mem_searchRoots {s : Settings} {workspace : Option Path} {roots : List Path}
    (hlib : s.libraryDir = "lib") (hw : ∀ p ∈ workspace, p.IsResolved) (hr : h.searchRoots s workspace = .ok roots)
    {root : Path} (hroot : root ∈ roots) : root.IsResolved := by
  unfold searchRoots searchRootTexts at hr
  cases hc : (s.searchPaths ++ s.variablePaths h.env).mapM (h.configuredRoot workspace) with
  | error e => simp [hc, bind, Except.bind, Except.map] at hr
  | ok configured =>
    simp only [hc, bind, Except.bind, pure, Except.pure, Except.map, Except.ok.injEq] at hr
    subst hr
    obtain ⟨text, htext, rfl⟩ := List.mem_map.mp hroot
    rcases List.mem_append.mp (List.mem_eraseDups.mp htext) with htext | htext
    · cases workspace with
      | none => cases htext
      | some p =>
        have hp := hw p rfl
        rcases List.mem_cons.mp htext with rfl | htext
        · rw [Path.ofString_text hp.proper]
          exact hp
        · obtain ⟨-, rfl⟩ := libraryRoot?_eq_some.mp (Option.mem_toList.mp htext)
          rw [hlib]
          exact Path.isResolved_join hp (by decide) (by decide)
    · obtain ⟨p, hp, rfl⟩ := List.mem_map.mp (List.mem_filter.mp htext).1
      obtain ⟨raw, -, hraw⟩ := exists_of_mem_mapM hc hp
      have hresolved := isResolved_configuredRoot hraw
      rw [Path.ofString_text hresolved.proper]
      exact hresolved

theorem isResolved_of_mem_sourceFiles {s : Settings} {root p : Path} (hd : h.disk.IsProper) (hr : root.IsResolved)
    (hp : p ∈ h.sourceFiles s root.text) : p.IsResolved := by
  obtain ⟨loc, dirs, name, -, -, rfl, hsight⟩ := mem_sourceFiles.mp hp
  have hentry := hd _ (Disk.mem_keys_concat.mpr hsight.source.entry)
  rw [List.append_assoc] at hentry
  have hbelow : Path.IsResolved ⟨.slash, dirs ++ [name]⟩ :=
    hentry.of_subset (by decide) (List.subset_append_right loc (dirs ++ [name]))
  rw [Path.ofString_text hr.proper]
  exact hr.append hbelow

end Host

namespace Workspace

variable {h : Host} {w w' : Workspace}

/-- The workspace and all search roots are absolute paths without dots, and stay so when they are looked up
anew. -/
structure IsAnchored (w : Workspace) : Prop where
  libraryDir : w.settings.libraryDir = "lib"
  root : ∀ p ∈ w.root, p.IsResolved
  searchRoots : ∀ p ∈ w.searchRoots, p.IsResolved

theorem IsAnchored.congr (hw : w.IsAnchored) (hc : w'.clear = w.clear) : w'.IsAnchored := by
  have hclear : w.clear.IsAnchored := ⟨hw.libraryDir, hw.root, hw.searchRoots⟩
  rw [← hc] at hclear
  exact ⟨hclear.libraryDir, hclear.root, hclear.searchRoots⟩

theorem IsAnchored.configure (hw : w.IsAnchored) (h : Host) {root : Option Path} {settings : Option Settings}
    (hroot : ∀ p ∈ root, p.IsResolved) (hs : ∀ s ∈ settings, s.libraryDir = "lib") :
    (w.configure h root settings).1.IsAnchored := by
  have hlib : (settings.getD w.settings).libraryDir = "lib" := by
    cases settings with
    | none => exact hw.libraryDir
    | some s => exact hs s rfl
  have hor : ∀ p ∈ root.or w.root, p.IsResolved := by
    cases root with
    | none => exact hw.root
    | some p => exact hroot
  unfold Workspace.configure
  dsimp only
  split
  · rename_i roots hr
    exact ⟨hlib, hor, fun p hp => Host.isResolved_of_mem_searchRoots hlib hor hr hp⟩
  · exact ⟨hlib, hor, hw.searchRoots⟩

theorem Scans.clear_eq (hscan : Scans h w w') : w'.clear = w.clear := by
  cases hscan with
  | completed hs ho => exact clear_storeAll _ w.clear
  | failed hs => rfl

theorem Reached.isAnchored {allowed : Settings → Prop} {settled : Bool} (hw : Reached allowed settled w)
    (hlib : ∀ s, allowed s → s.libraryDir = "lib") : w.IsAnchored := by
  induction hw with
  | new hs => exact ⟨hlib _ hs, nofun, nofun⟩
  | configure hw h root settings hs ih =>
    apply ih.configure h
    · intro p hp
      obtain ⟨s, -, rfl⟩ := Option.map_eq_some_iff.mp hp
      exact h.isResolved_absolute s
    · intro s hmem
      exact hlib s (hs s hmem)
  | scan hw h hscan ih => exact ih.congr hscan.clear_eq
  | @update settled w hw h path text ih =>
    rcases update_cases w h path text with hu | ⟨e, -, hu⟩
    · rw [hu]
      exact ih
    · rw [hu]
      exact ih.congr rfl
  | clear hw ih => exact ih.congr rfl

theorem IsAnchored.isResolved_of_mem_sourceFiles (hw : w.IsAnchored) (hd : h.disk.IsProper) {p : Path}
    (hp : p ∈ w.sourceFiles h) : p.IsResolved := by
  obtain ⟨root, hroot, hp⟩ := List.mem_flatMap.mp (List.mem_eraseDups.mp hp)
  exact Host.isResolved_of_mem_sourceFiles hd (hw.searchRoots root hroot) hp

end Workspace

end AbleIndex
