import AbleIndex.Proofs.CommandLines
import AbleIndex.Proofs.FailedRequests
import AbleIndex.Proofs.ModuleNames
import AbleIndex.Proofs.Printing
import AbleIndex.Proofs.Rescan
import AbleIndex.Proofs.SearchOrder
import AbleIndex.Proofs.Sessions

namespace AbleIndex

namespace Host

variable {h : Host} {s : Settings} {workspace : Option Path}

theorem exists_searchRoots (hentries : ∀ entry ∈ s.searchPaths ++ s.variablePaths h.env, ¬ NamesImpossibleUser entry)
    (workspace : Option Path) : ∃ roots, h.searchRoots s workspace = .ok roots := by
  rw [searchRoots_eq]
  cases hm : (s.searchPaths ++ s.variablePaths h.env).mapM (h.configuredRoot workspace) with
  | ok configured => exact ⟨_, rfl⟩
  | error e =>
    obtain ⟨entry, hentry, he⟩ := exists_of_mapM_error hm
    exact absurd (configuredRoot_error he) (hentries entry hentry)

theorem not_namesImpossibleUser {entry : String} {p : Path} (hp : h.configuredRoot workspace entry = .ok p) :
    ¬ NamesImpossibleUser entry := by
  intro hname
  unfold configuredRoot at hp
  rw [expandHome?_eq_none.mpr hname] at hp
  cases hp

theorem searchRoots_of_impossibleUser {entry : String} (hentry : entry ∈ s.searchPaths ++ s.variablePaths h.env)
    (he : NamesImpossibleUser entry) (workspace : Option Path) : ∃ e, h.searchRoots s workspace = .error e := by
  rw [searchRoots_eq]
  cases hm : (s.searchPaths ++ s.variablePaths h.env).mapM (h.configuredRoot workspace) with
  | error e => exact ⟨e, rfl⟩
  | ok configured =>
    obtain ⟨hpossible, -⟩ := (List.forall₂_and_left _ _).mp
      ((forall₂_of_mapM hm).imp fun _ _ hp => ⟨not_namesImpossibleUser hp, hp⟩)
    exact absurd he (hpossible entry hentry)

theorem isUsable_of_lookup {t : String} {n : Node} (hl : h.lookup t = .ok n) : Path.isUsable t = true := by
  obtain ⟨loc, hloc, -⟩ := exists_locate hl
  unfold Disk.locate at hloc
  split at hloc
  · cases hloc
  split at hloc
  · cases hloc
  · rename_i husable
    exact not_not.mp husable

theorem isUsable_of_mem_searchRoots {p root : Path} {roots : List Path} (hp : p.IsResolved)
    (hl : h.lookup p.text = .ok .directory) (hr : h.searchRoots s (some p) = .ok roots) (hroot : root ∈ roots) :
    Path.isUsable root.text = true := by
  rw [searchRoots_eq] at hr
  cases hm : (s.searchPaths ++ s.variablePaths h.env).mapM (h.configuredRoot (some p)) with
  | error e => simp [hm, Except.map] at hr
  | ok configured =>
    simp only [hm, Except.map, Except.ok.injEq] at hr
    have hlist : ∃ later, (h.rootTexts s (some p) configured).eraseDups.map Path.ofString = (some p).toList ++ later ∧
        ∀ q ∈ later, h.isDirectory q.text = true := by
      apply eraseDups_rootTexts
      rintro q ⟨⟩
      exact hp
    obtain ⟨later, hroots, hlater⟩ := hlist
    rw [← hr, hroots] at hroot
    rcases List.mem_append.mp hroot with hroot | hroot
    -- the workspace is a directory as the roots behind it are
    · rw [Option.toList_some, List.mem_singleton] at hroot
      rw [hroot]
      exact isUsable_of_lookup hl
    · exact isUsable_of_lookup (lookup_of_isDirectory (hlater root hroot))

theorem lookup_ofString {t : String} {n : Node} (hl : h.lookup t = .ok n) : h.lookup (Path.ofString t).text = .ok n := by
  obtain ⟨loc, hloc, hnode⟩ := exists_locate hl
  rw [lookup, Disk.lookup, Disk.locate_ofString hloc]
  simp [hnode, bind, Except.bind]

end Host

def IsText (bytes : ByteArray) : Prop := (String.fromUTF8? bytes).isSome = true

theorem Host.isText_iff {h : Host} {s : String} {bytes : ByteArray} (hl : h.lookup s = .ok (.file bytes)) :
    IsText bytes ↔ h.readText s ≠ .error .undecodable := by
  rw [IsText, readText, hl]
  simp only [decode]
  cases String.fromUTF8? bytes <;> simp

namespace Workspace

variable {h : Host} {w : Workspace} {p : Path} {bytes : ByteArray}

theorem index_of_directory (hp : p.IsResolved) (hl : h.lookup p.text = .ok .directory)
    (hentries : ∀ entry ∈ w.settings.searchPaths ++ w.settings.variablePaths h.env, ¬ NamesImpossibleUser entry)
    (hreads : 0 ≤ w.settings.concurrentReads) : ∃ w' report, w.index h (some p.text) = (w', .ok report) := by
  obtain ⟨roots, hroots⟩ := Host.exists_searchRoots hentries (some p)
  have ho : w.openRoot h (some p.text) = ({ w with root := some p, searchRoots := roots }, .ok ()) := by
    rw [openRoot, Path.ofString_text hp.proper]
    simp only [hl, Host.absolute_text hp h, configure, Option.some_or, Option.getD_none, hroots]
    rfl
  generalize hw₁ : ({ w with root := some p, searchRoots := roots } : Workspace) = w₁ at ho
  have hlisting : w₁.listing? h = some (w₁.sourceFiles h) := by
    rw [listing?_eq, if_pos]
    rw [List.all_eq_true]
    intro text htext
    obtain ⟨root, hroot, rfl⟩ := List.mem_map.mp htext
    rw [← hw₁] at hroot
    exact Host.isUsable_of_mem_searchRoots hp hl hroots hroot
  have hscan := scan_of_listing? (by rw [← hw₁]; exact hreads) hlisting
  rw [(index_of_openRoot_ok ho).1, rescan, hscan]
  exact ⟨_, _, rfl⟩

theorem index_of_tooLong (hp : p.IsResolved) (hl : h.lookup p.text = .error .nameTooLong) :
    w.index h (some p.text) = (w, .error .nameTooLong) := by
  have ho : w.openRoot h (some p.text) = (w, .error .nameTooLong) := by
    rw [openRoot, Path.ofString_text hp.proper]
    simp only [hl]
  exact (index_of_openRoot_error ho).1

theorem textOf_of_isText {path : String} (hl : h.lookup (Path.ofString path).text = .ok (.file bytes))
    (ht : IsText bytes) : ∃ text, textOf h path none = .ok text := by
  obtain ⟨source, hsource⟩ := Option.isSome_iff_exists.mp ht
  rw [textOf, Host.read, Host.readText, hl]
  simp only [Host.decode, hsource]
  exact ⟨_, rfl⟩

theorem textOf_of_not_isText {path : String} (hl : h.lookup (Path.ofString path).text = .ok (.file bytes))
    (ht : ¬ IsText bytes) : textOf h path none = .error (.unreadable .undecodable) := by
  have hnone : String.fromUTF8? bytes = none := by simpa [IsText] using ht
  rw [textOf, Host.read, Host.readText, hl]
  simp only [Host.decode, hnone]

end Workspace

namespace Invocation

variable {h : Host} {i : Invocation} {w : Workspace} {file : String} {root : Option String} {bytes : ByteArray}

/-- No search path is said to be in the home of a user who cannot exist, and a log level that is to be set is none of
the two names that the log keeps for other things. -/
structure Starts (i : Invocation) (h : Host) : Prop where
  users : ∀ entry ∈ (i.settings h).searchPaths ++ (i.settings h).variablePaths h.env, ¬ NamesImpossibleUser entry
  level : logs i.command = true → i.verbose = false → (i.settings h).logLevel ∉ ["BASIC_FORMAT", "_STYLES"]

theorem checkLogLevel_eq_ok {name : String} : checkLogLevel name = .ok () ↔ name ∉ ["BASIC_FORMAT", "_STYLES"] := by
  unfold checkLogLevel
  split_ifs with htext htable
  · simp [htext]
  · simp [htable]
  · simp [htext, htable]

theorem setLogLevel_eq_ok {s : Settings} : i.setLogLevel s = .ok () ↔
    (logs i.command = true → i.verbose = false → s.logLevel ∉ ["BASIC_FORMAT", "_STYLES"]) := by
  unfold setLogLevel
  cases logs i.command <;> cases i.verbose <;> simp [checkLogLevel_eq_ok]

theorem validate_settings (i : Invocation) (h : Host) : (i.settings h).validate = .ok () := by
  have hextension : (i.settings h).sourceExtension = ".abl" := rfl
  have hpackage : (i.settings h).packageFile = "__init__.abl" := rfl
  have hsource : (i.settings h).isSourceName "__init__.abl" = true := by
    rw [Settings.isSourceName, hextension]
    decide
  have hreads : (i.settings h).concurrentReads = 32 := rfl
  have hsize : (i.settings h).maxFileMegabytes = none := rfl
  rw [Settings.validate_eq_ok, hextension, hpackage, hreads, hsize]
  exact ⟨by decide, hsource, by decide, by simp⟩

theorem prepare_of_named (hn : i.command.named ≠ []) (s : Settings) : i.prepare h s =
    ((Workspace.new h s).mapError fun e => .failure (.rootsUnknown e)) <* (i.setLogLevel s).mapError .logLevel := by
  unfold prepare
  cases hc : i.command with
  | index root format => rfl
  | symbols file root format => rfl
  | complete file line column root format => rfl
  | version => exact absurd (by rw [hc]; rfl) hn
  | help => exact absurd (by rw [hc]; rfl) hn
  | watch root => rfl
  | serve transport => exact absurd (by rw [hc]; rfl) hn

theorem run_of_starts (hi : i.Starts h) (hn : i.command.named ≠ []) :
    ∃ w, w.settings = i.settings h ∧ i.run h = perform h w i.command := by
  obtain ⟨roots, hroots⟩ := Host.exists_searchRoots hi.users none
  have hlevel := setLogLevel_eq_ok.mpr hi.level
  have hprepare : i.prepare h (i.settings h) = .ok { settings := i.settings h, searchRoots := roots } := by
    rw [prepare_of_named hn, Workspace.new, hroots, hlevel]
    rfl
  refine ⟨{ settings := i.settings h, searchRoots := roots }, rfl, ?_⟩
  unfold run
  dsimp only
  rw [validate_settings, hprepare]

theorem run_of_not_starts (hi : ¬ i.Starts h) (hn : i.command.named ≠ []) : ∃ e, i.run h = .aborted e := by
  have hprepare : ∃ e, i.prepare h (i.settings h) = .error e := by
    rw [prepare_of_named hn, Workspace.new]
    by_cases husers : ∀ entry ∈ (i.settings h).searchPaths ++ (i.settings h).variablePaths h.env,
        ¬ NamesImpossibleUser entry
    · obtain ⟨roots, hroots⟩ := Host.exists_searchRoots husers none
      cases hlevel : i.setLogLevel (i.settings h) with
      | ok u => exact absurd ⟨husers, setLogLevel_eq_ok.mp hlevel⟩ hi
      | error e =>
        rw [hroots]
        exact ⟨_, rfl⟩
    · push Not at husers
      obtain ⟨entry, hentry, hname⟩ := husers
      obtain ⟨e, he⟩ := Host.searchRoots_of_impossibleUser hentry hname none
      rw [he]
      exact ⟨_, rfl⟩
  obtain ⟨e, he⟩ := hprepare
  refine ⟨e, ?_⟩
  unfold run
  dsimp only
  rw [validate_settings, he]

theorem index_of_starts {p : Path} (hi : i.Starts h) (hw : w.settings = i.settings h) (hp : p.IsResolved)
    (hl : h.lookup p.text = .ok .directory) : ∃ w' report, w.index h (some p.text) = (w', .ok report) := by
  have hreads : w.settings.concurrentReads = 32 := by
    rw [hw]
    rfl
  refine Workspace.index_of_directory hp hl ?_ (by omega)
  rw [hw]
  exact hi.users

theorem index_cases {directory : String} (hs : h.IsSound) (hi : i.Starts h) (hw : w.settings = i.settings h)
    (hl : h.lookup directory = .ok .directory) :
    (h.Fits directory ∧ ∃ w' report, w.index h (some (h.realPath directory).text) = (w', .ok report)) ∨
      ¬ h.Fits directory ∧ w.index h (some (h.realPath directory).text) = (w, .error .nameTooLong) := by
  obtain ⟨hp, hshort, hlong⟩ := hs.lookup_realPath hl
  by_cases hfits : h.Fits directory
  · exact .inl ⟨hfits, index_of_starts hi hw hp (hshort hfits)⟩
  · exact .inr ⟨hfits, Workspace.index_of_tooLong hp (hlong hfits)⟩

theorem runIndex_cases {directory : String} (hs : h.IsSound) (hi : i.Starts h) (hw : w.settings = i.settings h)
    (hl : h.lookup directory = .ok .directory) (format : Format) :
    h.Fits directory ∧ (runIndex h w directory format).exitCode = 0 ∨
      ¬ h.Fits directory ∧ runIndex h w directory format = .aborted (.failure .nameTooLong) := by
  unfold runIndex
  obtain ⟨hfits, w', report, hindex⟩ | ⟨hlong, hindex⟩ := index_cases hs hi hw hl
  · rw [hindex]
    exact .inl ⟨hfits, rfl⟩
  · rw [hindex]
    exact .inr ⟨hlong, rfl⟩

theorem runWatch_cases {directory : String} (hs : h.IsSound) (hi : i.Starts h) (hw : w.settings = i.settings h)
    (hl : h.lookup directory = .ok .directory) :
    h.Fits directory ∧ (runWatch h w directory).exitCode = 0 ∨
      ¬ h.Fits directory ∧ runWatch h w directory = .aborted (.failure .nameTooLong) := by
  unfold runWatch
  obtain ⟨hfits, w', report, hindex⟩ | ⟨hlong, hindex⟩ := index_cases hs hi hw hl
  · rw [hindex]
    exact .inl ⟨hfits, rfl⟩
  · rw [hindex]
    exact .inr ⟨hlong, rfl⟩

theorem exists_configure (hi : i.Starts h) (hw : w.settings = i.settings h) (workspace : Option Path) :
    ∃ w', w.configure h workspace none = (w', .ok ()) := by
  obtain ⟨roots, hroots⟩ := Host.exists_searchRoots hi.users (workspace.or w.root)
  unfold Workspace.configure
  dsimp only
  rw [Option.getD_none, hw, hroots]
  exact ⟨_, rfl⟩

theorem runSymbols_cases (hi : i.Starts h) (hw : w.settings = i.settings h) (hl : h.lookup file = .ok (.file bytes))
    (format : Format) :
    IsText bytes ∧ (runSymbols h w file root format).exitCode = 0 ∨
      ¬ IsText bytes ∧ runSymbols h w file root format = .failed ("Error: cannot read " ++ file) := by
  obtain ⟨w', hw'⟩ := exists_configure hi hw (root.map h.realPath)
  rw [runSymbols, hw', Workspace.symbolsOf]
  by_cases ht : IsText bytes
  · obtain ⟨text, htext⟩ := Workspace.textOf_of_isText (Host.lookup_ofString hl) ht
    rw [htext]
    exact .inl ⟨ht, rfl⟩
  · rw [Workspace.textOf_of_not_isText (Host.lookup_ofString hl) ht]
    exact .inr ⟨ht, rfl⟩

theorem lookup_indexedRoot (hs : h.IsSound) (hl : h.lookup file = .ok (.file bytes))
    (hroot : ∀ r ∈ root, h.lookup r = .ok .directory) :
    (indexedRoot h file root).IsResolved ∧
      ((∀ s ∈ file :: root.toList, h.Fits s) → h.lookup (indexedRoot h file root).text = .ok .directory) ∧
      (h.lookup (indexedRoot h file root).text = .ok .directory ∧ (∀ r ∈ root, h.Fits r) ∨
        h.lookup (indexedRoot h file root).text = .error .nameTooLong) := by
  cases root with
  | none =>
    obtain ⟨hp, hfits, hcases⟩ := hs.lookup_parent hl
    exact ⟨hp, fun hall => hfits (hall file List.mem_cons_self), hcases.imp_left fun hdir => ⟨hdir, nofun⟩⟩
  | some r =>
    obtain ⟨hp, hfits, hlong⟩ := hs.lookup_realPath (hroot r rfl)
    refine ⟨hp, fun hall => hfits (hall r (by simp)), ?_⟩
    by_cases hr : h.Fits r
    · exact .inl ⟨hfits hr, by rintro _ ⟨⟩; exact hr⟩
    · exact .inr (hlong hr)

theorem runComplete_of_text {w' : Workspace} {report : ScanReport} {text : String}
    (hindex : w.index h (some (indexedRoot h file root).text) = (w', .ok report))
    (htext : Workspace.textOf h (h.realPath file).text none = .ok text) (line column : Nat) (format : Format) :
    (runComplete h w file line column root format).exitCode = 0 := by
  rw [runComplete_eq, hindex]
  simp only [Workspace.completeAt, htext]
  rfl

theorem runComplete_of_no_text {w' : Workspace} {report : ScanReport} {f : Failure}
    (hindex : w.index h (some (indexedRoot h file root).text) = (w', .ok report))
    (htext : Workspace.textOf h (h.realPath file).text none = .error f) (line column : Nat) (format : Format) :
    runComplete h w file line column root format = failure (some file) f := by
  rw [runComplete_eq, hindex]
  simp only [Workspace.completeAt, htext]

theorem runComplete_cases (hs : h.IsSound) (hi : i.Starts h) (hw : w.settings = i.settings h)
    (hl : h.lookup file = .ok (.file bytes)) (hroot : ∀ r ∈ root, h.lookup r = .ok .directory) (line column : Nat)
    (format : Format) :
    ((∀ s ∈ file :: root.toList, h.Fits s) ∧ IsText bytes) ∧
        (runComplete h w file line column root format).exitCode = 0 ∨
      ¬ ((∀ s ∈ file :: root.toList, h.Fits s) ∧ IsText bytes) ∧
        runComplete h w file line column root format = .failed ("Error: cannot read " ++ file) := by
  obtain ⟨hp, hfits, ⟨hdir, hrootFits⟩ | hlong⟩ := lookup_indexedRoot hs hl hroot
  · obtain ⟨w', report, hindex⟩ := index_of_starts hi hw hp hdir
    obtain ⟨hreal, hshort, htooLong⟩ := hs.lookup_realPath hl
    by_cases hfile : h.Fits file
    · have hread : h.lookup (Path.ofString (h.realPath file).text).text = .ok (.file bytes) := by
        rw [Path.ofString_text hreal.proper]
        exact hshort hfile
      by_cases ht : IsText bytes
      · obtain ⟨text, htext⟩ := Workspace.textOf_of_isText hread ht
        refine .inl ⟨⟨?_, ht⟩, runComplete_of_text hindex htext line column format⟩
        simpa using ⟨hfile, hrootFits⟩
      · have htext := Workspace.textOf_of_not_isText hread ht
        exact .inr ⟨fun hall => ht hall.2, runComplete_of_no_text hindex htext line column format⟩
    · have htext : Workspace.textOf h (h.realPath file).text none = .error (.unreadable (.lookup .nameTooLong)) := by
        rw [Workspace.textOf, Host.read, Path.ofString_text hreal.proper, Host.readText, htooLong hfile]
      exact .inr ⟨fun hall => hfile (hall.1 file List.mem_cons_self),
        runComplete_of_no_text hindex htext line column format⟩
  · refine .inr ⟨fun hall => ?_, ?_⟩
    · have hdir := hfits hall.1
      rw [hlong] at hdir
      cases hdir
    · rw [runComplete_eq, Workspace.index_of_tooLong hp hlong]
      rfl

/-- A command whose outcome, once it has started, is decided by a condition ends well exactly if it starts and the
condition holds. -/
theorem exitCode_run {condition : Prop} (failed : Answer) (hn : i.command.named ≠ []) (hfailed : failed.exitCode ≠ 0)
    (hcases : i.Starts h → ∀ w : Workspace, w.settings = i.settings h →
      condition ∧ (perform h w i.command).exitCode = 0 ∨ ¬ condition ∧ perform h w i.command = failed) :
    ((i.run h).exitCode = 0 ↔ i.Starts h ∧ condition) ∧
      (i.Starts h → (i.run h).exitCode ≠ 0 → i.run h = failed) := by
  by_cases hi : i.Starts h
  · obtain ⟨w, hw, hrun⟩ := run_of_starts hi hn
    rw [hrun]
    obtain ⟨hholds, hcode⟩ | ⟨hfails, hanswer⟩ := hcases hi w hw
    · exact ⟨iff_of_true hcode ⟨hi, hholds⟩, fun _ hne => absurd hcode hne⟩
    · refine ⟨iff_of_false ?_ fun hall => hfails hall.2, fun _ _ => hanswer⟩
      rwa [hanswer]
  · obtain ⟨e, he⟩ := run_of_not_starts hi hn
    rw [he]
    exact ⟨iff_of_false Nat.one_ne_zero fun hall => hi hall.1, fun h => absurd h hi⟩

theorem run_index (hs : h.IsSound) {directory : String} {format : Format} (hc : i.command = .index directory format)
    (hl : h.lookup directory = .ok .directory) : (i.run h).exitCode = 0 ↔ i.Starts h ∧ h.Fits directory := by
  refine (exitCode_run (.aborted (.failure .nameTooLong)) ?_ Nat.one_ne_zero fun hi w hw => ?_).1
  · rw [hc]
    exact List.cons_ne_nil _ _
  · rw [hc]
    exact runIndex_cases hs hi hw hl format

theorem run_watch (hs : h.IsSound) {directory : String} (hc : i.command = .watch directory)
    (hl : h.lookup directory = .ok .directory) : (i.run h).exitCode = 0 ↔ i.Starts h ∧ h.Fits directory := by
  refine (exitCode_run (.aborted (.failure .nameTooLong)) ?_ Nat.one_ne_zero fun hi w hw => ?_).1
  · rw [hc]
    exact List.cons_ne_nil _ _
  · rw [hc]
    exact runWatch_cases hs hi hw hl

theorem run_symbols {format : Format} (hc : i.command = .symbols file root format)
    (hl : h.lookup file = .ok (.file bytes)) :
    ((i.run h).exitCode = 0 ↔ i.Starts h ∧ IsText bytes) ∧
      (i.Starts h → (i.run h).exitCode ≠ 0 → i.run h = .failed ("Error: cannot read " ++ file)) := by
  refine exitCode_run _ ?_ Nat.one_ne_zero fun hi w hw => ?_
  · rw [hc]
    exact List.cons_ne_nil _ _
  · rw [hc]
    exact runSymbols_cases hi hw hl format

theorem run_complete (hs : h.IsSound) {line column : Nat} {format : Format}
    (hc : i.command = .complete file line column root format) (hl : h.lookup file = .ok (.file bytes))
    (hroot : ∀ r ∈ root, h.lookup r = .ok .directory) :
    ((i.run h).exitCode = 0 ↔ i.Starts h ∧ (∀ s ∈ file :: root.toList, h.Fits s) ∧ IsText bytes) ∧
      (i.Starts h → (i.run h).exitCode ≠ 0 → i.run h = .failed ("Error: cannot read " ++ file)) := by
  refine exitCode_run _ ?_ Nat.one_ne_zero fun hi w hw => ?_
  · rw [hc]
    exact List.cons_ne_nil _ _
  · rw [hc]
    exact runComplete_cases hs hi hw hl hroot line column format

end Invocation

theorem Answer.exitCode_cases {c : Command} {a : Answer} (ha : c.CanGive a) : a.exitCode = 0 ∨ a.exitCode = 1 := by
  cases a with
  | usageError => cases ha
  | failed message => exact .inr rfl
  | aborted e => exact .inr rfl
  | version => exact .inl rfl
  | help => exact .inl rfl
  | indexed report modules format => exact .inl rfl
  | symbols table moduleName format => exact .inl rfl
  | candidates items format => exact .inl rfl
  | serving transport => exact .inl rfl
  | watching modules => exact .inl rfl

namespace Host

structure EndsByFile (h : Host) (i : Invocation) (columns : Nat) (elapsed : Float) (a : Answer) : Prop where
  index {directory : String} {format : Format} (hc : i.command = .index directory format) :
    h.exitCode columns elapsed a = 0 ↔ (i.Starts h ∧ h.Fits directory) ∧ h.PrintsAll columns elapsed a
  watch {directory : String} (hc : i.command = .watch directory) :
    h.exitCode columns elapsed a = 0 ↔ (i.Starts h ∧ h.Fits directory) ∧ h.PrintsAll columns elapsed a
  symbols {file : String} {root : Option String} {format : Format} (hc : i.command = .symbols file root format) :
    ∃ bytes, h.lookup file = .ok (.file bytes) ∧
      (h.exitCode columns elapsed a = 0 ↔ (i.Starts h ∧ IsText bytes) ∧ h.PrintsAll columns elapsed a) ∧
      (h.exitCode columns elapsed a ≠ 0 → h.output columns elapsed a = "" ∧
        (i.Starts h → h.PrintsAll columns elapsed a → a = .failed ("Error: cannot read " ++ file)))
  complete {file : String} {line column : Nat} {root : Option String} {format : Format}
    (hc : i.command = .complete file line column root format) :
    ∃ bytes, h.lookup file = .ok (.file bytes) ∧
      (h.exitCode columns elapsed a = 0 ↔
        (i.Starts h ∧ (∀ s ∈ file :: root.toList, h.Fits s) ∧ IsText bytes) ∧ h.PrintsAll columns elapsed a) ∧
      (h.exitCode columns elapsed a ≠ 0 → h.output columns elapsed a = "" ∧
        (i.Starts h → h.PrintsAll columns elapsed a → a = .failed ("Error: cannot read " ++ file)))
  ends : h.exitCode columns elapsed a = 0 ∨ h.exitCode columns elapsed a = 1
  silent : h.PrintsAll columns elapsed a → h.exitCode columns elapsed a ≠ 0 → h.output columns elapsed a = ""
  whole : h.exitCode columns elapsed a = 0 → h.output columns elapsed a = a.output columns elapsed
  prints : (∀ c, h.encodes c = true) ∨
    i.command.reportFormat? = some .json ∧ (∀ c : Char, c.toNat < 0x80 → h.encodes c = true) →
      h.PrintsAll columns elapsed a

variable {h : Host} {args : List String} {i : Invocation} {a : Answer} {columns : Nat} {elapsed : Float}

theorem ends_of_run {condition : Prop} {file : String} (hindex : ∀ root format, i.command ≠ .index root format)
    (hwatch : ∀ root, i.command ≠ .watch root)
    (hrun : ((i.run h).exitCode = 0 ↔ condition) ∧
      (i.Starts h → (i.run h).exitCode ≠ 0 → i.run h = .failed ("Error: cannot read " ++ file)))
    (columns : Nat) (elapsed : Float) :
    (h.exitCode columns elapsed (i.run h) = 0 ↔ condition ∧ h.PrintsAll columns elapsed (i.run h)) ∧
      (h.exitCode columns elapsed (i.run h) ≠ 0 → h.output columns elapsed (i.run h) = "" ∧
        (i.Starts h → h.PrintsAll columns elapsed (i.run h) → i.run h = .failed ("Error: cannot read " ++ file))) := by
  obtain ⟨hzero, hfailed⟩ := hrun
  refine ⟨by rw [exitCode_eq_zero, hzero], fun hcode => ⟨?_, fun hi hprints => ?_⟩⟩
  · exact output_of_length_messages (Command.length_messages (i.canGive_run h) hindex hwatch columns elapsed) hcode
  · exact hfailed hi fun ha => hcode (exitCode_eq_zero.mpr ⟨ha, hprints⟩)

theorem endsByFile_execute (hs : h.IsSound) (ha : Invocation.ofArguments h args = .ok i) (columns : Nat)
    (elapsed : Float) : EndsByFile h i columns elapsed (h.execute args) := by
  have hrun : h.execute args = i.run h := by rw [execute, ha]
  have hsuits := Command.suits_of_ofArguments hs ha
  have hcode := Answer.exitCode_cases (i.canGive_run h)
  rw [hrun]
  refine ⟨?_, ?_, ?_, ?_, ?_, ?_, ?_, printsAll_run columns elapsed⟩
  · intro directory format hc
    rw [hc] at hsuits
    rw [exitCode_eq_zero, Invocation.run_index hs hc hsuits]
  · intro directory hc
    rw [hc] at hsuits
    rw [exitCode_eq_zero, Invocation.run_watch hs hc hsuits]
  · intro file root format hc
    rw [hc] at hsuits
    obtain ⟨⟨n, hl, hn⟩, -⟩ := hsuits
    obtain ⟨bytes, rfl⟩ := hs.exists_bytes hl hn
    refine ⟨bytes, hl, ends_of_run ?_ ?_ (Invocation.run_symbols hc hl) columns elapsed⟩
    · rw [hc]
      exact nofun
    · rw [hc]
      exact nofun
  · intro file line column root format hc
    rw [hc] at hsuits
    obtain ⟨⟨n, hl, hn⟩, hroot⟩ := hsuits
    obtain ⟨bytes, rfl⟩ := hs.exists_bytes hl hn
    refine ⟨bytes, hl, ends_of_run ?_ ?_ (Invocation.run_complete hs hc hl hroot) columns elapsed⟩
    · rw [hc]
      exact nofun
    · rw [hc]
      exact nofun
  · unfold exitCode
    split
    · exact hcode
    · exact .inr rfl
  · intro hprints hfails
    have hne : (i.run h).exitCode ≠ 0 := fun ha => hfails (exitCode_eq_zero.mpr ⟨ha, hprints⟩)
    exact (exitCode_of_exitCode hne columns elapsed).2
  · intro hzero
    exact output_of_printsAll (exitCode_eq_zero.mp hzero).2

theorem EndsByFile.exitCode_eq {h' : Host} {a' : Answer} {columns' : Nat} {elapsed' : Float}
    (e : EndsByFile h i columns elapsed a) (e' : EndsByFile h' i columns' elapsed' a') (hn : i.command.named ≠ [])
    (hstarts : i.Starts h' ↔ i.Starts h)
    (hsame : ∀ s ∈ i.command.named, h'.lookup s = h.lookup s ∧ h'.realPath s = h.realPath s)
    (hprints : h'.PrintsAll columns' elapsed' a' ↔ h.PrintsAll columns elapsed a) :
    h'.exitCode columns' elapsed' a' = h.exitCode columns elapsed a := by
  have hfits {s : String} (hmem : s ∈ i.command.named) : h'.Fits s ↔ h.Fits s := by
    rw [Fits, Fits, (hsame s hmem).2]
  have hbytes {file : String} {bytes bytes' : ByteArray} (hmem : file ∈ i.command.named)
      (hl : h.lookup file = .ok (.file bytes)) (hl' : h'.lookup file = .ok (.file bytes')) : bytes' = bytes := by
    rw [(hsame file hmem).1, hl] at hl'
    cases hl'
    rfl
  have hzero : h'.exitCode columns' elapsed' a' = 0 ↔ h.exitCode columns elapsed a = 0 := by
    cases hc : i.command with
    | index directory format =>
      rw [e.index hc, e'.index hc, hstarts, hfits (by rw [hc]; exact List.mem_cons_self), hprints]
    | symbols file root format =>
      obtain ⟨bytes, hl, hcode, -⟩ := e.symbols hc
      obtain ⟨bytes', hl', hcode', -⟩ := e'.symbols hc
      rw [hcode, hcode', hstarts, hbytes (by rw [hc]; exact List.mem_cons_self) hl hl', hprints]
    | complete file line column root format =>
      obtain ⟨bytes, hl, hcode, -⟩ := e.complete hc
      obtain ⟨bytes', hl', hcode', -⟩ := e'.complete hc
      have hall : (∀ s ∈ file :: root.toList, h'.Fits s) ↔ ∀ s ∈ file :: root.toList, h.Fits s :=
        forall₂_congr fun s hmem => hfits (by rw [hc]; exact hmem)
      rw [hcode, hcode', hstarts, hall, hbytes (by rw [hc]; exact List.mem_cons_self) hl hl', hprints]
    | version => exact absurd (by rw [hc]; rfl) hn
    | help => exact absurd (by rw [hc]; rfl) hn
    | serve transport => exact absurd (by rw [hc]; rfl) hn
    | watch directory =>
      rw [e.watch hc, e'.watch hc, hstarts, hfits (by rw [hc]; exact List.mem_cons_self), hprints]
  rcases e.ends with hok | hfailed
  · rw [hok, hzero.mpr hok]
  rcases e'.ends with hok' | hfailed'
  · rw [hok', hzero.mp hok']
  · rw [hfailed, hfailed']

/-- The listing of what has been indexed begins with a rule, which not every encoding has. -/
theorem exitCode_of_no_rule {directory : String} (hc : i.command = .index directory .console)
    (hrule : h.encodes '─' = false) (columns : Nat) (elapsed : Float) :
    h.exitCode columns elapsed (i.run h) = 1 ∧ h.output columns elapsed (i.run h) = "" := by
  have hprint : ¬ h.canPrint (rule 50) = true := by
    have hplain : Text.dropStyling (rule 50) = rule 50 := by decide +kernel
    rw [canPrint, hplain, rule, String.toList_ofList, List.all_replicate]
    simp [hrule]
  have hgives := i.canGive_run h
  rw [hc] at hgives
  cases ha : i.run h with
  | failed message =>
    have hfails : (Answer.failed message).exitCode ≠ 0 := Nat.one_ne_zero
    exact exitCode_of_exitCode hfails columns elapsed
  | aborted e =>
    have hfails : (Answer.aborted e).exitCode ≠ 0 := Nat.one_ne_zero
    exact exitCode_of_exitCode hfails columns elapsed
  | indexed report modules format =>
    rw [ha] at hgives
    obtain ⟨root, ⟨⟩⟩ := hgives
    have hmessages : ∃ rest, (Answer.indexed report modules .console).messages columns elapsed = rule 50 :: rest :=
      ⟨_, rfl⟩
    obtain ⟨rest, hrest⟩ := hmessages
    refine ⟨?_, output_of_no_message ?_⟩
    · rw [exitCode, hrest, List.all_cons, Bool.eq_false_iff.mpr hprint]
      rfl
    · rw [hrest]
      exact List.takeWhile_cons_of_neg hprint
  | usageError => simp [ha, Command.CanGive] at hgives
  | version => simp [ha, Command.CanGive] at hgives
  | help => simp [ha, Command.CanGive] at hgives
  | symbols table moduleName format => simp [ha, Command.CanGive] at hgives
  | candidates items format => simp [ha, Command.CanGive] at hgives
  | serving transport => simp [ha, Command.CanGive] at hgives
  | watching modules => simp [ha, Command.CanGive] at hgives

/-- The exit code of a command whose arguments are taken depends on the paths it names, on what standard output
takes, and on nothing else on the disk. It tells failure exactly if the command does not start, a named path is too
long to be looked up without its links, the file is no text, or standard output cannot take what is found. -/
theorem exitCode_by_file (hs : h.IsSound) (ha : Invocation.ofArguments h args = .ok i) (columns : Nat)
    (elapsed : Float) :
    EndsByFile h i columns elapsed (h.execute args) ∧
      ∀ d columns' elapsed', (h.withDisk d).IsSound → Invocation.ofArguments (h.withDisk d) args = .ok i →
        i.command.named ≠ [] →
        (∀ s ∈ i.command.named, (h.withDisk d).lookup s = h.lookup s ∧ (h.withDisk d).realPath s = h.realPath s) →
        ((h.withDisk d).PrintsAll columns' elapsed' ((h.withDisk d).execute args) ↔
          h.PrintsAll columns elapsed (h.execute args)) →
        (h.withDisk d).exitCode columns' elapsed' ((h.withDisk d).execute args) =
          h.exitCode columns elapsed (h.execute args) := by
  have hends := endsByFile_execute hs ha columns elapsed
  refine ⟨hends, ?_⟩
  intro d columns' elapsed' hsd had hn hsame hprints
  have hstarts : i.Starts (h.withDisk d) ↔ i.Starts h := ⟨fun hi => ⟨hi.users, hi.level⟩, fun hi => ⟨hi.users, hi.level⟩⟩
  exact hends.exitCode_eq (endsByFile_execute hsd had columns' elapsed') hn hstarts hsame hprints

theorem exitCode_by_file_beside :
    let disk (content : ByteArray) : Disk :=
      ((({} : Disk).put ["t", "a.abl"] (.file "fun f\n".toUTF8)).put ["t", "b.abl"] (.file content)).put
        ["t", "gone.abl"] (.link "/nowhere")
    let h : Host := { (default : Host) with disk := disk ⟨#[0xFF]⟩, encodes := fun c => c.toNat < 0x100 }
    h.IsSound ∧ h.exitCode 80 0 (h.execute ["index", "/t", "-f", "json"]) = 0 ∧
      h.exitCode 80 0 (h.execute ["symbols", "/t/a.abl", "-f", "json"]) = 0 ∧
      h.exitCode 80 0 (h.execute ["complete", "/t/b.abl", "0", "0"]) = 1 ∧
      (h.withDisk (disk "fun g\n".toUTF8)).exitCode 80 1 ((h.withDisk (disk "fun g\n".toUTF8)).execute
        ["symbols", "/t/a.abl", "-f", "json"]) = h.exitCode 80 0 (h.execute ["symbols", "/t/a.abl", "-f", "json"]) := by
  intro disk h
  have hs : h.IsSound := by
    refine ⟨?_, ?_, ?_, ?_⟩ <;> unfold h disk <;> decide +kernel
  have hsd : (h.withDisk (disk "fun g\n".toUTF8)).IsSound := by
    refine ⟨?_, ?_, ?_, ?_⟩ <;> unfold h disk <;> decide +kernel
  have hindex : Invocation.ofArguments h ["index", "/t", "-f", "json"] = .ok { command := .index "/t" .json } := by
    unfold h disk
    decide +kernel
  have hsymbols : Invocation.ofArguments h ["symbols", "/t/a.abl", "-f", "json"] =
      .ok { command := .symbols "/t/a.abl" none .json } := by
    unfold h disk
    decide +kernel
  have hsymbols' : Invocation.ofArguments (h.withDisk (disk "fun g\n".toUTF8)) ["symbols", "/t/a.abl", "-f", "json"] =
      .ok { command := .symbols "/t/a.abl" none .json } := by
    unfold h disk
    decide +kernel
  have hcomplete : Invocation.ofArguments h ["complete", "/t/b.abl", "0", "0"] =
      .ok { command := .complete "/t/b.abl" 0 0 none .console } := by
    unfold h disk
    decide +kernel
  have hstarts (c : Command) : Invocation.Starts { command := c } h := by
    constructor
    · rw [show (Invocation.settings { command := c } h).searchPaths ++
        (Invocation.settings { command := c } h).variablePaths h.env = [] from by unfold h disk; rfl]
      exact nofun
    · intro _ _
      rw [show (Invocation.settings { command := c } h).logLevel = "INFO" from by unfold h disk; rfl]
      decide
  have hascii (c : Char) (hc : c.toNat < 0x80) : h.encodes c = true := by
    simp only [h, decide_eq_true_eq]
    omega
  refine ⟨hs, ?_, ?_, ?_, ?_⟩
  · have hends := (exitCode_by_file hs hindex 80 0).1
    refine (hends.index rfl).mpr ⟨⟨hstarts _, ?_⟩, hends.prints (.inr ⟨rfl, hascii⟩)⟩
    unfold h disk
    decide +kernel
  · have hends := (exitCode_by_file hs hsymbols 80 0).1
    obtain ⟨bytes, hl, hcode, -⟩ := hends.symbols rfl
    refine hcode.mpr ⟨⟨hstarts _, (isText_iff hl).mpr ?_⟩, hends.prints (.inr ⟨rfl, hascii⟩)⟩
    unfold h disk
    decide +kernel
  · have hends := (exitCode_by_file hs hcomplete 80 0).1
    obtain ⟨bytes, hl, hcode, -⟩ := hends.complete rfl
    rcases hends.ends with hok | hfailed
    · refine absurd (hcode.mp hok).1.2.2 (mt (isText_iff hl).mp (not_not_intro ?_))
      unfold h disk
      decide +kernel
    · exact hfailed
  · have hends := (exitCode_by_file hs hsymbols 80 0).1
    have hends' := (exitCode_by_file hsd hsymbols' 80 1).1
    refine (exitCode_by_file hs hsymbols 80 0).2 _ 80 1 hsd hsymbols' (List.cons_ne_nil _ _) ?_ ?_
    · intro s hmem
      rw [List.mem_singleton.mp hmem]
      constructor
      · unfold h disk
        rfl
      · unfold h disk
        decide +kernel
    · exact iff_of_true (hends'.prints (.inr ⟨rfl, hascii⟩)) (hends.prints (.inr ⟨rfl, hascii⟩))

theorem exitCode_of_format_name :
    let h : Host := { (default : Host) with
      disk := ({} : Disk).put ["t"] .directory
      env := [("ABLESENSE_LOG_LEVEL", "BASIC_FORMAT")] }
    h.IsSound ∧ Invocation.ofArguments h ["index", "/t"] = .ok { command := .index "/t" .console } ∧
      (∀ c, h.encodes c = true) ∧ h.exitCode 80 0 (h.execute ["index", "/t"]) = 1 := by
  intro h
  refine ⟨⟨?_, ?_, ?_, ?_⟩, ?_, fun _ => rfl, ?_⟩
  · unfold h
    decide +kernel
  · unfold h
    decide +kernel
  · unfold h
    decide +kernel
  · unfold h
    decide +kernel
  · unfold h
    decide +kernel
  · have hfails : (h.execute ["index", "/t"]).exitCode = 1 := by
      unfold h
      decide +kernel
    rw [(exitCode_of_exitCode (by omega) 80 0).1, hfails]

end Host

end AbleIndex
