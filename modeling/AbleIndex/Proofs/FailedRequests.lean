import AbleIndex.Proofs.Runs
import AbleIndex.Workspace.Operations

namespace AbleIndex

/-- What can be asked of a workspace and fail. A directory is indexed in the same way whether its scan is waited
for at once or later. -/
inductive Request
  | index (root : Option String)
  | indexWithoutWaiting (root : Option String)
  | update (path : String) (text : Option String)
  | symbols (path : String)
  | exports (name : String)
  | completeAt (path : String) (line column : Int) (text : Option String)

namespace Request

def outcome {α : Type} (x : Workspace × Except Failure α) : Workspace × Except Failure Unit :=
  (x.1, x.2.map fun _ => ())

def run (h : Host) (w : Workspace) : Request → Workspace × Except Failure Unit
  | index root => outcome (w.index h root)
  | indexWithoutWaiting root => ((w.indexWithoutWaiting h root).1, .error (w.indexWithoutWaiting h root).2)
  | update path text => outcome (w.updateFile h path text)
  | symbols path => outcome (w, Workspace.symbolsOf h path)
  | exports name => outcome (w, w.exports name)
  | completeAt path line column text => outcome (w.completeAt h path line column text)

def source? : Request → Option (String × Option String)
  | update path text => some (path, text)
  | symbols path => some (path, none)
  | completeAt path _ _ text => some (path, text)
  | _ => none

end Request

theorem Host.lookup_of_isDirectory {h : Host} {s : String} (hs : h.isDirectory s = true) :
    h.lookup s = .ok .directory := by
  unfold isDirectory Disk.isDirectory at hs
  split at hs
  · rename_i hl
    exact hl
  · cases hs

namespace Workspace

def opened (h : Host) (w : Workspace) (s : String) : Workspace :=
  (w.configure h (some (h.absolute (Path.ofString s).text)) none).1

variable {h : Host} {w : Workspace}

theorem opened_keeps (h : Host) (w : Workspace) (s : String) :
    (w.opened h s).modules = w.modules ∧ (w.opened h s).fileModules = w.fileModules ∧
      (w.opened h s).settings = w.settings := by
  refine ⟨configure_modules h w _ none, configure_fileModules h w _ none, ?_⟩
  unfold opened configure
  dsimp only
  split <;> rfl

theorem openRoot_of_not_directory {s : String} (hs : h.isDirectory (Path.ofString s).text = false) :
    ∃ f, w.openRoot h (some s) = (w, .error f) ∧ ∀ e, f ≠ .scanFailed e := by
  unfold Host.isDirectory Disk.isDirectory at hs
  unfold openRoot Host.lookup
  dsimp only
  split
  · rename_i hl
    rw [hl] at hs
    cases hs
  · exact ⟨.nameTooLong, rfl, nofun⟩
  · exact ⟨.workspaceNotFound (Path.ofString s), rfl, nofun⟩

theorem openRoot_of_directory {s : String} (hs : h.isDirectory (Path.ofString s).text = true) :
    (w.openRoot h (some s)).1 = w.opened h s ∧
      ((w.openRoot h (some s)).2 = .ok () ∨ ∃ e, (w.openRoot h (some s)).2 = .error (.rootsUnknown e)) := by
  unfold openRoot opened
  dsimp only
  rw [Host.lookup_of_isDirectory hs]
  refine ⟨rfl, ?_⟩
  dsimp only
  cases (w.configure h (some (h.absolute (Path.ofString s).text)) none).2 with
  | ok u => exact .inl rfl
  | error e => exact .inr ⟨e, rfl⟩

theorem openRoot_keeps (h : Host) (w : Workspace) (root : Option String) :
    (w.openRoot h root).1.modules = w.modules ∧ (w.openRoot h root).1.fileModules = w.fileModules ∧
      ∀ f, (w.openRoot h root).2 = .error f → ∀ e, f ≠ .scanFailed e := by
  cases root with
  | none => exact ⟨rfl, rfl, nofun⟩
  | some s =>
    by_cases hs : h.isDirectory (Path.ofString s).text = true
    · obtain ⟨hopened, hr⟩ := openRoot_of_directory (w := w) hs
      obtain ⟨hm, hf, -⟩ := opened_keeps h w s
      rw [hopened]
      refine ⟨hm, hf, ?_⟩
      intro f hfail
      obtain hr | ⟨e, hr⟩ := hr
      · rw [hr] at hfail
        cases hfail
      · rw [hr] at hfail
        cases hfail
        exact nofun
    · obtain ⟨f, hfail, hne⟩ := openRoot_of_not_directory (w := w) (Bool.eq_false_iff.mpr hs)
      rw [hfail]
      refine ⟨rfl, rfl, ?_⟩
      rintro _ ⟨⟩
      exact hne

theorem index_of_openRoot_error {root : Option String} {w' : Workspace} {f : Failure}
    (ho : w.openRoot h root = (w', .error f)) :
    w.index h root = (w', .error f) ∧ w.indexWithoutWaiting h root = (w', f) := by
  unfold index indexWithoutWaiting
  rw [ho]
  exact ⟨rfl, rfl⟩

theorem index_of_openRoot_ok {root : Option String} {w' : Workspace} (ho : w.openRoot h root = (w', .ok ())) :
    w.index h root = w'.rescan h ∧ w.indexWithoutWaiting h root = (w', .cannotWait) := by
  unfold index indexWithoutWaiting
  rw [ho]
  exact ⟨rfl, rfl⟩

theorem rescan_cases (h : Host) (w : Workspace) :
    (∃ w' report, w.rescan h = (w', .ok report)) ∨ ∃ e, w.rescan h = (w.clear, .error (.scanFailed e)) := by
  unfold rescan
  obtain ⟨report, hs⟩ | ⟨e, hs⟩ := scan_cases h w
  · rw [hs]
    exact .inl ⟨_, report, rfl⟩
  · rw [hs]
    exact .inr ⟨e, rfl⟩

theorem rescan_of_negativeReads (hroots : w.searchRoots ≠ [])
    (husable : (w.searchRoots.map Path.text).all Path.isUsable = true) (hreads : w.settings.concurrentReads < 0) :
    w.rescan h = (w.clear, .error (.scanFailed .negativeReads)) := by
  have hscan : w.scan h = (w.clear, .error .negativeReads) := by
    unfold scan
    dsimp only
    rw [if_neg (by simpa using hroots), if_neg (not_not_intro husable), if_pos hreads]
  rw [rescan, hscan]

def SameIndex (w w' : Workspace) : Prop := w'.modules = w.modules ∧ w'.fileModules = w.fileModules

end Workspace

namespace Request

open Workspace

variable {h : Host} {w w' : Workspace} {r : Request} {f : Failure}

theorem textOf_eq_error {path : String} {text : Option String} (ht : textOf h path text = .error f) :
    ∃ e, f = .unreadable e := by
  unfold textOf at ht
  split at ht
  · cases ht
  · split at ht
    · cases ht
    · rename_i e _
      cases ht
      exact ⟨e, rfl⟩

theorem run_of_source {path : String} {text : Option String} (hs : r.source? = some (path, text)) :
    (∀ f, textOf h path text = .error f → r.run h w = (w, .error f)) ∧
      ∀ t, textOf h path text = .ok t → (r.run h w).2 = .ok () := by
  cases r with
  | index root => cases hs
  | indexWithoutWaiting root => cases hs
  | exports name => cases hs
  | update path text =>
    cases hs
    constructor
    · intro f ht
      rw [run, updateFile, ht]
      rfl
    · intro t ht
      rw [run, updateFile, ht]
      rfl
  | symbols path =>
    cases hs
    constructor
    · intro f ht
      rw [run, symbolsOf, ht]
      rfl
    · intro t ht
      rw [run, symbolsOf, ht]
      rfl
  | completeAt path line column text =>
    cases hs
    constructor
    · intro f ht
      rw [run, Workspace.completeAt, ht]
      rfl
    · intro t ht
      rw [run, Workspace.completeAt, ht]
      rfl

theorem run_failed_of_source {path : String} {text : Option String} (hs : r.source? = some (path, text))
    (hr : r.run h w = (w', .error f)) : w' = w ∧ ∃ e, f = .unreadable e := by
  obtain ⟨herror, hok⟩ := run_of_source (h := h) (w := w) hs
  cases ht : textOf h path text with
  | ok t =>
    have hrun := hok t ht
    rw [hr] at hrun
    cases hrun
  | error f₁ =>
    rw [herror f₁ ht] at hr
    cases hr
    exact ⟨rfl, textOf_eq_error ht⟩

/-- A failed request leaves the index as it was, unless the failure is that of a scan, which has emptied it. -/
theorem run_failed (hr : r.run h w = (w', .error f)) :
    (∀ e, f ≠ .scanFailed e) ∧ SameIndex w w' ∨ (∃ e, f = .scanFailed e) ∧ w'.IsEmpty := by
  cases r with
  | index root =>
    obtain ⟨hm, hf, hcause⟩ := openRoot_keeps h w root
    cases ho : w.openRoot h root with
    | mk w₁ result =>
      rw [ho] at hm hf hcause
      cases result with
      | error f₁ =>
        rw [run, (index_of_openRoot_error ho).1] at hr
        cases hr
        exact .inl ⟨hcause _ rfl, hm, hf⟩
      | ok u =>
        rw [run, (index_of_openRoot_ok ho).1] at hr
        obtain ⟨w₂, report, hs⟩ | ⟨e, hs⟩ := rescan_cases h w₁
        · rw [hs] at hr
          cases hr
        · rw [hs] at hr
          cases hr
          exact .inr ⟨⟨e, rfl⟩, isEmpty_clear w₁⟩
  | indexWithoutWaiting root =>
    obtain ⟨hm, hf, hcause⟩ := openRoot_keeps h w root
    cases ho : w.openRoot h root with
    | mk w₁ result =>
      rw [ho] at hm hf hcause
      cases result with
      | error f₁ =>
        rw [run, (index_of_openRoot_error ho).2] at hr
        cases hr
        exact .inl ⟨hcause _ rfl, hm, hf⟩
      | ok u =>
        rw [run, (index_of_openRoot_ok ho).2] at hr
        cases hr
        exact .inl ⟨nofun, hm, hf⟩
  | update path text =>
    obtain ⟨rfl, e, rfl⟩ := run_failed_of_source rfl hr
    exact .inl ⟨nofun, rfl, rfl⟩
  | symbols path =>
    obtain ⟨rfl, e, rfl⟩ := run_failed_of_source rfl hr
    exact .inl ⟨nofun, rfl, rfl⟩
  | completeAt path line column text =>
    obtain ⟨rfl, e, rfl⟩ := run_failed_of_source rfl hr
    exact .inl ⟨nofun, rfl, rfl⟩
  | exports name =>
    rw [run, Workspace.exports] at hr
    split at hr
    · cases hr
    · cases hr
      exact .inl ⟨nofun, rfl, rfl⟩

theorem run_of_unreadable {path : String} (hs : r.source? = some (path, none)) {e : ReadError}
    (he : h.read (Path.ofString path) = .error e) : r.run h w = (w, .error (.unreadable e)) := by
  apply (run_of_source hs).1
  unfold textOf
  rw [he]

theorem run_index_of_not_directory {s : String} (hs : h.isDirectory (Path.ofString s).text = false)
    (hr : r = .index (some s) ∨ r = .indexWithoutWaiting (some s)) : ∃ f, r.run h w = (w, .error f) := by
  obtain ⟨f, ho, -⟩ := openRoot_of_not_directory (w := w) hs
  obtain ⟨hindex, hwaiting⟩ := index_of_openRoot_error ho
  refine ⟨f, ?_⟩
  obtain rfl | rfl := hr
  · rw [run, hindex]
    rfl
  · rw [run, hwaiting]

theorem run_indexWithoutWaiting {s : String} (hs : h.isDirectory (Path.ofString s).text = true) :
    ∃ f, (Request.indexWithoutWaiting (some s)).run h w = (w.opened h s, .error f) := by
  obtain ⟨hopened, hr⟩ := openRoot_of_directory (w := w) hs
  obtain hr | ⟨e, hr⟩ := hr
  · have ho : w.openRoot h (some s) = (w.opened h s, .ok ()) := Prod.ext hopened hr
    refine ⟨.cannotWait, ?_⟩
    rw [run, (index_of_openRoot_ok ho).2]
  · have ho : w.openRoot h (some s) = (w.opened h s, .error (.rootsUnknown e)) := Prod.ext hopened hr
    refine ⟨.rootsUnknown e, ?_⟩
    rw [run, (index_of_openRoot_error ho).2]

structure FailsCleanly (h : Host) (w : Workspace) : Prop where
  notDirectory : ∀ s, h.isDirectory (Path.ofString s).text = false →
    ∀ r : Request, r = .index (some s) ∨ r = .indexWithoutWaiting (some s) → ∃ f, r.run h w = (w, .error f)
  unknownModule : ∀ name, w.modules.find? name = none →
    (Request.exports name).run h w = (w, .error (.unknownModule name))
  unreadable : ∀ path e, h.read (Path.ofString path) = .error e →
    ∀ r : Request, r.source? = some (path, none) → r.run h w = (w, .error (.unreadable e))
  cannotWait : (Request.indexWithoutWaiting none).run h w = (w, .error .cannotWait) ∧
    ∀ s, h.isDirectory (Path.ofString s).text = true →
      (∃ f, (Request.indexWithoutWaiting (some s)).run h w = (w.opened h s, .error f)) ∧
        SameIndex w (w.opened h s) ∧ (w.opened h s).settings = w.settings
  negativeReads : ∀ root w₁, w.openRoot h root = (w₁, .ok ()) → w₁.searchRoots ≠ [] →
    (w₁.searchRoots.map Path.text).all Path.isUsable = true → w₁.settings.concurrentReads < 0 →
    (Request.index root).run h w = (w₁.clear, .error (.scanFailed .negativeReads))
  scanFailed : ∀ (r : Request) (w' : Workspace) e, r.run h w = (w', .error (.scanFailed e)) → w'.IsEmpty
  whole : ∀ (r : Request) (w' : Workspace) f, r.run h w = (w', .error f) → SameIndex w w' ∨ w'.IsEmpty

theorem requests_fail_cleanly (h : Host) (w : Workspace) : FailsCleanly h w where
  notDirectory _ hs _ hr := run_index_of_not_directory hs hr
  unknownModule name hm := by
    rw [run, Workspace.exports, hm]
    rfl
  unreadable _ _ he _ hs := run_of_unreadable hs he
  cannotWait := by
    refine ⟨rfl, ?_⟩
    intro s hs
    obtain ⟨hm, hf, hsettings⟩ := opened_keeps h w s
    exact ⟨run_indexWithoutWaiting hs, ⟨hm, hf⟩, hsettings⟩
  negativeReads root w₁ ho hroots husable hreads := by
    rw [run, (index_of_openRoot_ok ho).1, rescan_of_negativeReads hroots husable hreads]
    rfl
  scanFailed r w' e hr := by
    obtain ⟨hcause, -⟩ | ⟨-, hempty⟩ := run_failed hr
    · exact absurd rfl (hcause e)
    · exact hempty
  whole r w' f hr := by
    obtain ⟨-, hsame⟩ | ⟨-, hempty⟩ := run_failed hr
    · exact .inl hsame
    · exact .inr hempty

theorem requests_fail_cleanly_directory :
    let h : Host := { (default : Host) with disk := ({} : Disk).put ["t", "x.abl"] (.file ⟨#[0xFF]⟩) }
    let w : Workspace := {
      settings := { concurrentReads := -1 }
      modules := (∅ : NameMap ModuleEntry).insert "m" ⟨"m", {}, "/m.abl"⟩
      fileModules := (∅ : NameMap String).insert "/m.abl" "m" }
    (∃ f, (Request.index (some "/t/x.abl")).run h w = (w, .error f)) ∧
      (Request.exports "n").run h w = (w, .error (.unknownModule "n")) ∧
      (Request.update "/t/x.abl" none).run h w = (w, .error (.unreadable .undecodable)) ∧
      (w.opened h "/t").searchRoots = [⟨.slash, ["t"]⟩] ∧
      SameIndex w (w.opened h "/t") ∧
      (Request.index (some "/t")).run h w = ((w.opened h "/t").clear, .error (.scanFailed .negativeReads)) := by
  intro h w
  have hclean := requests_fail_cleanly h w
  have hdirectory : h.isDirectory (Path.ofString "/t").text = true := by
    unfold h
    decide +kernel
  have hread : h.read (Path.ofString "/t/x.abl") = .error .undecodable := by
    unfold h
    decide +kernel
  have hroots : (w.opened h "/t").searchRoots = [⟨.slash, ["t"]⟩] := by
    unfold w h
    decide +kernel
  have ho : w.openRoot h (some "/t") = (w.opened h "/t", .ok ()) := by
    unfold w h
    rfl
  refine ⟨?_, ?_, ?_, hroots, (hclean.cannotWait.2 "/t" hdirectory).2.1, ?_⟩
  · apply hclean.notDirectory "/t/x.abl"
    · unfold h
      decide +kernel
    · exact .inl rfl
  · apply hclean.unknownModule
    unfold w
    decide +kernel
  · exact hclean.unreadable "/t/x.abl" .undecodable hread _ rfl
  · apply hclean.negativeReads (some "/t") _ ho
    · rw [hroots]
      decide
    · rw [hroots]
      decide +kernel
    · unfold w h
      decide +kernel

end Request

end AbleIndex
