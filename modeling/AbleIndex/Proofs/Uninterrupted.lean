import AbleIndex.Editor.Session
import AbleIndex.Proofs.ModuleNames
import AbleIndex.Proofs.Rescan
import Mathlib.Logic.Relation

namespace AbleIndex

variable {h : Host}

namespace Workspace

open Relation

variable {w : Workspace} {n : Nat}

def Advances (h : Host) (a b : Workspace × Option OpenScan) : Prop :=
  ∃ i begun, a.2 = some begun ∧ b = a.1.advance h i begun

theorem advances_listing {root : Path} {rest : List Path}
    (hroots : ((root :: rest).map Path.text).all Path.isUsable = true) (found : List Path) :
    ReflTransGen (Advances h) (w, some (.listing w.settings root rest found))
      (w, w.beginReading (found ++ (root :: rest).flatMap fun r => h.sourceFiles w.settings r.text)) := by
  induction rest generalizing root found with
  | nil =>
    have husable : Path.isUsable root.text = true := by simpa using hroots
    refine .single ⟨0, _, rfl, ?_⟩
    rw [advance, if_neg (not_not_intro husable)]
    simp
  | cons next rest ih =>
    simp only [List.map_cons, List.all_cons, Bool.and_eq_true] at hroots ih
    have hstep : Advances h (w, some (.listing w.settings root (next :: rest) found))
        (w, some (.listing w.settings next rest (found ++ h.sourceFiles w.settings root.text))) := by
      refine ⟨0, _, rfl, ?_⟩
      rw [advance, if_neg (not_not_intro hroots.1)]
    refine .head hstep ?_
    rw [List.flatMap_cons, ← List.append_assoc]
    exact ih hroots.2 _

theorem advances_unusable {root : Path} {rest : List Path}
    (hroots : ((root :: rest).map Path.text).all Path.isUsable = false) (found : List Path) :
    ReflTransGen (Advances h) (w, some (.listing w.settings root rest found)) (w, none) := by
  induction rest generalizing root found with
  | nil =>
    have husable : ¬ Path.isUsable root.text = true := by simpa using hroots
    refine .single ⟨0, _, rfl, ?_⟩
    rw [advance, if_pos husable]
  | cons next rest ih =>
    by_cases husable : Path.isUsable root.text = true
    · have hstep : Advances h (w, some (.listing w.settings root (next :: rest) found))
          (w, some (.listing w.settings next rest (found ++ h.sourceFiles w.settings root.text))) := by
        refine ⟨0, _, rfl, ?_⟩
        rw [advance, if_neg (not_not_intro husable)]
      refine .head hstep (ih ?_ _)
      simpa [husable] using hroots
    · refine .single ⟨0, _, rfl, ?_⟩
      rw [advance, if_pos husable]

theorem advances_file (hn : 0 < n) {p : Path} {stage : FileStage} {rest : List (Path × FileStage)}
    (hrest : rest.countP (·.2.isBusy) = 0) :
    Advances h (w, OpenScan.ofFiles n ((p, stage) :: rest))
      ((w.advanceFile h (!stage.isBusy || 1 < n) p stage).1,
        OpenScan.ofFiles n (((w.advanceFile h (!stage.isBusy || 1 < n) p stage).2.map (p, ·)).toList ++ rest)) := by
  refine ⟨0, .reading n ((p, stage) :: rest), rfl, ?_⟩
  have hfree : (decide (((p, stage) :: rest).countP (·.2.isBusy) < n) : Bool) = (!stage.isBusy || decide (1 < n)) := by
    rw [List.countP_cons, hrest]
    cases stage.isBusy <;> simp [hn]
  rw [advance]
  simp only [List.getElem?_cons_zero, hfree, putBack, List.take_zero, List.nil_append, List.drop_one, List.tail_cons,
    Nat.zero_add]

theorem advances_reading (hn : 0 < n) (files : List Path) (w : Workspace) :
    ReflTransGen (Advances h) (w, OpenScan.ofFiles n (files.map (·, .found)))
      (w.storeAll ((files.map (w.examine h)).filterMap Finding.entry?), none) := by
  induction files generalizing w with
  | nil => exact .refl
  | cons p files ih =>
    have hwait : (files.map fun q => (q, FileStage.found)).countP (·.2.isBusy) = 0 := by
      simp [List.countP_eq_zero, FileStage.isBusy]
    rw [List.map_cons, List.map_cons, examine]
    refine .head (advances_file hn hwait) ?_
    simp only [advanceFile]
    cases hname : w.indexedName? (h.absolute p.text) with
    | none => exact ih w
    | some name =>
      refine .head (advances_file hn hwait) ?_
      simp only [FileStage.isBusy, advanceFile]
      cases hread : h.read p with
      | error e => exact ih w
      | ok text =>
        refine .head (advances_file hn hwait) ?_
        exact ih (w.store name (h.absolute p.text).text (.ofText text))

/-- Unless no file at all may be read at a time, the pieces of a scan make up the scan. -/
theorem advances_scan (hreads : w.settings.concurrentReads ≠ 0) :
    ReflTransGen (Advances h) w.beginScan ((w.scan h).1, none) := by
  unfold beginScan scan
  cases hroots : w.searchRoots with
  | nil => exact .refl
  | cons root rest =>
    dsimp only
    rw [if_neg (by simp)]
    cases husable : ((root :: rest).map Path.text).all Path.isUsable with
    | false =>
      rw [if_pos (by simp)]
      exact advances_unusable husable []
    | true =>
      rw [if_neg (by simp)]
      refine (advances_listing (w := w.clear) husable []).trans ?_
      rw [List.nil_append, ← hroots, beginReading, show w.clear.settings = w.settings from rfl]
      split
      · exact .refl
      · exact advances_reading (by omega) _ w.clear

theorem create_eq_ok {own : Option Settings} {given : GivenSettings} {checks : Bool} :
    create h own given checks = .ok w ↔
      (checks = true → (Settings.ofProgram h.env own given).validate = .ok ()) ∧
        new h (.ofProgram h.env own given) = .ok w := by
  unfold create
  generalize Settings.ofProgram h.env own given = s
  dsimp only
  cases checks with
  | false => cases new h s <;> simp
  | true => cases s.validate <;> cases new h s <;> simp

theorem scan_ne_negativeReads (hreads : 0 ≤ w.settings.concurrentReads) : (w.scan h).2 ≠ .error .negativeReads := by
  cases hf : w.listing? h with
  | none => simp [scan_of_listing?_none hf]
  | some files => simp [scan_of_listing? hreads hf]

theorem advances_scan_of_create {own : Option Settings} {given : GivenSettings}
    (hw : create h own given true = .ok w) :
    w.modules = ∅ ∧ w.settings = .ofProgram h.env own given ∧
      ∀ h' : Host, ReflTransGen (Advances h') w.beginScan ((w.scan h').1, none) ∧
        (w.scan h').2 ≠ .error .negativeReads := by
  obtain ⟨hvalid, hnew⟩ := create_eq_ok.mp hw
  have hreads : 0 < (Settings.ofProgram h.env own given).concurrentReads :=
    (Settings.validate_eq_ok.mp (hvalid rfl)).2.2.1
  rw [new] at hnew
  cases hroots : h.searchRoots (.ofProgram h.env own given) none with
  | error e => simp [hroots, Except.map] at hnew
  | ok roots =>
    rw [hroots] at hnew
    cases hnew
    exact ⟨rfl, rfl, fun h' => ⟨advances_scan (Int.ne_of_gt hreads), scan_ne_negativeReads (Int.le_of_lt hreads)⟩⟩

/-- If no file at all may be read at a time, a scan that has begun to wait for that does so for ever. -/
theorem advance_zero {files : List (Path × FileStage)} (hwait : files.all (!·.2.isBusy) = true) (i : Nat) :
    (w.advance h i (.reading 0 files)).1 = w ∧ ∀ begun, (w.advance h i (.reading 0 files)).2 = some begun →
      ∃ files', begun = .reading 0 files' ∧ files'.all (!·.2.isBusy) = true := by
  rw [advance]
  cases hfile : files[i]? with
  | none => exact ⟨rfl, fun begun hb => ⟨files, (Option.some.inj hb).symm, hwait⟩⟩
  | some file =>
    obtain ⟨p, stage⟩ := file
    have hstage := List.all_eq_true.mp hwait _ (List.mem_of_getElem? hfile)
    have hnext : (w.advanceFile h false p stage).1 = w ∧
        ∀ next ∈ (w.advanceFile h false p stage).2, next.isBusy = false := by
      cases stage with
      | found => simp [advanceFile, FileStage.isBusy]
      | waiting name => simp [advanceFile, FileStage.isBusy]
      | opened name => cases hstage
      | read name text => cases hstage
    simp only [Nat.not_lt_zero, decide_false]
    refine ⟨hnext.1, fun begun hb => ?_⟩
    rw [OpenScan.ofFiles] at hb
    split at hb
    · cases hb
    · refine ⟨_, (Option.some.inj hb).symm, all_putBack ?_ hwait⟩
      intro f hf
      obtain ⟨next, hmem, rfl⟩ := Option.map_eq_some_iff.mp hf
      simp [hnext.2 next hmem]

end Workspace

namespace Server

open Relation Workspace

variable {s s' s'' : Server} {t : ServerTask} {a : Workspace × Option OpenScan} {w : Workspace}

def dealWith (h : Host) (s : Server) (answers : EditorAnswers) : Event → Server
  | .connected => (s.connected h answers).1
  | .configurationChanged => (s.reconfigure h answers).1
  | .filesChanged => (s.rescan h).1
  | .opened uri text => (s.openDocument h uri text).1
  | .changed uri edits => (s.changeDocument h uri edits).1
  | .closed uri => (s.closeDocument h uri).1

def Ends (h : Host) (s : Server) (t : Option ServerTask) (s' : Server) : Prop :=
  ∃ turns : List Turn,
    { s with tasks := s.tasks ++ t.toList }.run h (turns.map fun turn => (h.disk, .resume s.tasks.length turn)) = s'

theorem ends_none (h : Host) (s : Server) : Ends h s none s := ⟨[], by simp [run]⟩

theorem ends_some (turn : Turn) {next : Option ServerTask} (hrest : Ends h s' next s'')
    (hgo : (s.spawn t).goOn h turn t = (s'.spawn t, next)) (htasks : s'.tasks = s.tasks) : Ends h s (some t) s'' := by
  obtain ⟨turns, rfl⟩ := hrest
  refine ⟨turn :: turns, ?_⟩
  have hresume : (s.spawn t).resume h s.tasks.length turn = { s' with tasks := s'.tasks ++ next.toList } := by
    unfold resume
    rw [show (s.spawn t).tasks[s.tasks.length]? = some t by simp [spawn]]
    dsimp only
    rw [hgo]
    simp [spawn, putBack, htasks]
  rw [← htasks, ← hresume, htasks]
  rfl

theorem ends_of_advances (hadv : ReflTransGen (Advances h) a (w, none)) (s : Server) :
    Ends h { s with workspace := a.1 } (a.2.map .scan) { s with workspace := w } := by
  induction hadv using ReflTransGen.head_induction_on with
  | refl => exact ends_none h _
  | @head a b hab hb ih =>
    obtain ⟨i, begun, ha, rfl⟩ := hab
    rw [ha]
    exact ends_some { file := i } ih rfl rfl

theorem ends_rescan (turn : Turn) (hgo : (s.spawn t).goOn h turn t = (s'.spawn t).beginRescan) (htasks : s'.tasks = s.tasks)
    (hreads : s'.workspace.settings.concurrentReads ≠ 0) : Ends h s (some t) (s'.rescan h).1 := by
  have hrescan : (s'.rescan h).1 = { s' with workspace := (s'.workspace.scan h).1 } := by
    unfold rescan
    split <;> simp [*]
  rw [hrescan]
  exact ends_some turn (ends_of_advances (advances_scan hreads) s') hgo htasks

theorem ends_reconfigure (turn : Turn) (hgo : (s.spawn t).goOn h turn t = (s'.spawn t).beginReconfiguring h turn.answers)
    (htasks : s'.tasks = s.tasks) (hreads : s'.base.concurrentReads ≠ 0) :
    Ends h s (some t) (s'.reconfigure h turn.answers).1 := by
  have hload : (s'.spawn t).loadSettings h turn.answers =
      ((s'.loadSettings h turn.answers).1.spawn t, (s'.loadSettings h turn.answers).2) := rfl
  have htasks' : (s'.loadSettings h turn.answers).1.tasks = s'.tasks := rfl
  have hreads' : (s'.loadSettings h turn.answers).1.workspace.settings.concurrentReads = s'.base.concurrentReads := by
    unfold loadSettings configure Workspace.configure
    dsimp only
    split <;> rfl
  rw [beginReconfiguring, hload] at hgo
  rw [reconfigure]
  generalize s'.loadSettings h turn.answers = loaded at hgo htasks' hreads' ⊢
  obtain ⟨s₁, r⟩ := loaded
  cases r with
  | error e => exact ends_some turn (ends_none h s₁) hgo (htasks'.trans htasks)
  | ok u => exact ends_rescan turn hgo (htasks'.trans htasks) (hreads'.trans_ne hreads)

/-- A server that deals with one event at a time, and lets its task be done before the next one, does what can be
done in one go. -/
theorem ends_dealWith (hreads : s.workspace.settings.concurrentReads ≠ 0) (hbase : s.base.concurrentReads ≠ 0)
    (answers : EditorAnswers) (e : Event) : ∃ turns : List Turn,
      (s.handle h e).run h (turns.map fun turn => (h.disk, .resume s.tasks.length turn)) = s.dealWith h answers e := by
  cases e with
  | connected =>
    change Ends h s (some .register) ((s.register answers).reconfigure h answers).1
    by_cases hasks : s.asksEditor = true
    · have hrest : Ends h (s.register answers) (some .configure) ((s.register answers).reconfigure h answers).1 :=
        ends_reconfigure { answers } rfl rfl hbase
      exact ends_some { answers } hrest (if_pos hasks) rfl
    · exact ends_reconfigure { answers } (if_neg hasks) rfl hbase
  | configurationChanged => exact ends_reconfigure { answers } rfl rfl hbase
  | filesChanged => exact ends_rescan {} rfl rfl hreads
  | opened uri text => exact ⟨[], rfl⟩
  | changed uri edits => exact ⟨[], rfl⟩
  | closed uri =>
    rw [handle, dealWith, closeDocument, forgetDocument]
    cases s.documents with
    | none => exact ⟨[], rfl⟩
    | some documents => exact ends_rescan {} rfl rfl hreads

end Server

end AbleIndex
