import AbleIndex.Editor.Session
import AbleIndex.Proofs.SingleUpdate

namespace AbleIndex

def Host.documentPath? (h : Host) (uri : String) : Option Path :=
  ((Uri.toPath? uri).filter (· ≠ "")).map h.absolute

def OpenScan.stored? (h : Host) (i : Nat) : OpenScan → Option ModuleEntry
  | reading _ files =>
    match files[i]? with
    | some (p, .read name text) => some ⟨name, .ofText text, (h.absolute p.text).text⟩
    | _ => none
  | listing .. => none

def ServerTask.isScan : ServerTask → Bool
  | scan _ => true
  | _ => false

namespace Workspace

theorem advance_fst (h : Host) (w : Workspace) (i : Nat) (begun : OpenScan) :
    (w.advance h i begun).1 = w.storeAll (begun.stored? h i).toList := by
  cases begun with
  | listing settings root rest found =>
    rw [advance]
    split
    · rfl
    · cases rest <;> rfl
  | reading atOnce files =>
    rw [advance, OpenScan.stored?]
    cases hfile : files[i]? with
    | none => rfl
    | some file =>
      obtain ⟨p, stage⟩ := file
      cases stage with
      | found => rfl
      | waiting name => rfl
      | read name text => rfl
      | opened name =>
        dsimp only [advanceFile]
        cases h.read p <;> rfl

theorem indexedName?_storeAll (entries : List ModuleEntry) (w : Workspace) (p : Path) :
    (w.storeAll entries).indexedName? p = w.indexedName? p := by
  change (w.storeAll entries).clear.indexedName? p = w.clear.indexedName? p
  rw [clear_storeAll]

end Workspace

namespace Server

def openText? (s : Server) (key : String) : Option String := s.documents.bind (·.find? key)

def indexed (h : Host) (w : Workspace) (uri text : String) : Workspace :=
  match h.documentPath? uri with
  | none => w
  | some p => (w.update p text).1

def takeText (h : Host) (s : Server) (documents : NameMap String) (uri text : String) : Server :=
  { s with
    documents := some (documents.insert (Uri.documentKey uri) text)
    workspace := indexed h s.workspace uri text }

def Takes (s : Server) : Event → Prop
  | .opened _ _ => True
  | .changed uri edits => edits = [] ∨ s.openText? (Uri.documentKey uri) ≠ none
  | _ => False

/-- Whether a task takes over settings or forgets the index when it goes on. -/
def begins (s : Server) : Move → Bool
  | .event _ => false
  | .resume i _ =>
    match s.tasks[i]? with
    | none => false
    | some .register => !s.asksEditor
    | some .configure => true
    | some .rescan => true
    | some (.scan _) => false

def stored? (h : Host) (s : Server) : Move → Option ModuleEntry
  | .event _ => none
  | .resume i turn =>
    match s.tasks[i]? with
    | some (.scan begun) => begun.stored? h turn.file
    | _ => none

/-- A move that leaves a module to the document under a key, but for what a scan may store: no rescan begins, and
the text that is taken over, if any, is that of another document, which does not belong to the module. -/
def Spares (h : Host) (s : Server) (key m : String) (move : Move) : Prop :=
  s.begins move = false ∧ ∀ e uri, move = .event e → e.uri? = some uri →
    Uri.documentKey uri ≠ key ∧
      (s.Takes e → ∀ p, h.documentPath? uri = some p → s.workspace.indexedName? p ≠ some m)

def Spared (h : Host) (key m : String) : Server → List (Disk × Move) → Prop
  | _, [] => True
  | s, (d, x) :: rest =>
    Spares (h.withDisk d) s key m x ∧ Spared h key m (s.move (h.withDisk d) x) rest

def Stores (h : Host) (e : ModuleEntry) : Server → List (Disk × Move) → Prop
  | _, [] => False
  | s, (d, x) :: rest =>
    s.stored? (h.withDisk d) x = some e ∨ Stores h e (s.move (h.withDisk d) x) rest

variable {h : Host} {s s' s'' : Server} {e : Event} {x : Move} {uri text key m : String} {session : List (Disk × Move)}

theorem updateDocument_of_open {documents : NameMap String} (hd : s.documents = some documents)
    (ht : documents.find? (Uri.documentKey uri) = some text) :
    (s.updateDocument h uri).1 = { s with workspace := indexed h s.workspace uri text } := by
  unfold updateDocument indexed Host.documentPath?
  cases hp : (Uri.toPath? uri).filter (· ≠ "") with
  | none => rfl
  | some path =>
    have htext : documentText h documents uri path = .ok text := by
      unfold documentText
      rw [ht]
    rw [hd]
    dsimp only
    rw [htext]
    rfl

theorem updateDocument_cases (h : Host) (s : Server) (uri : String) :
    (s.updateDocument h uri).1 = s ∨
      ∃ text, (s.updateDocument h uri).1 = { s with workspace := indexed h s.workspace uri text } := by
  unfold updateDocument indexed Host.documentPath?
  cases hp : (Uri.toPath? uri).filter (· ≠ "") with
  | none => exact .inl rfl
  | some path =>
    cases hd : s.documents with
    | none => exact .inl rfl
    | some documents =>
      dsimp only
      cases documentText h documents uri path with
      | error failure => exact .inl rfl
      | ok text => exact .inr ⟨text, by rw [← hd]; rfl⟩

theorem documentPath?_of_badUri (h : Host) (hu : ¬ Uri.isWellFormed uri = true) : h.documentPath? uri = none := by
  unfold Host.documentPath? Uri.toPath?
  rw [if_neg]
  · rfl
  · intro hb
    exact hu (Bool.and_eq_true_iff.mp hb).2

theorem openDocument_cases (h : Host) (s : Server) (uri text : String) :
    (∃ documents, s.documents = some documents ∧ (s.openDocument h uri text).1 = s.takeText h documents uri text) ∨
    ((s.openDocument h uri text).1 = s ∧
      (h.documentPath? uri = none ∨ s.openText? (Uri.documentKey uri) = none)) := by
  unfold openDocument openText?
  cases hd : s.documents with
  | none => exact .inr ⟨rfl, .inr rfl⟩
  | some documents =>
    dsimp only
    by_cases hu : Uri.isWellFormed uri = true
    · rw [if_neg (not_not_intro hu)]
      refine .inl ⟨documents, rfl, ?_⟩
      exact updateDocument_of_open rfl (by rw [SortedMap.find?_insert, if_pos rfl])
    · rw [if_pos hu]
      exact .inr ⟨rfl, .inl (documentPath?_of_badUri h hu)⟩

theorem changeDocument_cases (h : Host) (s : Server) (uri : String) (edits : List Edit) :
    (s.Takes (.changed uri edits) ∧ ∃ documents text, s.documents = some documents ∧
      (s.changeDocument h uri edits).1 = s.takeText h documents uri text) ∨
    s.openText? (Uri.documentKey uri) = none ∧
      ((s.changeDocument h uri edits).1 = s ∨ edits = [] ∧
        ∃ text, (s.changeDocument h uri edits).1 = { s with workspace := indexed h s.workspace uri text }) := by
  by_cases hedits : edits = []
  · rw [changeDocument, if_pos hedits]
    cases ht : s.openText? (Uri.documentKey uri) with
    -- not open, so the text is that of the file
    | none => exact .inr ⟨rfl, (updateDocument_cases h s uri).imp_right fun hw => ⟨hedits, hw⟩⟩
    | some text =>
      obtain ⟨documents, hd, hfind⟩ := Option.bind_eq_some_iff.mp ht
      refine .inl ⟨.inl hedits, documents, text, hd, ?_⟩
      rw [updateDocument_of_open hd hfind, takeText, SortedMap.insert_of_find? hfind, ← hd]
  · rw [changeDocument, if_neg hedits, Takes]
    unfold openText?
    cases hd : s.documents with
    | none => exact .inr ⟨rfl, .inl rfl⟩
    | some documents =>
      dsimp only
      cases hfind : documents.find? (Uri.documentKey uri) with
      | none => exact .inr ⟨hfind, .inl rfl⟩
      | some old =>
        refine .inl ⟨.inr ?_, documents, edits.foldl (Document.apply s.encoding) old, rfl, ?_⟩
        · simp [hfind]
        · exact updateDocument_of_open rfl (by rw [SortedMap.find?_insert, if_pos rfl])

theorem handle_document (h : Host) (s : Server) (he : e.uri? = some uri) :
    (s.Takes e ∧ ∃ documents text, s.documents = some documents ∧ s.handle h e = s.takeText h documents uri text) ∨
    (s.handle h e = s ∧ (h.documentPath? uri = none ∨ s.openText? (Uri.documentKey uri) = none)) ∨
    (e = .changed uri [] ∧ s.openText? (Uri.documentKey uri) = none ∧
      ∃ text, s.handle h e = { s with workspace := indexed h s.workspace uri text }) := by
  cases e with
  | connected => cases he
  | configurationChanged => cases he
  | filesChanged => cases he
  | closed uri => cases he
  | opened uri text =>
    cases he
    obtain ⟨documents, htake⟩ | hsame := openDocument_cases h s uri text
    · exact .inl ⟨trivial, documents, text, htake⟩
    · exact .inr (.inl hsame)
  | changed uri edits =>
    cases he
    obtain htake | ⟨hclosed, hsame | ⟨rfl, hfile⟩⟩ := changeDocument_cases h s uri edits
    · exact .inl htake
    · exact .inr (.inl ⟨hsame, .inr hclosed⟩)
    · exact .inr (.inr ⟨rfl, hclosed, hfile⟩)

theorem openText?_takeText {documents : NameMap String} (hd : s.documents = some documents) (h : Host)
    (uri text k : String) :
    (s.takeText h documents uri text).openText? k =
      if k = Uri.documentKey uri then some text else s.openText? k := by
  rw [openText?, openText?, hd]
  exact SortedMap.find?_insert _ _ _ _

theorem indexedName?_indexed (h : Host) (w : Workspace) (uri text : String) (p : Path) :
    (indexed h w uri text).indexedName? p = w.indexedName? p := by
  unfold indexed
  split
  · rfl
  · exact w.indexedName?_update _ p text

theorem find?_modules_indexed {w : Workspace} (text : String)
    (hother : ∀ p, h.documentPath? uri = some p → w.indexedName? p ≠ some m) :
    (indexed h w uri text).modules.find? m = w.modules.find? m := by
  unfold indexed
  split
  · rfl
  · rename_i p hp
    exact Workspace.find?_modules_update_of_ne (hother p hp) text

theorem handle_other (h : Host) (s : Server) (he : e.uri? = none) (key : String) :
    (s.handle h e).workspace = s.workspace ∧
      ((s.handle h e).openText? key = s.openText? key ∨ (s.handle h e).openText? key = none) ∧
      (s.tasks.all (!·.isScan) → (s.handle h e).tasks.all (!·.isScan)) := by
  have hspawn {t : ServerTask} (ht : t.isScan = false) : s.tasks.all (!·.isScan) → (s.tasks ++ [t]).all (!·.isScan) := by
    intro hs
    simp [hs, ht]
  cases e with
  | connected => exact ⟨rfl, .inl rfl, hspawn rfl⟩
  | configurationChanged => exact ⟨rfl, .inl rfl, hspawn rfl⟩
  | filesChanged => exact ⟨rfl, .inl rfl, hspawn rfl⟩
  | opened uri text => cases he
  | changed uri edits => cases he
  | closed uri =>
    rw [handle, forgetDocument]
    cases hd : s.documents with
    | none => exact ⟨rfl, .inl rfl, id⟩
    | some documents =>
      refine ⟨rfl, ?_, hspawn rfl⟩
      simp only [openText?, hd, spawn, Option.bind_some, SortedMap.find?_filterKeys]
      split
      · exact .inl rfl
      · exact .inr rfl

theorem tasks_handle (hs : s.tasks.all (!·.isScan) = true) : (s.handle h e).tasks.all (!·.isScan) = true := by
  cases he : e.uri? with
  | none => exact (handle_other h s he "").2.2 hs
  | some uri =>
    obtain ⟨-, documents, text, hd, hs'⟩ | ⟨hs', -⟩ | ⟨-, -, text, hs'⟩ := handle_document h s he
    · rw [hs']
      exact hs
    · rw [hs']
      exact hs
    · rw [hs']
      exact hs

theorem resume_of_not_begins {i : Nat} {turn : Turn} (hb : s.begins (.resume i turn) = false) :
    (s.resume h i turn).documents = s.documents ∧
      (s.resume h i turn).workspace = s.workspace.storeAll (s.stored? h (.resume i turn)).toList ∧
      (s.tasks.all (!·.isScan) → (s.resume h i turn).tasks.all (!·.isScan)) := by
  simp only [resume, stored?, begins] at hb ⊢
  cases htask : s.tasks[i]? with
  | none => exact ⟨rfl, rfl, id⟩
  | some task =>
    rw [htask] at hb
    cases task with
    | register =>
      have hasks : s.asksEditor = true := by simpa using hb
      simp only [goOn]
      rw [if_pos hasks]
      exact ⟨rfl, rfl, all_putBack (by simp [ServerTask.isScan])⟩
    | configure => cases hb
    | rescan => cases hb
    | scan begun =>
      refine ⟨rfl, s.workspace.advance_fst h turn.file begun, fun hall => ?_⟩
      have hscan := List.all_eq_true.mp hall _ (List.mem_of_getElem? htask)
      cases hscan

structure Keeps (key : String) (s s' : Server) : Prop where
  names : ∀ p, s'.workspace.indexedName? p = s.workspace.indexedName? p
  text : s'.openText? key = s.openText? key ∨ s'.openText? key = none

theorem Keeps.refl (key : String) (s : Server) : Keeps key s s := ⟨fun _ => rfl, .inl rfl⟩

theorem Keeps.trans (hs : Keeps key s s') (hs' : Keeps key s' s'') : Keeps key s s'' where
  names p := (hs'.names p).trans (hs.names p)
  text := by
    rcases hs'.text with ht' | ht'
    · rw [ht']
      exact hs.text
    · exact .inr ht'

theorem handle_keeps (h : Host) (s : Server) (he : e.uri? = some uri) (hkey : Uri.documentKey uri ≠ key) :
    Keeps key s (s.handle h e) := by
  obtain ⟨-, documents, text, hd, hs⟩ | ⟨hs, -⟩ | ⟨-, -, text, hs⟩ := handle_document h s he
  · rw [hs]
    refine ⟨indexedName?_indexed h s.workspace uri text, .inl ?_⟩
    rw [openText?_takeText hd, if_neg hkey.symm]
  · rw [hs]
    exact .refl key s
  · rw [hs]
    exact ⟨indexedName?_indexed h s.workspace uri text, .inl rfl⟩

theorem move_keeps (hx : Spares h s key m x) : Keeps key s (s.move h x) := by
  cases x with
  | event e =>
    cases he : e.uri? with
    | none =>
      obtain ⟨hw, ht, -⟩ := handle_other h s he key
      exact ⟨fun p => by rw [move, hw], ht⟩
    | some uri => exact handle_keeps h s he (hx.2 e uri rfl he).1
  | resume i turn =>
    obtain ⟨hd, hw, -⟩ := resume_of_not_begins (h := h) hx.1
    refine ⟨fun p => ?_, .inl ?_⟩
    · rw [move, hw, Workspace.indexedName?_storeAll]
    · rw [move, openText?, hd, openText?]

theorem find?_modules_handle (he : e.uri? = some uri)
    (hother : s.Takes e → ∀ p, h.documentPath? uri = some p → s.workspace.indexedName? p ≠ some m) :
    (s.handle h e).workspace.modules.find? m = s.workspace.modules.find? m := by
  obtain ⟨htakes, documents, text, hd, hs⟩ | ⟨hs, -⟩ | ⟨rfl, -, text, hs⟩ := handle_document h s he
  · rw [hs]
    exact find?_modules_indexed text (hother htakes)
  · rw [hs]
  · rw [hs]
    exact find?_modules_indexed text (hother (.inl rfl))

theorem find?_modules_move (hx : Spares h s key m x) :
    (s.move h x).workspace.modules.find? m = s.workspace.modules.find? m ∨
      ∃ entry, s.stored? h x = some entry ∧ entry.name = m ∧
        (s.move h x).workspace.modules.find? m = some entry := by
  cases x with
  | event e =>
    refine .inl ?_
    cases he : e.uri? with
    | none => rw [move, (handle_other h s he key).1]
    | some uri => exact find?_modules_handle he (hx.2 e uri rfl he).2
  | resume i turn =>
    rw [move, (resume_of_not_begins hx.1).2.1]
    cases hstored : s.stored? h (.resume i turn) with
    | none => exact .inl rfl
    | some entry =>
      have hfind := Workspace.find?_modules_store (w := s.workspace) entry m
      by_cases hm : m = entry.name
      · rw [if_pos hm] at hfind
        exact .inr ⟨entry, rfl, hm.symm, hfind⟩
      · rw [if_neg hm] at hfind
        exact .inl hfind

theorem run_keeps (hsession : s.Spared h key m session) : Keeps key s (s.run h session) := by
  induction session generalizing s with
  | nil => exact .refl key s
  | cons x session ih => exact (move_keeps hsession.1).trans (ih hsession.2)

theorem find?_modules_run (hsession : s.Spared h key m session) :
    (s.run h session).workspace.modules.find? m = s.workspace.modules.find? m ∨
      ∃ entry, s.Stores h entry session ∧ entry.name = m ∧
        (s.run h session).workspace.modules.find? m = some entry := by
  induction session generalizing s with
  | nil => exact .inl rfl
  | cons x session ih =>
    -- the last entry that a scan stores is the one that stays
    obtain hlast | ⟨entry, hstores, hname, hfind⟩ := ih hsession.2
    · obtain hsame | ⟨entry, hstored, hname, hfind⟩ := find?_modules_move hsession.1
      · exact .inl (hlast.trans hsame)
      · exact .inr ⟨entry, .inl hstored, hname, hlast.trans hfind⟩
    · exact .inr ⟨entry, .inr hstores, hname, hfind⟩

theorem not_stores (hs : s.tasks.all (!·.isScan) = true) (hsession : s.Spared h key m session) (entry : ModuleEntry) :
    ¬ s.Stores h entry session := by
  induction session generalizing s with
  | nil => exact id
  | cons x session ih =>
    obtain ⟨d, x⟩ := x
    rintro (hstored | hstores)
    · cases x with
      | event e => cases hstored
      | resume i turn =>
        rw [stored?] at hstored
        split at hstored
        · rename_i begun htask
          have hscan := List.all_eq_true.mp hs _ (List.mem_of_getElem? htask)
          cases hscan
        · cases hstored
    · refine ih ?_ hsession.2 hstores
      cases x with
      | event e => exact tasks_handle hs
      | resume i turn => exact (resume_of_not_begins hsession.1.1).2.2 hs

theorem handle_of_open {p : Path} (he : e.uri? = some uri) (hp : h.documentPath? uri = some p)
    (ht : (s.handle h e).openText? (Uri.documentKey uri) = some text) :
    ∃ documents, s.documents = some documents ∧ s.handle h e = s.takeText h documents uri text := by
  obtain ⟨-, documents, t, hd, hs⟩ | ⟨hs, hnone | hnone⟩ | ⟨-, hnone, t, hs⟩ := handle_document h s he
  · rw [hs, openText?_takeText hd, if_pos rfl, Option.some.injEq] at ht
    subst ht
    exact ⟨documents, hd, hs⟩
  · rw [hp] at hnone
    cases hnone
  · rw [hs, hnone] at ht
    cases ht
  · rw [hs] at ht
    cases hnone.symm.trans ht

theorem workspace_takeText {documents : NameMap String} {p : Path} (hp : h.documentPath? uri = some p) (text : String) :
    (s.takeText h documents uri text).workspace = (s.workspace.update p text).1 := by
  rw [takeText, indexed, hp]

theorem find?_modules_of_open {p : Path} (he : e.uri? = some uri) (hp : h.documentPath? uri = some p)
    (ht : (s.handle h e).openText? (Uri.documentKey uri) = some text)
    (hm : (s.handle h e).workspace.indexedName? p = some m) :
    (s.handle h e).workspace.modules.find? m = some ⟨m, .ofText text, p.text⟩ := by
  obtain ⟨documents, -, hs⟩ := handle_of_open he hp ht
  rw [hs, workspace_takeText hp] at hm ⊢
  rw [Workspace.indexedName?_update] at hm
  exact Workspace.find?_modules_update hm text

/-- In every session the entry of a module holds the text that the editor has of an open document, whatever the
disk holds, while nothing but other documents has been opened or changed after it and no rescan has begun. A scan
that was under way can still put what it has read of a file in its place. -/
theorem entry_of_open_document (h : Host) (s₀ : Server) (before after : List (Disk × Move)) (d : Disk) {p : Path}
    (he : e.uri? = some uri) (hp : h.documentPath? uri = some p)
    (hs' : s' = s₀.run h (before ++ [(d, .event e)])) (hs : s = s'.run h after)
    (ht : s.openText? (Uri.documentKey uri) = some text) (hm : s.workspace.indexedName? p = some m)
    (hafter : s'.Spared h (Uri.documentKey uri) m after) :
    ∃ entry, s.workspace.modules.find? m = some entry ∧
      (entry = ⟨m, .ofText text, p.text⟩ ∨ entry.name = m ∧ s'.Stores h entry after) ∧
      (s'.tasks.all (!·.isScan) = true → entry = ⟨m, .ofText text, p.text⟩) := by
  have hhandle : s' = (s₀.run h before).handle (h.withDisk d) e := by
    rw [hs', run, List.foldl_append]
    rfl
  have hkeeps := run_keeps hafter
  rw [← hs] at hkeeps
  have htext : s'.openText? (Uri.documentKey uri) = some text := by
    rcases hkeeps.text with hsame | hnone
    · rw [← hsame, ht]
    · rw [ht] at hnone
      cases hnone
  have hfind : s'.workspace.modules.find? m = some ⟨m, .ofText text, p.text⟩ := by
    rw [hkeeps.names p] at hm
    rw [hhandle] at htext hm ⊢
    exact find?_modules_of_open he hp htext hm
  obtain hsame | ⟨entry, hstores, hname, hentry⟩ := find?_modules_run hafter
  · rw [← hs, hfind] at hsame
    exact ⟨_, hsame, .inl rfl, fun _ => rfl⟩
  · rw [← hs] at hentry
    exact ⟨entry, hentry, .inr ⟨hname, hstores⟩, fun hidle => absurd hstores (not_stores hidle hafter entry)⟩

theorem entry_of_open_document_edited :
    let h : Host := { (default : Host) with disk := ({} : Disk).put ["t", "a.abl"] (.file "fun f".toUTF8) }
    let s₀ := (({} : Server).connect h { rootUri := some "file:///t" }).1
    let s' := s₀.run h [(h.disk, .event .connected), (h.disk, .event (.opened "file:///t/a.abl" "fun g")),
      (h.disk, .event (.changed "file:///t/a.abl" [⟨some (⟨0, 4⟩, ⟨0, 5⟩), "k"⟩]))]
    let s := s'.run h [(h.disk, .event (.opened "file:///t/b.abl" "x = 1")),
      (h.disk, .event (.closed "file:///t/b.abl"))]
    s.tasks = [.register, .rescan] ∧ s.openText? "file:///t/a.abl" = some "fun k" ∧
      s.workspace.indexedName? (h.absolute "/t/a.abl") = some "a" ∧
      s.workspace.modules.find? "a" = some ⟨"a", .ofText "fun k", (h.absolute "/t/a.abl").text⟩ := by
  intro h s₀ s' s
  have hp : h.documentPath? "file:///t/a.abl" = some (h.absolute "/t/a.abl") := by decide +kernel
  have hkey : Uri.documentKey "file:///t/a.abl" = "file:///t/a.abl" := by decide +kernel
  have ht : s.openText? "file:///t/a.abl" = some "fun k" := by decide +kernel
  have hm : s.workspace.indexedName? (h.absolute "/t/a.abl") = some "a" := by decide +kernel
  have hidle : s'.tasks.all (!·.isScan) = true := by decide +kernel
  refine ⟨by decide +kernel, ht, hm, ?_⟩
  have hafter : s'.Spared h (Uri.documentKey "file:///t/a.abl") "a"
      [(h.disk, .event (.opened "file:///t/b.abl" "x = 1")), (h.disk, .event (.closed "file:///t/b.abl"))] := by
    refine ⟨⟨rfl, ?_⟩, ⟨rfl, nofun⟩, trivial⟩
    rintro _ _ ⟨⟩ ⟨⟩
    have hb : h.documentPath? "file:///t/b.abl" = some (h.absolute "/t/b.abl") := by decide +kernel
    have hne : s'.workspace.indexedName? (h.absolute "/t/b.abl") ≠ some "a" := by decide +kernel
    refine ⟨by decide +kernel, fun _ p hother hname => ?_⟩
    cases hb.symm.trans hother
    exact absurd hname hne
  rw [← hkey] at ht
  obtain ⟨entry, hfind, -, hentry⟩ := entry_of_open_document h s₀
    [(h.disk, .event .connected), (h.disk, .event (.opened "file:///t/a.abl" "fun g"))] _ h.disk rfl hp
    (show s' = _ from rfl) (show s = _ from rfl) ht hm hafter
  rw [hentry hidle] at hfind
  exact hfind

theorem filesChanged_drops_editor_text :
    let h : Host := { (default : Host) with disk := ({} : Disk).put ["t", "a.abl"] (.file "fun f".toUTF8) }
    let s := (({} : Server).connect h { rootUri := some "file:///t" }).1.run h
      ([.event (.opened "file:///t/a.abl" "fun g"), .event .filesChanged, .resume 0 {}, .resume 0 {}, .resume 0 {},
        .resume 0 {}, .resume 0 {}].map (h.disk, ·))
    s.tasks = [] ∧ s.documents.map (·.keys) = some ["file:///t/a.abl"] ∧
      s.openText? "file:///t/a.abl" = some "fun g" ∧ s.workspace.sourceFiles h = [h.absolute "/t/a.abl"] ∧
      s.workspace.indexedName? (h.absolute "/t/a.abl") = some "a" ∧
      s.workspace.modules.find? "a" = some ⟨"a", .ofText "fun f", "/t/a.abl"⟩ ∧
      (s.workspace.modules.find? "a").map (·.symbols) ≠ some (.ofText "fun g") := by
  decide +kernel

/-- A scan that has read a file before its document is opened stores it after that. -/
theorem scan_under_way_drops_editor_text :
    let h : Host := { (default : Host) with disk := ({} : Disk).put ["t", "a.abl"] (.file "fun f".toUTF8) }
    let s' := (({} : Server).connect h { rootUri := some "file:///t" }).1.run h
      ([.event .filesChanged, .resume 0 {}, .resume 0 {}, .resume 0 {}, .resume 0 {},
        .event (.opened "file:///t/a.abl" "fun g")].map (h.disk, ·))
    let s := s'.resume h 0 {}
    s'.workspace.modules.find? "a" = some ⟨"a", .ofText "fun g", "/t/a.abl"⟩ ∧
      s.openText? "file:///t/a.abl" = some "fun g" ∧
      s.workspace.modules.find? "a" = some ⟨"a", .ofText "fun f", "/t/a.abl"⟩ := by
  decide +kernel

end Server

end AbleIndex
