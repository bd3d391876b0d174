import AbleIndex.Command.Answer
import AbleIndex.Proofs.LineEnds
import AbleIndex.Proofs.Roots

namespace AbleIndex

inductive Settings.IsOffered : Settings → Prop
  | standard : IsOffered {}
  | ofEnvironment (env : Environment) : IsOffered (.ofEnvironment env)
  | withSection {s t : Settings} {value : Json} (hs : IsOffered s) (ht : s.withSection? value = some t) : IsOffered t
  | ofInvocation (i : Invocation) (h : Host) : IsOffered (i.settings h)

theorem Settings.IsOffered.fixed {α : Type} {f : Settings → α} (henv : ∀ env, f (.ofEnvironment env) = f {})
    (heditor : ∀ s fields, f (withEditor s fields) = f s) (hcommand : ∀ (i : Invocation) h, f (i.settings h) = f {})
    {s : Settings} (hs : s.IsOffered) : f s = f {} := by
  induction hs with
  | standard => rfl
  | ofEnvironment env => exact henv env
  | ofInvocation i h => exact hcommand i h
  | @withSection s t value hs ht ih =>
    cases value with
    | obj fields =>
      rw [withSection?, Option.some.injEq] at ht
      rw [← ht, heditor, ih]
    | _ =>
      simp only [withSection?, Option.ite_none_right_eq_some, Option.some.injEq] at ht
      rw [← ht.2, heditor, ih]

theorem Settings.IsOffered.libraryDir {s : Settings} (h : s.IsOffered) : s.libraryDir = "lib" :=
  h.fixed (f := Settings.libraryDir) (fun _ => rfl) (fun _ _ => rfl) (fun _ _ => rfl)

theorem SortedMap.insert_of_find? {α : Type} {m : NameMap α} {k : String} {a : α} (h : m.find? k = some a) :
    m.insert k a = m := by
  apply SortedMap.ext_find?
  intro j
  rw [SortedMap.find?_insert]
  split
  · rename_i hj
    rw [hj, h]
  · rfl

namespace Workspace

variable {h : Host} {w w' : Workspace} {m : String} {e : ModuleEntry}

theorem store_of_find? (hm : w.modules.find? e.name = some e) (hf : w.fileModules.find? e.file = some e.name) :
    w.store e.name e.file e.symbols = w := by
  unfold store
  rw [SortedMap.insert_of_find? hm, SortedMap.insert_of_find? hf]

theorem Scans.exists_provides (hscan : Scans h w w') (he : w'.modules.find? m = some e) :
    e.name = m ∧ ∃ p ∈ w.sourceFiles h, Provides h w p e := by
  cases hscan with
  | failed hs => cases he
  | completed hs ho =>
    obtain ⟨before, p, after, hfiles, ⟨hp, hm⟩, -⟩ := find?_modules_indexOf.mp he
    refine ⟨hm, p, ho.subset ?_, hp⟩
    simp [hfiles]

theorem Scans.indexedName?_eq (hscan : Scans h w w') (p : Path) : w'.indexedName? p = w.indexedName? p := by
  change w'.clear.indexedName? p = w.clear.indexedName? p
  rw [hscan.clear_eq]

theorem indexedName?_update (w : Workspace) (p q : Path) (text : String) :
    (w.update p text).1.indexedName? q = w.indexedName? q := by
  unfold update
  split <;> rfl

theorem find?_modules_update {p : Path} (hp : w.indexedName? p = some m) (text : String) :
    (w.update p text).1.modules.find? m = some ⟨m, .ofText text, p.text⟩ := by
  rw [update, hp]
  exact (find?_modules_store ⟨m, .ofText text, p.text⟩ m).trans (if_pos rfl)

theorem find?_modules_update_of_ne {p : Path} (hp : w.indexedName? p ≠ some m) (text : String) :
    (w.update p text).1.modules.find? m = w.modules.find? m := by
  unfold update
  split
  · rfl
  · rename_i name hname
    apply (find?_modules_store ⟨name, .ofText text, p.text⟩ m).trans
    rw [if_neg]
    rintro rfl
    exact hp hname

theorem update_update (w : Workspace) (p : Path) (text : String) :
    ((w.update p text).1.update p text).1 = (w.update p text).1 := by
  cases hp : w.indexedName? p with
  | none => simp [update, hp]
  | some name =>
    have hm := find?_modules_update hp text
    have hf : (w.update p text).1.fileModules.find? p.text = some name := by
      rw [update, hp]
      exact (find?_fileModules_store ⟨name, .ofText text, p.text⟩ p.text).trans (if_pos rfl)
    rw [update, indexedName?_update, hp]
    exact store_of_find? (e := ⟨name, .ofText text, p.text⟩) hm hf

theorem updateFile_of_textOf {path t : String} {text : Option String} {name : String}
    (ht : textOf h path text = .ok t) (hn : w.indexedName? (h.absolute path) = some name) :
    w.updateFile h path text = (w.store name (h.absolute path).text (.ofText t), .ok (some name)) := by
  simp only [updateFile, ht, update, hn]

/-- After a scan, updating the file of a module changes nothing, whether its text is read from the disk again
or is given with the line ends it has there. -/
theorem updateFile_after_scan {settled : Bool} (hw : Reached Settings.IsOffered settled w) (hd : h.disk.IsProper)
    (hscan : Scans h w w') (he : w'.modules.find? m = some e) :
    w'.updateFile h e.file none = (w', .ok (some m)) ∧
      ∀ bytes text, h.lookup e.file = .ok (.file bytes) → String.fromUTF8? bytes = some text →
        Text.ReturnsPaired text.toList → w'.updateFile h e.file (some text) = (w', .ok (some m)) := by
  obtain ⟨rfl, p, hp, hprovides⟩ := hscan.exists_provides he
  obtain ⟨bytes, source, hlookup, hdecode, hsymbols⟩ := hprovides.symbols
  have hresolved : p.IsResolved :=
    (hw.isAnchored fun s hs => hs.libraryDir).isResolved_of_mem_sourceFiles hd hp
  have hfile : e.file = p.text := by rw [hprovides.file, h.absolute_text hresolved]
  have habsolute : h.absolute e.file = p := by rw [hfile, h.absolute_text hresolved]
  have hname : w'.indexedName? (h.absolute e.file) = some e.name := by
    rw [hscan.indexedName?_eq, habsolute]
    refine indexedName?_eq_some.mpr ⟨?_, hprovides.nonempty⟩
    rw [← hprovides.name, h.absolute_text hresolved]
  have hstore : w'.store e.name (h.absolute e.file).text e.symbols = w' := by
    rw [habsolute, ← hfile]
    exact store_of_find? he (hscan.isCurrent.owns e.name e he)
  constructor
  · have hread : textOf h e.file none = .ok (String.ofList (Text.unifyLineEnds source.toList)) := by
      have := readText_eq_ok.mpr ⟨bytes, source, hlookup, hdecode, rfl⟩
      simp only [textOf, Host.read, hfile, Path.ofString_text hresolved.proper, this]
    rw [updateFile_of_textOf hread hname, ← hsymbols, hstore]
  · intro bytes' text hlookup' hdecode' hpaired
    rw [hfile, hlookup] at hlookup'
    cases hlookup'
    obtain rfl : source = text := by simpa [hdecode] using hdecode'
    rw [updateFile_of_textOf rfl hname, ← ofText_unifyLineEnds hpaired, ← hsymbols, hstore]

theorem updateFile_after_scan_package :
    let h : Host := { (default : Host) with
      disk := (({} : Disk).put ["t", "d", "__init__.abl"] (.file "fun f".toUTF8)).put ["t", "d.abl"]
        (.file "class A\r\n  fun g\r\n".toUTF8) }
    let w := (({} : Workspace).configure h (some (h.absolute "/t")) none).1
    let w' := (w.scan h).1
    w'.modules.find? "d" = some ⟨"d", .ofText "class A\n  fun g\n", "/t/d.abl"⟩ ∧
      w'.updateFile h "/t/d.abl" none = (w', .ok (some "d")) ∧
      w'.updateFile h "/t/d.abl" (some "class A\r\n  fun g\r\n") = (w', .ok (some "d")) := by
  intro h w w'
  have hw : Reached Settings.IsOffered true w := (Reached.new .standard).configure h (some "/t") none (by simp)
  have hd : h.disk.IsProper := by
    apply Disk.isProper_put
    · exact Disk.isProper_put Disk.isProper_empty (by decide +kernel) _
    · decide +kernel
  have he : w'.modules.find? "d" = some ⟨"d", .ofText "class A\n  fun g\n", "/t/d.abl"⟩ := by
    unfold w' w h
    decide +kernel
  obtain ⟨hread, hgiven⟩ := updateFile_after_scan hw hd (scans_scan h w) he
  refine ⟨he, hread, hgiven "class A\r\n  fun g\r\n".toUTF8 _ ?_ (by decide +kernel) (by decide)⟩
  unfold h
  rfl

end Workspace

end AbleIndex
