import AbleIndex.Proofs.DiskNames
import AbleIndex.Workspace.ModuleName

namespace AbleIndex

namespace Path

variable {p root : Path} {parts : List String}

def Contains (root p : Path) : Prop := ∃ parts, p = root.append parts

theorem below?_eq_some : p.below? root = some parts ↔ p = root.append parts := by
  obtain ⟨a, ps⟩ := p
  obtain ⟨b, rs⟩ := root
  simp only [below?, append, Option.ite_none_right_eq_some, Option.some.injEq, Path.mk.injEq,
    List.isPrefixOf_iff_prefix]
  constructor
  · rintro ⟨⟨rfl, rest, rfl⟩, rfl⟩
    exact ⟨rfl, by rw [List.drop_left]⟩
  · rintro ⟨rfl, rfl⟩
    exact ⟨⟨rfl, List.prefix_append rs parts⟩, List.drop_left⟩

theorem below?_eq_none (h : ¬ root.Contains p) : p.below? root = none := by
  rw [Option.eq_none_iff_forall_ne_some]
  intro parts hparts
  exact h ⟨parts, below?_eq_some.mp hparts⟩

end Path

def Decides (roots : List Path) (root p : Path) : Prop :=
  root.Contains p ∧ ∃ before after, roots = before ++ root :: after ∧ ∀ other ∈ before, ¬ other.Contains p

theorem moduleName?_of_decides {s : Settings} {roots : List Path} {root : Path} {parts : List String}
    (h : Decides roots root (root.append parts)) : moduleName? s roots (root.append parts) = s.nameBelow? parts := by
  obtain ⟨-, before, after, rfl, hbefore⟩ := h
  have hnone : before.findSome? (root.append parts).below? = none := by
    rw [List.findSome?_eq_none_iff]
    intro other ho
    exact Path.below?_eq_none (hbefore other ho)
  have hsome : (root.append parts).below? root = some parts := Path.below?_eq_some.mpr rfl
  rw [moduleName?, List.findSome?_append, hnone, List.findSome?_cons, hsome]
  rfl

namespace Settings

variable {s : Settings}

/-- Settings that pass validation, whose package file and extension can be written in a file name. -/
structure IsPlain (s : Settings) : Prop where
  valid : s.validate = .ok ()
  package : '/' ∉ s.packageFile.toList
  extension : '/' ∉ s.sourceExtension.toList
  notDot : s.packageFile ≠ "."
  notUp : s.packageFile ≠ ".."

theorem validate_eq_ok : s.validate = .ok () ↔ s.sourceExtension.toList.head? = some '.' ∧
    s.isSourceName s.packageFile = true ∧ 0 < s.concurrentReads ∧ ∀ megabytes ∈ s.maxFileMegabytes, 0 < megabytes := by
  have hany : ¬ s.maxFileMegabytes.any (· ≤ 0) = true ↔ ∀ megabytes ∈ s.maxFileMegabytes, 0 < megabytes := by
    cases s.maxFileMegabytes <;> simp
  unfold validate isSourceName
  rw [← hany]
  constructor
  · intro h
    split at h
    · cases h
    rename_i hdot
    split at h
    · cases h
    rename_i hpackage
    split at h
    · cases h
    rename_i hreads
    split at h
    · cases h
    rename_i hsize
    exact ⟨not_not.mp hdot, not_not.mp hpackage, by omega, hsize⟩
  · rintro ⟨hdot, hpackage, hreads, hsize⟩
    rw [if_neg (not_not_intro hdot), if_neg (not_not_intro hpackage), if_neg (by omega), if_neg hsize]

theorem IsPlain.extension_ne_empty (hs : s.IsPlain) : s.sourceExtension ≠ "" := by
  intro he
  have hdot := (validate_eq_ok.mp hs.valid).1
  rw [he] at hdot
  cases hdot

theorem isSourceName_iff {file : String} : s.isSourceName file = true ↔ ∃ stem, file = stem ++ s.sourceExtension := by
  rw [isSourceName, List.isSuffixOf_iff_suffix]
  constructor
  · rintro ⟨init, hi⟩
    refine ⟨String.ofList init, ?_⟩
    rw [← String.toList_inj, String.toList_append, String.toList_ofList, hi]
  · rintro ⟨stem, rfl⟩
    rw [String.toList_append]
    exact List.suffix_append _ _

theorem IsPlain.isSourceName_packageFile (hs : s.IsPlain) : s.isSourceName s.packageFile = true :=
  (validate_eq_ok.mp hs.valid).2.1

theorem stem_append (he : s.sourceExtension ≠ "") (stem : String) : s.stem (stem ++ s.sourceExtension) = stem := by
  rw [Settings.stem, if_neg he, ← String.toList_inj, String.toList_ofList, String.toList_append, String.length_append,
    Nat.add_sub_cancel, ← String.length_toList, List.take_left]

inductive Names (s : Settings) : List String → List String → Prop
  | file (dirs : List String) (stem : String) (h : stem ++ s.sourceExtension ≠ s.packageFile) :
      Names s (dirs ++ [stem ++ s.sourceExtension]) (dirs ++ [stem])
  | package {dirs : List String} (h : dirs ≠ []) : Names s (dirs ++ [s.packageFile]) dirs

theorem Names.ne_nil {parts segments : List String} (h : s.Names parts segments) : segments ≠ [] := by
  cases h with
  | file dirs stem h => simp
  | package h => exact h

theorem nameBelow?_eq_some (hs : s.IsPlain) {parts : List String} {name : String} :
    s.nameBelow? parts = some name ↔ ∃ segments, s.Names parts segments ∧ ".".intercalate segments = name := by
  constructor
  · intro h
    rcases List.eq_nil_or_concat parts with rfl | ⟨dirs, file, rfl⟩
    · cases h
    rw [List.concat_eq_append, nameBelow?, List.getLast?_concat, List.dropLast_concat] at h
    dsimp only at h
    split at h
    · cases h
    rename_i hsource
    split at h
    · rename_i hpackage
      subst hpackage
      split at h
      · cases h
      · rename_i hdirs
        rw [List.concat_eq_append]
        exact ⟨dirs, .package hdirs, Option.some.inj h⟩
    · rename_i hpackage
      obtain ⟨stem, rfl⟩ := isSourceName_iff.mp (not_not.mp hsource)
      rw [stem_append hs.extension_ne_empty] at h
      rw [List.concat_eq_append]
      exact ⟨dirs ++ [stem], .file dirs stem hpackage, Option.some.inj h⟩
  · rintro ⟨segments, hnames, rfl⟩
    cases hnames with
    | file dirs stem h =>
      have hsource : s.isSourceName (stem ++ s.sourceExtension) = true := isSourceName_iff.mpr ⟨stem, rfl⟩
      simp [nameBelow?, hsource, h, stem_append hs.extension_ne_empty]
    | package h => simp [nameBelow?, hs.isSourceName_packageFile, h]

/-- No directory and no stem in these components has a dot in it. The name of a package file may have one. -/
def DotFree (s : Settings) (parts : List String) : Prop :=
  (∀ dir ∈ parts.dropLast, '.' ∉ dir.toList) ∧
    ∀ file ∈ parts.getLast?, file ≠ s.packageFile → '.' ∉ (s.stem file).toList

instance (s : Settings) (parts : List String) : Decidable (s.DotFree parts) := inferInstanceAs (Decidable (_ ∧ _))

theorem DotFree.segments (hs : s.IsPlain) {parts segments : List String} (h : s.DotFree parts)
    (hn : s.Names parts segments) : ∀ segment ∈ segments, '.' ∉ segment.toList := by
  obtain ⟨hdirs, hstem⟩ := h
  cases hn with
  | file dirs stem hne =>
    rw [List.dropLast_concat] at hdirs
    have hlast := hstem _ List.getLast?_concat hne
    rw [stem_append hs.extension_ne_empty] at hlast
    intro segment hsegment
    rcases List.mem_append.mp hsegment with hsegment | hsegment
    · exact hdirs segment hsegment
    · rw [List.mem_singleton.mp hsegment]
      exact hlast
  | package hne =>
    rw [List.dropLast_concat] at hdirs
    exact hdirs

theorem intercalate_dot_injective {names others : List String} (hn : names ≠ []) (ho : others ≠ [])
    (hdn : ∀ name ∈ names, '.' ∉ name.toList) (hdo : ∀ name ∈ others, '.' ∉ name.toList)
    (h : ".".intercalate names = ".".intercalate others) : names = others := by
  have hsplit {l : List String} (hl : l ≠ []) (hd : ∀ name ∈ l, '.' ∉ name.toList) :
      (".".intercalate l).toList.splitOn '.' = l.map String.toList := by
    rw [String.toList_intercalate, show ".".toList = ['.'] from rfl]
    apply List.splitOn_intercalate
    · intro cs hcs
      obtain ⟨name, hname, rfl⟩ := List.mem_map.mp hcs
      exact hd name hname
    · simpa using hl
  have hmap : names.map String.toList = others.map String.toList := by
    rw [← hsplit hn hdn, h, hsplit ho hdo]
  exact List.map_injective_iff.mpr (fun _ _ => String.toList_inj.mp) hmap

def SharesName (s : Settings) (p q : Path) : Prop :=
  ∃ dir : Path, p = dir.append [s.packageFile] ∧ q.text = dir.text ++ s.sourceExtension

theorem sharesName_append (s : Settings) (root : Path) (dirs : List String) (stem : String) :
    s.SharesName (root.append (dirs ++ [stem] ++ [s.packageFile]))
      (root.append (dirs ++ [stem ++ s.sourceExtension])) := by
  refine ⟨root.append (dirs ++ [stem]), ?_, Path.text_append_concat root dirs stem s.sourceExtension⟩
  simp [Path.append]

theorem Names.eq_or_sharesName {parts others segments : List String} (hp : s.Names parts segments)
    (ho : s.Names others segments) (root : Path) :
    parts = others ∨ s.SharesName (root.append parts) (root.append others) ∨
      s.SharesName (root.append others) (root.append parts) := by
  cases hp with
  | file dirs stem h =>
    generalize hseg : dirs ++ [stem] = segments at ho
    cases ho with
    | file dirs' stem' h' =>
      obtain ⟨rfl, hstem⟩ := List.append_inj' hseg rfl
      rw [List.singleton_inj.mp hstem]
      exact .inl rfl
    | package h' =>
      subst hseg
      exact .inr (.inr (sharesName_append s root dirs stem))
  | package h =>
    cases ho with
    | file dirs stem h' => exact .inr (.inl (sharesName_append s root dirs stem))
    | package h' => exact .inl rfl

theorem IsPlain.isResolved_packageFile (hs : s.IsPlain) : Path.IsResolved ⟨.slash, [s.packageFile]⟩ := by
  have hne : s.packageFile ≠ "" := by
    obtain ⟨stem, hstem⟩ := isSourceName_iff.mp hs.isSourceName_packageFile
    intro he
    rw [he] at hstem
    exact hs.extension_ne_empty (String.append_eq_empty_iff.mp hstem.symm).2
  exact Path.isResolved_singleton ⟨by simp [Path.isStep, hne, hs.notDot], hs.package⟩ hs.notUp

theorem IsPlain.isResolved_file (hs : s.IsPlain) {stem : String} (h : Path.IsResolved ⟨.slash, [stem]⟩) :
    Path.IsResolved ⟨.slash, [stem ++ s.sourceExtension]⟩ := by
  have hcomponent := h.proper stem List.mem_cons_self
  have hstep : stem ≠ "" ∧ stem ≠ "." := by simpa [Path.isStep] using hcomponent.1
  obtain ⟨c, cs, hc⟩ := List.exists_cons_of_ne_nil (String.toList_eq_nil_iff.not.mpr hstep.1)
  obtain ⟨d, ds, hd⟩ := List.exists_cons_of_ne_nil (String.toList_eq_nil_iff.not.mpr hs.extension_ne_empty)
  -- with a single dot for the extension, a double dot would have a single dot for its stem
  have hlong {t : String} (ht : stem ++ s.sourceExtension = t) : t.toList = c :: (cs ++ d :: ds) := by
    rw [← ht, String.toList_append, hc, hd, List.cons_append]
  have hdot : stem ++ s.sourceExtension ≠ "." := by
    intro he
    simpa using hlong he
  have hup : stem ++ s.sourceExtension ≠ ".." := by
    intro he
    have hl := hlong he
    cases cs with
    | nil =>
      have hc' : c = '.' := by
        rw [show "..".toList = ['.', '.'] from rfl] at hl
        exact (List.cons.inj hl).1.symm
      apply hstep.2
      rw [← String.toList_inj, hc, hc']
      rfl
    | cons e es =>
      have := congrArg List.length hl
      simp at this
  apply Path.isResolved_singleton ⟨?_, ?_⟩ hup
  · have hempty : stem ++ s.sourceExtension ≠ "" := fun he => hstep.1 (String.append_eq_empty_iff.mp he).1
    simp [Path.isStep, hempty, hdot]
  · rw [String.toList_append, List.mem_append, not_or]
    exact ⟨hcomponent.2, hs.extension⟩

theorem Names.isResolved (hs : s.IsPlain) {parts segments : List String} (hn : s.Names parts segments)
    (h : Path.IsResolved ⟨.slash, segments⟩) : Path.IsResolved ⟨.slash, parts⟩ := by
  cases hn with
  | file dirs stem hne =>
    have hdirs : Path.IsResolved ⟨.slash, dirs⟩ := h.of_subset nofun (List.subset_append_left dirs [stem])
    exact hdirs.append (hs.isResolved_file (h.of_subset nofun (List.subset_append_right dirs [stem])))
  | package hne => exact h.append hs.isResolved_packageFile

theorem Names.moduleName?_eq (hs : s.IsPlain) {parts segments : List String} (hn : s.Names parts segments)
    {roots : List Path} {root : Path} (hroot : root.IsResolved)
    (hsegments : Path.IsResolved ⟨.slash, segments⟩) (hd : Decides roots root (root.append parts)) (h : Host) :
    moduleName? s roots (h.absolute (root.append parts).text) = some (".".intercalate segments) := by
  have hresolved : (root.append parts).IsResolved := hroot.append (hn.isResolved hs hsegments)
  rw [Host.absolute_text hresolved, moduleName?_of_decides hd]
  exact (nameBelow?_eq_some hs).mpr ⟨segments, hn, rfl⟩

end Settings

/-- Below a root, every dotted name is that of a file and of a package file, unless an earlier root contains it. Two
files decided by one root, with no dots but that of the extension, are the same if their names are, or else are such a
pair. -/
theorem moduleName?_one_to_one (h : Host) {s : Settings} (hs : s.IsPlain) (roots : List Path) {root : Path}
    (hroot : root.IsResolved) :
    (∀ dirs last, (∀ segment ∈ dirs ++ [last], segment ∉ ["", ".", ".."] ∧ '/' ∉ segment.toList) →
      (last ++ s.sourceExtension ≠ s.packageFile →
        Decides roots root (root.append (dirs ++ [last ++ s.sourceExtension])) →
        moduleName? s roots (h.absolute (root.append (dirs ++ [last ++ s.sourceExtension])).text) =
          some (".".intercalate (dirs ++ [last]))) ∧
      (Decides roots root (root.append (dirs ++ [last] ++ [s.packageFile])) →
        moduleName? s roots (h.absolute (root.append (dirs ++ [last] ++ [s.packageFile])).text) =
          some (".".intercalate (dirs ++ [last])))) ∧
    (∀ file other parts others, h.absolute file = root.append parts → h.absolute other = root.append others →
      Decides roots root (h.absolute file) → Decides roots root (h.absolute other) →
      s.DotFree parts → s.DotFree others → ∀ name, moduleName? s roots (h.absolute file) = some name →
      moduleName? s roots (h.absolute other) = some name →
      h.absolute file = h.absolute other ∨ s.SharesName (h.absolute file) (h.absolute other) ∨
        s.SharesName (h.absolute other) (h.absolute file)) := by
  constructor
  · intro dirs last hsegments
    have hresolved : Path.IsResolved ⟨.slash, dirs ++ [last]⟩ := by
      refine ⟨nofun, ?_, ?_⟩
      · intro segment hsegment
        obtain ⟨hne, hslash⟩ := hsegments segment hsegment
        simp only [List.mem_cons, List.not_mem_nil, or_false, not_or] at hne
        exact ⟨by simp [Path.isStep, hne], hslash⟩
      · intro hup
        exact (hsegments ".." hup).1 (by simp)
    constructor
    · intro hne hd
      exact (Settings.Names.file dirs last hne).moduleName?_eq hs hroot hresolved hd h
    · intro hd
      exact (Settings.Names.package (by simp)).moduleName?_eq hs hroot hresolved hd h
  · intro file other parts others hfile hother hdf hdo hfree hfree' name hname hname'
    rw [hfile] at hdf hname
    rw [hother] at hdo hname'
    rw [moduleName?_of_decides hdf, Settings.nameBelow?_eq_some hs] at hname
    rw [moduleName?_of_decides hdo, Settings.nameBelow?_eq_some hs] at hname'
    obtain ⟨segments, hn, rfl⟩ := hname
    obtain ⟨segments', hn', he⟩ := hname'
    obtain rfl : segments' = segments :=
      Settings.intercalate_dot_injective hn'.ne_nil hn.ne_nil (hfree'.segments hs hn') (hfree.segments hs hn) he
    rw [hfile, hother]
    rcases hn.eq_or_sharesName hn' root with rfl | hshares
    · exact .inl rfl
    · exact .inr hshares

theorem moduleName?_one_to_one_package :
    let h : Host := default
    let roots : List Path := [⟨.slash, ["t", "x"]⟩, ⟨.slash, ["t"]⟩]
    ({} : Settings).IsPlain ∧ Path.IsResolved ⟨.slash, ["t"]⟩ ∧
      Decides roots ⟨.slash, ["t"]⟩ (h.absolute "/t/a/b.abl") ∧
      Decides roots ⟨.slash, ["t"]⟩ (h.absolute "/t/a/b/__init__.abl") ∧
      moduleName? {} roots (h.absolute "/t/a/b.abl") = some "a.b" ∧
      moduleName? {} roots (h.absolute "/t/a/b/__init__.abl") = some "a.b" ∧
      (Settings.SharesName {} (h.absolute "/t/a/b.abl") (h.absolute "/t/a/b/__init__.abl") ∨
        Settings.SharesName {} (h.absolute "/t/a/b/__init__.abl") (h.absolute "/t/a/b.abl")) := by
  intro h roots
  have hs : ({} : Settings).IsPlain := ⟨by decide +kernel, by decide, by decide, by decide, by decide⟩
  have hroot : Path.IsResolved ⟨.slash, ["t"]⟩ := by decide +kernel
  have hfile : h.absolute "/t/a/b.abl" = Path.append ⟨.slash, ["t"]⟩ ["a", "b.abl"] := by
    unfold h
    decide +kernel
  have hpackage : h.absolute "/t/a/b/__init__.abl" = Path.append ⟨.slash, ["t"]⟩ ["a", "b", "__init__.abl"] := by
    unfold h
    decide +kernel
  have hdecides (rest : List String) : Decides roots ⟨.slash, ["t"]⟩ (Path.append ⟨.slash, ["t"]⟩ ("a" :: rest)) := by
    refine ⟨⟨"a" :: rest, rfl⟩, [⟨.slash, ["t", "x"]⟩], [], rfl, ?_⟩
    intro other ho hcontains
    obtain ⟨parts, hparts⟩ := List.mem_singleton.mp ho ▸ hcontains
    simp [Path.append] at hparts
  obtain ⟨hnames, hunique⟩ := moduleName?_one_to_one h hs roots hroot
  obtain ⟨hname, hname'⟩ := hnames ["a"] "b" (by decide)
  replace hname := hname (by decide) (hdecides ["b.abl"])
  replace hname' := hname' (hdecides ["b", "__init__.abl"])
  rw [show (Path.append ⟨.slash, ["t"]⟩ (["a"] ++ ["b" ++ ".abl"])).text = "/t/a/b.abl" by decide +kernel] at hname
  rw [show (Path.append ⟨.slash, ["t"]⟩ (["a"] ++ ["b"] ++ ["__init__.abl"])).text = "/t/a/b/__init__.abl" by
    decide +kernel] at hname'
  have hd := hfile ▸ hdecides ["b.abl"]
  have hd' := hpackage ▸ hdecides ["b", "__init__.abl"]
  have hshares := hunique _ _ _ _ hfile hpackage hd hd' (by decide +kernel) (by decide +kernel) _ hname hname'
  exact ⟨hs, hroot, hd, hd', hname, hname', hshares.resolve_left (by rw [hfile, hpackage]; decide +kernel)⟩

end AbleIndex
