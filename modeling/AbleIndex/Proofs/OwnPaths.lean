import AbleIndex.Proofs.Roots
import AbleIndex.Proofs.Spelling

namespace AbleIndex

/-- No name on the disk is a dot or holds a slash or a NUL, and the names of the current directory lead to it. Names are
texts, so a name whose bytes are no UTF-8 is on no such disk. -/
structure Host.IsSound (h : Host) : Prop where
  proper : h.disk.IsProper
  usable : ∀ loc ∈ h.disk.entries.keys, ∀ name ∈ loc, Path.isUsable name = true
  arrives : h.disk.reach [] h.cwd.parts = .ok h.cwd.parts
  directory : h.disk.isDirectoryAt h.cwd.parts = true

namespace Path

theorem isUsable_append (s t : String) : isUsable (s ++ t) = (isUsable s && isUsable t) := by
  simp [isUsable]

theorem isUsable_intercalate {parts : List String} (h : ∀ part ∈ parts, isUsable part = true) :
    isUsable ("/".intercalate parts) = true := by
  induction parts with
  | nil => decide
  | cons part parts ih =>
    have hpart := h part List.mem_cons_self
    have hparts := ih fun q hq => h q (List.mem_cons_of_mem part hq)
    cases parts with
    | nil => rwa [String.intercalate_singleton]
    | cons q qs =>
      rw [String.intercalate_cons_cons, isUsable_append, isUsable_append, hpart, hparts]
      decide

theorem isUsable_text {parts : List String} (h : ∀ part ∈ parts, isUsable part = true) :
    isUsable (text ⟨.slash, parts⟩) = true := by
  rw [text_eq (by simp), isUsable_append, isUsable_intercalate h]
  decide

theorem utf8ByteSize_text_dropLast (parts : List String) :
    (text ⟨.slash, parts.dropLast⟩).utf8ByteSize ≤ (text ⟨.slash, parts⟩).utf8ByteSize := by
  rw [text_eq (by simp), text_eq (by simp), String.utf8ByteSize_append, String.utf8ByteSize_append]
  rcases List.eq_nil_or_concat parts with rfl | ⟨dir, name, rfl⟩
  · exact Nat.le_refl _
  · rw [List.concat_eq_append, List.dropLast_concat]
    by_cases hdir : dir = []
    · simp [hdir]
    · rw [String.intercalate_append_of_ne_nil hdir (by simp), String.utf8ByteSize_append, String.utf8ByteSize_append]
      omega

end Path

namespace Disk

open AbleIndex.Path

/-- A location below directories that are no links, and no link itself. -/
inductive Stands (d : Disk) : Location → Prop
  | root : d.Stands []
  | entry {dir : Location} {name : String} {node : Node} (hdir : d.Stands dir)
    (hopen : d.isDirectoryAt dir = true) (hsize : name.utf8ByteSize ≤ nameLimit)
    (hnode : d.node? (dir ++ [name]) = some node) (hlink : ∀ target, node ≠ .link target) :
    d.Stands (dir ++ [name])

variable {d : Disk} {loc loc' : Location} {segments : List String}

theorem Stands.dropLast (hs : d.Stands loc) : d.Stands loc.dropLast ∧ d.isDirectoryAt loc.dropLast = true := by
  cases hs with
  | root => exact ⟨.root, rfl⟩
  | entry hdir hopen _ _ _ =>
    rw [List.dropLast_concat]
    exact ⟨hdir, hopen⟩

theorem Stands.exists_node (hs : d.Stands loc) : ∃ node, d.node? loc = some node ∧ ∀ target, node ≠ .link target := by
  cases hs with
  | root => exact ⟨.directory, rfl, nofun⟩
  | entry _ _ _ hnode hlink => exact ⟨_, hnode, hlink⟩

theorem Stands.isResolved (hs : d.Stands loc) (hd : d.IsProper) : IsResolved ⟨.slash, loc⟩ := by
  cases hs with
  | root => exact isResolved_root
  | entry _ _ _ hnode _ => exact hd _ (mem_keys_concat.mpr (by rw [hnode]; rfl))

theorem stands_walkUntilLink {follow : Location → List String → Except LookupError Location}
    (hfollow : ∀ loc segments loc', d.Stands loc → follow loc segments = .ok loc' → d.Stands loc')
    (hs : d.Stands loc) (h : d.walkUntilLink false follow loc segments = .ok loc') : d.Stands loc' := by
  induction segments generalizing loc with
  | nil =>
    rw [walkUntilLink, Except.ok.injEq] at h
    exact h ▸ hs
  | cons s rest ih =>
    rw [walkUntilLink] at h
    simp only [Bool.false_and, Bool.false_eq_true, if_false] at h
    split at h
    · cases h
    rename_i hopen
    split at h
    · exact ih hs h
    split at h
    · exact ih hs.dropLast.1 h
    split at h
    · cases h
    rename_i hsize
    split at h
    · cases h
    · refine hfollow _ _ _ ?_ h
      split
      · exact .root
      · exact hs
    · rename_i node hlink hnode
      exact ih (.entry hs (not_not.mp hopen) (Nat.le_of_not_lt hsize) hnode hlink) h

theorem stands_walk {links : Nat} (hs : d.Stands loc) (h : d.walk false links loc segments = .ok loc') :
    d.Stands loc' := by
  induction links generalizing loc segments loc' with
  | zero => exact stands_walkUntilLink (fun _ _ _ _ he => by cases he) hs h
  | succ links ih => exact stands_walkUntilLink (fun _ _ _ hl he => ih hl he) hs h

theorem Stands.walkUntilLink_append (hs : d.Stands loc) (hd : d.IsProper)
    (follow : Location → List String → Except LookupError Location) (rest : List String) :
    d.walkUntilLink false follow [] (loc ++ rest) = d.walkUntilLink false follow loc rest := by
  induction hs generalizing rest with
  | root => rfl
  | @entry dir name node hdir hopen hsize hnode hlink ih =>
    have hresolved := (Stands.entry hdir hopen hsize hnode hlink).isResolved hd
    have hname : name ∈ dir ++ [name] := by simp
    have hblank : ¬ (name = "" ∨ name = ".") := by
      simpa [isStep] using (hresolved.proper name hname).1
    have hup : name ≠ ".." := fun he => hresolved.climbed (he ▸ hname)
    rw [List.append_assoc, ih, List.singleton_append, walkUntilLink, if_neg (not_not_intro hopen), if_neg hblank,
      if_neg hup, Bool.false_and, Bool.false_and, if_neg Bool.false_ne_true, if_neg (Nat.not_lt.mpr hsize), hnode]
    cases node with
    | link target => exact absurd rfl (hlink target)
    | directory => rfl
    | file content => rfl

theorem Stands.walk (hs : d.Stands loc) (hd : d.IsProper) (links : Nat) : d.walk false links [] loc = .ok loc := by
  have hwalk (follow : Location → List String → Except LookupError Location) :
      d.walkUntilLink false follow [] loc = .ok loc := by
    simpa [walkUntilLink] using hs.walkUntilLink_append hd follow []
  cases links with
  | zero => exact hwalk _
  | succ links => exact hwalk _

theorem walk_blank {blank : String} (hb : isStep blank = false) (links : Nat) (rest : List String) :
    d.walk false links [] (blank :: rest) = d.walk false links [] rest := by
  cases links with
  | zero => exact walkUntilLink_cons_of_not_isStep hb _ [] rest
  | succ links => exact walkUntilLink_cons_of_not_isStep hb _ [] rest

theorem Stands.locate_text (hs : d.Stands loc) (hd : d.IsProper)
    (husable : ∀ entry ∈ d.entries.keys, ∀ name ∈ entry, isUsable name = true) (cwd : Location) :
    d.locate cwd (text ⟨.slash, loc⟩) =
      if (text ⟨.slash, loc⟩).utf8ByteSize ≤ pathLimit then .ok loc else .error .nameTooLong := by
  have hresolved := hs.isResolved hd
  have habs : isAbsolute (text ⟨.slash, loc⟩) = true := isAbsolute_text hresolved.absolute
  have hne : text ⟨.slash, loc⟩ ≠ "" := by
    intro he
    rw [he] at habs
    exact absurd habs (by decide)
  have hnames : ∀ name ∈ loc, isUsable name = true := by
    cases hs with
    | root => simp
    | entry _ _ _ hnode _ => exact husable _ (mem_keys_concat.mpr (by rw [hnode]; rfl))
  have hreach : d.reach [] (segments (text ⟨.slash, loc⟩)) = .ok loc := by
    rw [text_eq (.inl hresolved.absolute), Anchor.text, segments_slash, reach, walk_blank (by decide)]
    cases loc with
    | nil => exact walk_blank (by decide) _ []
    | cons name rest =>
      rw [segments_intercalate (by simp) hresolved.proper]
      exact hs.walk hd _
  rw [locate, if_neg hne, if_neg (not_not_intro (isUsable_text hnames)), if_pos habs, hreach]
  split
  · rw [if_neg (by omega)]
  · rw [if_pos (by omega)]

end Disk

namespace Host

variable {h : Host} {s : String} {loc : Location} {n : Node}

def Fits (h : Host) (s : String) : Prop := (h.realPath s).text.utf8ByteSize ≤ Disk.pathLimit

instance (h : Host) (s : String) : Decidable (h.Fits s) :=
  inferInstanceAs (Decidable (_ ≤ _))

theorem exists_locate (hl : h.lookup s = .ok n) :
    ∃ loc, h.disk.locate h.cwd.parts s = .ok loc ∧ h.disk.node? loc = some n := by
  unfold lookup Disk.lookup at hl
  cases hloc : h.disk.locate h.cwd.parts s with
  | error e => simp [hloc, bind, Except.bind] at hl
  | ok loc =>
    simp only [hloc, bind, Except.bind] at hl
    refine ⟨loc, rfl, ?_⟩
    split at hl
    · rename_i hnode
      rw [hnode, Except.ok.inj hl]
    · cases hl

theorem realPath_of_locate (hl : h.disk.locate h.cwd.parts s = .ok loc) : h.realPath s = ⟨.slash, loc⟩ := by
  rw [realPath, hl]

theorem IsSound.stands_cwd (hs : h.IsSound) : h.disk.Stands h.cwd.parts := Disk.stands_walk .root hs.arrives

theorem IsSound.stands_locate (hs : h.IsSound) (hl : h.disk.locate h.cwd.parts s = .ok loc) : h.disk.Stands loc := by
  unfold Disk.locate at hl
  split at hl
  · cases hl
  split at hl
  · cases hl
  split at hl
  · cases hl
  refine Disk.stands_walk ?_ hl
  split
  · exact .root
  · exact hs.stands_cwd

theorem IsSound.lookup_text (hs : h.IsSound) (hstands : h.disk.Stands loc) (hnode : h.disk.node? loc = some n) :
    h.lookup (Path.text ⟨.slash, loc⟩) =
      if (Path.text ⟨.slash, loc⟩).utf8ByteSize ≤ Disk.pathLimit then .ok n else .error .nameTooLong := by
  rw [lookup, Disk.lookup, hstands.locate_text hs.proper hs.usable]
  split
  · simp [hnode, bind, Except.bind]
  · rfl

theorem IsSound.lookup_realPath (hs : h.IsSound) (hl : h.lookup s = .ok n) :
    (h.realPath s).IsResolved ∧ (h.Fits s → h.lookup (h.realPath s).text = .ok n) ∧
      (¬ h.Fits s → h.lookup (h.realPath s).text = .error .nameTooLong) := by
  obtain ⟨loc, hloc, hnode⟩ := exists_locate hl
  have hstands := hs.stands_locate hloc
  have hlookup := hs.lookup_text hstands hnode
  unfold Fits
  rw [realPath_of_locate hloc]
  exact ⟨hstands.isResolved hs.proper, fun hfits => hlookup.trans (if_pos hfits),
    fun hlong => hlookup.trans (if_neg hlong)⟩

theorem IsSound.lookup_parent (hs : h.IsSound) (hl : h.lookup s = .ok n) :
    (h.realPath s).parent.IsResolved ∧
      (h.Fits s → h.lookup (h.realPath s).parent.text = .ok .directory) ∧
      (h.lookup (h.realPath s).parent.text = .ok .directory ∨
        h.lookup (h.realPath s).parent.text = .error .nameTooLong) := by
  obtain ⟨loc, hloc, -⟩ := exists_locate hl
  obtain ⟨hstands, hdir⟩ := (hs.stands_locate hloc).dropLast
  have hlookup := hs.lookup_text hstands (Disk.isDirectoryAt_iff.mp hdir)
  have hshorter := Path.utf8ByteSize_text_dropLast loc
  unfold Fits
  rw [realPath_of_locate hloc, Path.parent]
  refine ⟨hstands.isResolved hs.proper, ?_, ?_⟩
  · intro hfits
    rw [hlookup, if_pos (hshorter.trans hfits)]
  · rw [hlookup]
    split
    · exact .inl rfl
    · exact .inr rfl

theorem IsSound.lookup_dot (hs : h.IsSound) : h.lookup "." = .ok .directory := by
  have hwalk : h.disk.walk false Disk.linkLimit h.cwd.parts ["."] = .ok h.cwd.parts := by
    rw [Disk.linkLimit, Disk.walk, Disk.walkUntilLink_cons_of_not_isStep (by decide),
      if_neg (not_not_intro hs.directory), Disk.walkUntilLink]
  have hlocate : h.disk.locate h.cwd.parts "." = .ok h.cwd.parts := hwalk
  rw [lookup, Disk.lookup, hlocate]
  simp [Disk.isDirectoryAt_iff.mp hs.directory, bind, Except.bind]

theorem IsSound.exists_bytes (hs : h.IsSound) (hl : h.lookup s = .ok n) (hn : n.isDirectory = false) :
    ∃ bytes, n = .file bytes := by
  obtain ⟨loc, hloc, hnode⟩ := exists_locate hl
  obtain ⟨node, hnode', hlink⟩ := (hs.stands_locate hloc).exists_node
  rw [hnode, Option.some.injEq] at hnode'
  subst hnode'
  cases n with
  | directory => cases hn
  | file bytes => exact ⟨bytes, rfl⟩
  | link target => exact absurd rfl (hlink target)

end Host

end AbleIndex
