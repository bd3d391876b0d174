import AbleIndex.Files.Discovery
import Mathlib.Data.List.Basic

namespace AbleIndex

theorem SortedMap.mem_keys {κ α : Type} [LT κ] [DecidableEq κ] {m : SortedMap κ α} {k : κ} :
    k ∈ m.keys ↔ (m.find? k).isSome = true := by
  obtain ⟨es, hes⟩ := m
  unfold keys find?
  dsimp only
  clear hes
  induction es with
  | nil => simp
  | cons e es ih =>
    rw [List.map_cons, List.mem_cons, ih, lookup_cons_if]
    by_cases hk : k = e.1 <;> simp [hk]

namespace Disk

variable {d : Disk} {s : Settings} {dir root loc : Location} {name : String} {dirs parts : List String} {levels : Nat}

structure IsSource (d : Disk) (s : Settings) (dir : Location) (name : String) : Prop where
  entry : (d.node? (dir ++ [name])).isSome = true
  notDirectory : d.target (dir ++ [name]) ≠ .ok .directory
  shown : name.toList.head? ≠ some '.'
  extension : s.sourceExtension.toList <:+ name.toList
  size : ∀ megabytes ∈ s.maxFileMegabytes, ∃ content, d.target (dir ++ [name]) = .ok (.file content) ∧
    (content.size : Int) ≤ megabytes * 1048576

/-- A source file that a listing shows, below directories that are no links and are neither hidden nor excluded. -/
structure InPlainSight (d : Disk) (s : Settings) (root : Location) (dirs : List String) (name : String) : Prop where
  directories : ∀ above, above <+: dirs → above ≠ [] → d.node? (root ++ above) = some .directory
  entered : ∀ dir ∈ dirs, dir.toList.head? ≠ some '.' ∧ dir ∉ s.excludedDirs
  source : d.IsSource s (root ++ dirs) name

theorem isDirectoryAt_iff : d.isDirectoryAt loc = true ↔ d.node? loc = some .directory := by
  unfold isDirectoryAt
  cases d.node? loc with
  | none => simp
  | some n => cases n <;> simp [Node.isDirectory]

theorem enters_iff : s.enters name = true ↔ name.toList.head? ≠ some '.' ∧ name ∉ s.excludedDirs := by
  simp [Settings.enters, isHidden]

theorem mem_keys_concat : dir ++ [name] ∈ d.entries.keys ↔ (d.node? (dir ++ [name])).isSome = true := by
  rw [SortedMap.mem_keys]
  cases dir <;> rfl

theorem isSourceEntry_iff :
    d.isSourceEntry s.maxFileBytes loc = true ↔ d.target loc ≠ .ok .directory ∧
      ∀ megabytes ∈ s.maxFileMegabytes, ∃ content, d.target loc = .ok (.file content) ∧
        (content.size : Int) ≤ megabytes * 1048576 := by
  unfold isSourceEntry Settings.maxFileBytes
  cases s.maxFileMegabytes with
  | none =>
    rcases d.target loc with e | (_ | content | target) <;> simp
  | some megabytes =>
    rcases d.target loc with e | (_ | content | target) <;> simp

theorem mem_namesIn : name ∈ d.namesIn dir ↔ dir ++ [name] ∈ d.entries.keys := by
  simp only [namesIn, List.mem_filterMap, Option.ite_none_right_eq_some, List.getLast?_eq_some_iff]
  constructor
  · rintro ⟨entry, hentry, rfl, init, rfl⟩
    rwa [List.dropLast_concat]
  · intro hentry
    exact ⟨dir ++ [name], hentry, List.dropLast_concat, dir, rfl⟩

theorem lt_of_concat_lt_concat {dir : Location} {a b : String} (h : dir ++ [a] < dir ++ [b]) : a < b := by
  induction dir with
  | nil => simpa [List.cons_lt_cons_iff] using h
  | cons x dir ih =>
    rcases List.cons_lt_cons_iff.mp h with hx | ⟨-, h⟩
    · exact absurd hx (String.lt_irrefl x)
    · exact ih h

theorem sorted_namesIn (d : Disk) (dir : Location) : (d.namesIn dir).Pairwise (· < ·) := by
  rw [namesIn, List.pairwise_filterMap]
  refine d.entries.sorted.imp ?_
  intro entry entry' hlt a ha b hb
  simp only [Option.ite_none_right_eq_some, List.getLast?_eq_some_iff] at ha hb
  obtain ⟨rfl, init, rfl⟩ := ha
  obtain ⟨hdir, init', rfl⟩ := hb
  rw [List.dropLast_concat, List.dropLast_concat] at hdir
  subst hdir
  exact lt_of_concat_lt_concat hlt

theorem isSource_iff : d.IsSource s dir name ↔ name ∈ d.namesIn dir ∧ d.isVisibleSource s dir name = true := by
  rw [mem_namesIn, mem_keys_concat, isVisibleSource, Bool.and_eq_true, Bool.and_eq_true, isSourceEntry_iff,
    Settings.isSourceName, List.isSuffixOf_iff_suffix]
  constructor
  · rintro ⟨hentry, hnot, hshown, hextension, hsize⟩
    exact ⟨hentry, ⟨by simpa [isHidden] using hshown, hextension⟩, hnot, hsize⟩
  · rintro ⟨hentry, ⟨hshown, hextension⟩, hnot, hsize⟩
    exact ⟨hentry, hnot, by simpa [isHidden] using hshown, hextension, hsize⟩

theorem inPlainSight_nil : d.InPlainSight s root [] name ↔ d.IsSource s root name := by
  constructor
  · intro h
    simpa using h.source
  · intro h
    refine ⟨?_, by simp, by simpa using h⟩
    intro above habove hne
    exact absurd (List.prefix_nil.mp habove) hne

theorem inPlainSight_cons {first : String} :
    d.InPlainSight s root (first :: dirs) name ↔
      s.enters first = true ∧ d.isDirectoryAt (root ++ [first]) = true ∧
        d.InPlainSight s (root ++ [first]) dirs name := by
  rw [enters_iff, isDirectoryAt_iff]
  constructor
  · intro h
    refine ⟨h.entered first List.mem_cons_self, h.directories [first] ?_ (by simp), ?_, ?_, ?_⟩
    · exact List.prefix_cons_inj first |>.mpr List.nil_prefix
    · intro above habove hne
      rw [List.append_assoc, List.singleton_append]
      exact h.directories (first :: above) ((List.prefix_cons_inj first).mpr habove) (by simp)
    · intro dir hdir
      exact h.entered dir (List.mem_cons_of_mem first hdir)
    · simpa using h.source
  · rintro ⟨henters, hfirst, h⟩
    refine ⟨?_, ?_, by simpa using h.source⟩
    · intro above habove hne
      rcases List.prefix_cons_iff.mp habove with rfl | ⟨rest, rfl, hrest⟩
      · exact absurd rfl hne
      · cases rest with
        | nil => exact hfirst
        | cons second rest => simpa using h.directories (second :: rest) hrest (by simp)
    · intro dir hdir
      rcases List.mem_cons.mp hdir with rfl | hdir
      · exact henters
      · exact h.entered dir hdir

theorem mem_walkSources_succ :
    parts ∈ d.walkSources s (levels + 1) dir ↔
      (∃ name, parts = [name] ∧ d.IsSource s dir name) ∨
      ∃ first rest, parts = first :: rest ∧ s.enters first = true ∧ d.isDirectoryAt (dir ++ [first]) = true ∧
        rest ∈ d.walkSources s levels (dir ++ [first]) := by
  simp only [walkSources, List.mem_flatMap, List.mem_append, isSource_iff]
  constructor
  · rintro ⟨name, hname, h | h⟩
    · rw [List.mem_ite_nil_right, List.mem_singleton] at h
      exact .inl ⟨name, h.2, hname, h.1⟩
    · rw [List.mem_ite_nil_right, Bool.and_eq_true, List.mem_map] at h
      obtain ⟨⟨henters, hdir⟩, rest, hrest, rfl⟩ := h
      exact .inr ⟨name, rest, rfl, henters, hdir, hrest⟩
  · rintro (⟨name, rfl, hname, hvisible⟩ | ⟨first, rest, rfl, henters, hdir, hrest⟩)
    · exact ⟨name, hname, .inl (by simp [hvisible])⟩
    · refine ⟨first, ?_, .inr (by simpa [henters, hdir] using hrest)⟩
      rw [mem_namesIn, mem_keys_concat, isDirectoryAt_iff.mp hdir]
      rfl

theorem mem_walkSources :
    parts ∈ d.walkSources s levels root ↔
      parts.length ≤ levels ∧ ∃ dirs name, parts = dirs ++ [name] ∧ d.InPlainSight s root dirs name := by
  induction levels generalizing root parts with
  | zero =>
    simp only [walkSources, List.not_mem_nil, false_iff]
    rintro ⟨hlen, dirs, name, rfl, -⟩
    simp at hlen
  | succ levels ih =>
    rw [mem_walkSources_succ]
    constructor
    · rintro (⟨name, rfl, hsource⟩ | ⟨first, rest, rfl, henters, hdir, hrest⟩)
      · exact ⟨by simp, [], name, rfl, inPlainSight_nil.mpr hsource⟩
      · obtain ⟨hlen, dirs, name, rfl, hsight⟩ := ih.mp hrest
        refine ⟨by simpa using hlen, first :: dirs, name, rfl, inPlainSight_cons.mpr ⟨henters, hdir, hsight⟩⟩
    · rintro ⟨hlen, dirs, name, rfl, hsight⟩
      cases dirs with
      | nil => exact .inl ⟨name, rfl, inPlainSight_nil.mp hsight⟩
      | cons first dirs =>
        obtain ⟨henters, hdir, hsight⟩ := inPlainSight_cons.mp hsight
        refine .inr ⟨first, dirs ++ [name], rfl, henters, hdir, ih.mpr ⟨?_, dirs, name, rfl, hsight⟩⟩
        simpa using hlen

theorem length_le_height {entry : Location} (h : entry ∈ d.entries.keys) : entry.length ≤ d.height := by
  unfold height
  generalize d.entries.keys = entries at h
  induction entries with
  | nil => cases h
  | cons e es ih =>
    rw [List.foldr_cons]
    rcases List.mem_cons.mp h with rfl | h
    · exact Nat.le_max_left _ _
    · exact Nat.le_trans (ih h) (Nat.le_max_right _ _)

theorem mem_sourcesBelow :
    parts ∈ d.sourcesBelow s root ↔ ∃ dirs name, parts = dirs ++ [name] ∧ d.InPlainSight s root dirs name := by
  rw [sourcesBelow, mem_walkSources]
  refine ⟨fun h => h.2, fun h => ⟨?_, h⟩⟩
  obtain ⟨dirs, name, rfl, hsight⟩ := h
  have hlen := length_le_height (mem_keys_concat.mpr hsight.source.entry)
  simp only [List.length_append] at hlen ⊢
  omega

theorem not_mem_walkSources_nil : [] ∉ d.walkSources s levels root := by
  rw [mem_walkSources]
  rintro ⟨-, dirs, name, he, -⟩
  simp at he

theorem sorted_walkSources (d : Disk) (s : Settings) (levels : Nat) (dir : Location) :
    (d.walkSources s levels dir).Pairwise (· < ·) := by
  induction levels generalizing dir with
  | zero => exact .nil
  | succ levels ih =>
    rw [walkSources, List.pairwise_flatMap]
    constructor
    · intro name _
      rw [List.pairwise_append]
      refine ⟨?_, ?_, ?_⟩
      · split <;> simp
      · split
        · rw [List.pairwise_map]
          exact (ih _).imp fun h => List.cons_lt_cons_iff.mpr (.inr ⟨rfl, h⟩)
        · exact .nil
      · -- a name comes before all that lies below it
        intro file hfile other hother
        rw [List.mem_ite_nil_right, List.mem_singleton] at hfile
        rw [List.mem_ite_nil_right, List.mem_map] at hother
        obtain ⟨-, rfl⟩ := hfile
        obtain ⟨-, rest, hrest, rfl⟩ := hother
        cases rest with
        | nil => exact absurd hrest not_mem_walkSources_nil
        | cons first rest => exact List.cons_lt_cons_iff.mpr (.inr ⟨rfl, List.nil_lt_cons first rest⟩)
    · have hhead {name : String} {parts : List String} (hparts : parts ∈
          (if d.isVisibleSource s dir name then [[name]] else []) ++
            if s.enters name && d.isDirectoryAt (dir ++ [name]) then
              (d.walkSources s levels (dir ++ [name])).map (name :: ·)
            else []) : ∃ rest, parts = name :: rest := by
        rw [List.mem_append, List.mem_ite_nil_right, List.mem_ite_nil_right, List.mem_singleton, List.mem_map] at hparts
        rcases hparts with ⟨-, rfl⟩ | ⟨-, rest, -, rfl⟩
        · exact ⟨[], rfl⟩
        · exact ⟨rest, rfl⟩
      refine (d.sorted_namesIn dir).imp ?_
      intro name next hlt file hfile other hother
      obtain ⟨rest, rfl⟩ := hhead hfile
      obtain ⟨rest', rfl⟩ := hhead hother
      exact List.cons_lt_cons_iff.mpr (.inl hlt)

end Disk

namespace Host

theorem mem_sourceFiles {h : Host} {s : Settings} {root : String} {p : Path} :
    p ∈ h.sourceFiles s root ↔ ∃ loc dirs name, h.disk.locate h.cwd.parts root = .ok loc ∧
      h.disk.node? loc = some .directory ∧ p = (Path.ofString root).append (dirs ++ [name]) ∧
      h.disk.InPlainSight s loc dirs name := by
  unfold sourceFiles
  cases hl : h.disk.locate h.cwd.parts root with
  | error e => simp
  | ok loc =>
    dsimp only
    constructor
    · intro hp
      rw [List.mem_ite_nil_right, Disk.isDirectoryAt_iff, List.mem_map] at hp
      obtain ⟨hdir, parts, hparts, rfl⟩ := hp
      obtain ⟨dirs, name, rfl, hsight⟩ := Disk.mem_sourcesBelow.mp hparts
      exact ⟨loc, dirs, name, rfl, hdir, rfl, hsight⟩
    · rintro ⟨_, dirs, name, hloc, hdir, rfl, hsight⟩
      cases hloc
      rw [List.mem_ite_nil_right, Disk.isDirectoryAt_iff]
      exact ⟨hdir, List.mem_map_of_mem (Disk.mem_sourcesBelow.mpr ⟨dirs, name, rfl, hsight⟩)⟩

theorem sorted_sourceFiles (h : Host) (s : Settings) (root : String) :
    (h.sourceFiles s root).Pairwise fun p q => p.parts < q.parts := by
  unfold sourceFiles
  split
  · exact .nil
  split
  · rw [List.pairwise_map]
    exact (Disk.sorted_walkSources _ _ _ _).imp fun hlt => List.append_left_lt hlt
  · exact .nil

/-- The listing of a directory holds the source files in plain sight below it and nothing else, each of them once, and
in the order of their components. Only what lies below the directory is looked at. A text that is no path is refused. -/
theorem listSources?_plain_sight (h : Host) (s : Settings) (root : String) :
    ∃ files : List Path, h.listSources? s root = (if Path.isUsable root then some files else none) ∧
      (∀ p, p ∈ files ↔ ∃ loc dirs name, h.disk.locate h.cwd.parts root = .ok loc ∧
        h.disk.node? loc = some .directory ∧ p = (Path.ofString root).append (dirs ++ [name]) ∧
        h.disk.InPlainSight s loc dirs name) ∧
      files.Nodup ∧ files.Pairwise fun p q => p.parts < q.parts := by
  refine ⟨h.sourceFiles s root, rfl, fun p => mem_sourceFiles, ?_, h.sorted_sourceFiles s root⟩
  refine (h.sorted_sourceFiles s root).imp ?_
  rintro p _ hlt rfl
  exact List.lt_irrefl _ hlt

-- as a text, the path that is listed first would come second
example :
    let d := ({} : Disk).put ["t", "a.abl"] (.file "".toUTF8)
    let h : Host := { (default : Host) with disk := d.put ["t", "a", "b.abl"] (.file "".toUTF8) }
    h.sourceFiles {} "/t" = [⟨.slash, ["t", "a", "b.abl"]⟩, ⟨.slash, ["t", "a.abl"]⟩] := by
  decide +kernel

end Host

end AbleIndex
