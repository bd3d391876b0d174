import AbleIndex.Files.Change
import AbleIndex.Proofs.PathText

namespace AbleIndex

def Disk.IsProper (d : Disk) : Prop := ∀ loc ∈ d.entries.keys, Path.IsResolved ⟨.slash, loc⟩

instance (d : Disk) : Decidable d.IsProper :=
  inferInstanceAs (Decidable (∀ loc ∈ d.entries.keys, Path.IsResolved ⟨.slash, loc⟩))

namespace Path

theorem isResolved_root : IsResolved ⟨.slash, []⟩ := by decide

theorem IsResolved.of_subset {a b : Anchor} {parts others : List String} (h : IsResolved ⟨a, parts⟩)
    (hb : b ≠ .relative) (hs : others ⊆ parts) : IsResolved ⟨b, others⟩ where
  absolute := hb
  proper part hp := h.proper part (hs hp)
  climbed hp := h.climbed (hs hp)

theorem IsResolved.append {a : Anchor} {parts others : List String} (h : IsResolved ⟨a, parts⟩)
    (ho : IsResolved ⟨.slash, others⟩) : IsResolved ⟨a, parts ++ others⟩ where
  absolute := h.absolute
  proper part hp := by
    rcases List.mem_append.mp hp with hp | hp
    · exact h.proper part hp
    · exact ho.proper part hp
  climbed hp := by
    rcases List.mem_append.mp hp with hp | hp
    · exact h.climbed hp
    · exact ho.climbed hp

theorem isResolved_singleton {name : String} (hc : IsComponent name) (hd : name ≠ "..") :
    IsResolved ⟨.slash, [name]⟩ where
  absolute := nofun
  proper _ hp := List.mem_singleton.mp hp ▸ hc
  climbed hp := hd (List.mem_singleton.mp hp).symm

theorem not_mem_segment {s segment : String} (h : segment ∈ segments s) : '/' ∉ segment.toList := by
  obtain ⟨cs, hcs, rfl⟩ := List.mem_map.mp h
  simpa using Text.not_mem_of_mem_pieces hcs

end Path

namespace Disk

open AbleIndex.Path

variable {d d' : Disk} {base loc loc' : Location} {names : List String}

theorem isResolved_walkUntilLink {fresh : Bool} {follow : Location → List String → Except LookupError Location}
    (hfollow : ∀ loc segments loc', IsResolved ⟨.slash, loc⟩ → (∀ s ∈ segments, '/' ∉ s.toList) →
      follow loc segments = .ok loc' → IsResolved ⟨.slash, loc'⟩)
    {segments : List String} (hloc : IsResolved ⟨.slash, loc⟩) (hs : ∀ s ∈ segments, '/' ∉ s.toList)
    (h : d.walkUntilLink fresh follow loc segments = .ok loc') : IsResolved ⟨.slash, loc'⟩ := by
  induction segments generalizing loc with
  | nil =>
    rw [walkUntilLink, Except.ok.injEq] at h
    exact h ▸ hloc
  | cons s rest ih =>
    have hrest : ∀ t ∈ rest, '/' ∉ t.toList := fun t ht => hs t (List.mem_cons_of_mem s ht)
    have hdrop : IsResolved ⟨.slash, loc.dropLast⟩ := hloc.of_subset (by decide) (List.dropLast_subset loc)
    rw [walkUntilLink] at h
    split at h
    · cases h
    split at h
    · exact ih hloc hrest h
    split at h
    · exact ih hdrop hrest h
    split at h
    · cases h
    split at h
    · cases h
    rename_i hdot hup _ _
    have hnext : IsResolved ⟨.slash, loc ++ [s]⟩ := by
      apply hloc.append (isResolved_singleton ⟨?_, hs s List.mem_cons_self⟩ hup)
      simpa [isStep] using hdot
    split at h
    · split at h
      · rw [Except.ok.injEq] at h
        exact h ▸ hnext
      · cases h
    · rename_i target _
      refine hfollow _ _ _ ?_ ?_ h
      · split
        · exact isResolved_root
        · exact hloc
      · intro t ht
        rcases List.mem_append.mp ht with ht | ht
        · exact not_mem_segment ht
        · exact hrest t ht
    · exact ih hnext hrest h

theorem isResolved_walk {fresh : Bool} {links : Nat} {segments : List String} (hloc : IsResolved ⟨.slash, loc⟩)
    (hs : ∀ s ∈ segments, '/' ∉ s.toList) (h : d.walk fresh links loc segments = .ok loc') :
    IsResolved ⟨.slash, loc'⟩ := by
  induction links generalizing loc segments loc' with
  | zero => exact isResolved_walkUntilLink (fun _ _ _ _ _ he => by cases he) hloc hs h
  | succ links ih => exact isResolved_walkUntilLink (fun _ _ _ hl ht he => ih hl ht he) hloc hs h

theorem isResolved_place (hbase : IsResolved ⟨.slash, base⟩) (hn : ∀ name ∈ names, IsComponent name)
    (h : d.place base names = .ok loc) : IsResolved ⟨.slash, loc⟩ := by
  unfold place at h
  cases hl : names.getLast? with
  | none =>
    rw [hl, Except.ok.injEq] at h
    exact h ▸ hbase
  | some name =>
    simp only [hl] at h
    cases hr : d.reach base (names.dropLast ++ ["."]) with
    | error e => simp [hr, bind, Except.bind] at h
    | ok dir =>
      have hdir : IsResolved ⟨.slash, dir⟩ := by
        refine isResolved_walk hbase ?_ hr
        intro s hs
        rcases List.mem_append.mp hs with hs | hs
        · exact (hn s (List.dropLast_subset names hs)).2
        · rw [List.mem_singleton.mp hs]
          decide
      simp only [hr, bind, Except.bind] at h
      split at h
      · cases h
      split at h
      · rw [Except.ok.injEq] at h
        exact h ▸ hdir.of_subset (by decide) (List.dropLast_subset dir)
      split at h
      · cases h
      · rename_i hup _
        rw [Except.ok.injEq] at h
        exact h ▸ hdir.append (isResolved_singleton (hn name (List.mem_of_getLast? hl)) hup)

theorem isProper_empty : ({} : Disk).IsProper := by
  intro loc hloc
  cases hloc

theorem mem_keys_alter {es : SortedMap Location Node} {f : Option Node → Node} :
    loc ∈ (es.alter loc' f).keys ↔ loc = loc' ∨ loc ∈ es.keys :=
  SortedMap.mem_keys_place

theorem isProper_alter {es : SortedMap Location Node} (hes : IsProper ⟨es⟩) (hloc : IsResolved ⟨.slash, loc⟩)
    (f : Option Node → Node) : IsProper ⟨es.alter loc f⟩ := by
  intro key hkey
  rcases mem_keys_alter.mp hkey with rfl | hkey
  · exact hloc
  · exact hes key hkey

theorem isProper_foldl_alter {es : SortedMap Location Node} (hes : IsProper ⟨es⟩) {dirs : List Location}
    (hdirs : ∀ dir ∈ dirs, IsResolved ⟨.slash, dir⟩) (f : Option Node → Node) :
    IsProper ⟨dirs.foldl (fun es dir => es.alter dir f) es⟩ := by
  induction dirs generalizing es with
  | nil => exact hes
  | cons dir dirs ih =>
    apply ih (isProper_alter hes (hdirs dir List.mem_cons_self) f)
    intro other hother
    exact hdirs other (List.mem_cons_of_mem dir hother)

theorem isProper_put (hd : d.IsProper) (hloc : IsResolved ⟨.slash, loc⟩) (n : Node) : (d.put loc n).IsProper := by
  have habove : ∀ dir ∈ ancestors loc, IsResolved ⟨.slash, dir⟩ := by
    intro dir hdir
    obtain ⟨k, -, rfl⟩ := List.mem_map.mp hdir
    exact hloc.of_subset (by decide) (List.take_subset _ loc)
  exact isProper_alter (isProper_foldl_alter hd habove _) hloc _

theorem isProper_make {n : Node} (hd : d.IsProper) (hbase : IsResolved ⟨.slash, base⟩)
    (hn : ∀ name ∈ names, IsComponent name) (h : d.make base names n = .ok d') : d'.IsProper := by
  unfold make at h
  split at h
  · cases h
  · rename_i loc hloc
    split at h
    · cases h
    · rw [Except.ok.injEq] at h
      exact h ▸ isProper_put hd (isResolved_place hbase hn hloc) n

theorem isProper_writeFile {content : ByteArray} (hd : d.IsProper) (hbase : IsResolved ⟨.slash, base⟩)
    (hn : ∀ name ∈ names, IsComponent name) (h : d.writeFile base names content = .ok d') : d'.IsProper := by
  unfold writeFile at h
  split at h
  · cases h
  split at h
  · cases h
  · rename_i loc hloc
    split at h
    · cases h
    · rw [Except.ok.injEq] at h
      exact h ▸ isProper_put hd (isResolved_walk hbase (fun name hname => (hn name hname).2) hloc) _

theorem isProper_makeLink {target : String} (hd : d.IsProper) (hbase : IsResolved ⟨.slash, base⟩)
    (hn : ∀ name ∈ names, IsComponent name) (h : d.makeLink base names target = .ok d') : d'.IsProper := by
  unfold makeLink at h
  split at h
  · cases h
  split at h
  · cases h
  split at h
  · cases h
  · exact isProper_make hd hbase hn h

theorem isProper_makeInside (hd : d.IsProper) (hbase : IsResolved ⟨.slash, base⟩)
    (hn : ∀ name ∈ names, IsComponent name) : (d.makeInside base names).1.IsProper := by
  unfold makeInside
  cases hm : d.make base names .directory with
  | error e => exact hd
  | ok d' => exact isProper_make hd hbase hn hm

theorem isProper_makeDirectories (hd : d.IsProper) (hbase : IsResolved ⟨.slash, base⟩)
    (hn : ∀ name ∈ names, IsComponent name) : (d.makeDirectories base names).1.IsProper := by
  induction names with
  | nil => exact hd
  | cons name above ih =>
    have habove := ih fun s hs => hn s (List.mem_cons_of_mem name hs)
    have hnames : ∀ s ∈ above.reverse ++ [name], IsComponent s := by
      intro s hs
      exact hn s (by simpa [or_comm] using hs)
    rw [makeDirectories]
    split
    · exact isProper_makeInside hd hbase hnames
    · split
      · rename_i hm
        rw [hm] at habove
        exact isProper_makeInside habove hbase hnames
      · rename_i hm
        rw [hm] at habove
        exact isProper_makeInside habove hbase hnames
      · rename_i hm
        rw [hm] at habove
        exact habove

theorem isProper_after {r : Except ChangeError Disk} (hd : d.IsProper) (hr : ∀ d', r = .ok d' → d'.IsProper) :
    (d.after r).1.IsProper := by
  cases r with
  | error e => exact hd
  | ok d' => exact hr d' rfl

theorem isProper_write (hd : d.IsProper) (hbase : IsResolved ⟨.slash, base⟩)
    (hn : ∀ name ∈ names, IsComponent name) (n : Node) : (d.write base names n).1.IsProper := by
  have hdirs : (d.makeDirectories base names.dropLast.reverse).1.IsProper := by
    apply isProper_makeDirectories hd hbase
    intro name hname
    exact hn name (List.dropLast_subset names (List.mem_reverse.mp hname))
  unfold write
  dsimp only
  split
  · exact hdirs
  · exact isProper_makeDirectories hdirs hbase fun name hname => hn name (List.mem_reverse.mp hname)
  · exact isProper_after hdirs fun d' => isProper_writeFile hdirs hbase hn
  · exact isProper_after hdirs fun d' => isProper_makeLink hdirs hbase hn

theorem isProper_remove (hd : d.IsProper) (h : d.remove base names = .ok d') : d'.IsProper := by
  unfold remove at h
  split at h
  · cases h
  split at h
  · rw [Except.ok.injEq] at h
    subst h
    intro key hkey
    exact hd key ((List.filter_sublist.map Prod.fst).subset hkey)
  · cases h

end Disk

namespace Host

variable {h : Host}

theorem isResolved_baseOf (h : Host) (p : Path) : Path.IsResolved ⟨.slash, h.baseOf p⟩ := by
  unfold baseOf
  split
  · exact h.cwdResolved.of_subset (by decide) (List.Subset.refl _)
  · exact Path.isResolved_root

theorem isProper_write (hd : h.disk.IsProper) (s : String) (n : Node) : (h.write s n).1.disk.IsProper :=
  Disk.isProper_write hd (h.isResolved_baseOf _) (Path.isProper_ofString s) n

theorem isProper_remove (hd : h.disk.IsProper) (s : String) : (h.remove s).1.disk.IsProper :=
  Disk.isProper_after hd fun _ => Disk.isProper_remove hd

end Host

end AbleIndex
