import AbleIndex.Proofs.Roots
import AbleIndex.Proofs.Spelling
import Mathlib.Data.List.DropRight
import Mathlib.Data.List.Nodup

namespace AbleIndex

section FirstOccurrences

variable {α β : Type} [DecidableEq α] [DecidableEq β]

structure ListsFirst (xs ys : List α) : Prop where
  distinct : ys.Nodup
  members : ∀ a, a ∈ ys ↔ a ∈ xs
  inOrder : ys.Pairwise fun a b => xs.idxOf a < xs.idxOf b

theorem eraseDups_concat (xs : List α) (a : α) :
    (xs ++ [a]).eraseDups = if a ∈ xs then xs.eraseDups else xs.eraseDups ++ [a] := by
  rw [List.eraseDups_append]
  by_cases ha : a ∈ xs <;> simp [List.removeAll, ha, List.eraseDups_cons]

theorem inOrder_eraseDups (xs : List α) : xs.eraseDups.Pairwise fun a b => xs.idxOf a < xs.idxOf b := by
  induction xs using List.reverseRecOn with
  | nil => simp
  | append_singleton xs a ih =>
    have hold : xs.eraseDups.Pairwise fun b c => (xs ++ [a]).idxOf b < (xs ++ [a]).idxOf c := by
      refine ih.imp_of_mem ?_
      intro b c hb hc hlt
      rwa [List.idxOf_append_of_mem (List.mem_eraseDups.mp hb), List.idxOf_append_of_mem (List.mem_eraseDups.mp hc)]
    rw [eraseDups_concat]
    split
    · exact hold
    · rename_i ha
      rw [List.pairwise_append]
      refine ⟨hold, by simp, ?_⟩
      intro b hb c hc
      have hb' := List.mem_eraseDups.mp hb
      rw [List.mem_singleton.mp hc, List.idxOf_append_of_mem hb', List.idxOf_append_of_notMem ha]
      exact Nat.lt_add_right _ (List.idxOf_lt_length_iff.mpr hb')

theorem listsFirst_eraseDups (xs : List α) : ListsFirst xs xs.eraseDups where
  distinct := by
    refine (inOrder_eraseDups xs).imp ?_
    rintro a _ hlt rfl
    exact Nat.lt_irrefl _ hlt
  members _ := List.mem_eraseDups
  inOrder := inOrder_eraseDups xs

theorem map_eraseDups {f : α → β} {xs : List α} (hf : ∀ a ∈ xs, ∀ b ∈ xs, f a = f b → a = b) :
    xs.eraseDups.map f = (xs.map f).eraseDups := by
  induction xs using List.reverseRecOn with
  | nil => simp
  | append_singleton xs a ih =>
    have hxs : ∀ b ∈ xs, ∀ c ∈ xs, f b = f c → b = c := by
      intro b hb c hc
      exact hf b (List.mem_append_left _ hb) c (List.mem_append_left _ hc)
    have hmem : f a ∈ xs.map f ↔ a ∈ xs := by
      refine ⟨?_, List.mem_map_of_mem⟩
      intro ha
      obtain ⟨b, hb, he⟩ := List.mem_map.mp ha
      rwa [← hf b (List.mem_append_left _ hb) a (by simp) he]
    rw [List.map_append, List.map_singleton, eraseDups_concat, eraseDups_concat, ← ih hxs]
    by_cases ha : a ∈ xs
    · rw [if_pos ha, if_pos (hmem.mpr ha)]
    · rw [if_neg ha, if_neg (hmem.not.mpr ha), List.map_append, List.map_singleton]

theorem listsFirst_map_eraseDups {f : α → β} {xs : List α} :
    ListsFirst (xs.map f) (xs.eraseDups.map f) ↔ ∀ a ∈ xs, ∀ b ∈ xs, f a = f b → a = b := by
  constructor
  · intro h a ha b hb
    exact List.inj_on_of_nodup_map h.distinct (List.mem_eraseDups.mpr ha) (List.mem_eraseDups.mpr hb)
  · intro hf
    rw [map_eraseDups hf]
    exact listsFirst_eraseDups _

end FirstOccurrences

namespace Path

variable {root : Path} {s : String}

theorem join_cases (base : String) (hs : isAbsolute s = false) :
    join base s = base ++ s ∨ join base s = base ++ ("/" ++ s) := by
  unfold join
  rw [hs, if_neg Bool.false_ne_true]
  split
  · exact .inl rfl
  · exact .inr String.append_assoc

theorem join_anchor {a : Anchor} (ha : a ≠ .relative) (hs : isAbsolute s = false) : join a.text s = a.text ++ s := by
  cases a with
  | relative => exact absurd rfl ha
  | slash => simp [join, hs, Anchor.text]
  | doubleSlash => simp [join, hs, Anchor.text]

theorem anchorOf_join (hroot : root.IsResolved) (hs : isAbsolute s = false) :
    anchorOf (join root.text s) = root.anchor := by
  have hhead : s.toList.head? ≠ some '/' := by simpa [isAbsolute] using hs
  obtain ⟨a, parts⟩ := root
  rw [text_eq (.inl hroot.absolute)]
  cases parts with
  | nil =>
    rw [String.intercalate_nil, String.append_empty, join_anchor hroot.absolute hs]
    exact anchorOf_append a hhead
  | cons part parts =>
    have hbody (t : String) : ("/".intercalate (part :: parts) ++ t).toList.head? ≠ some '/' := by
      obtain ⟨c, hslash, hc⟩ := head?_intercalate_cons (hroot.proper part List.mem_cons_self)
      rw [String.toList_append, List.head?_append, hc, Option.some_or, Ne, Option.some.injEq]
      exact hslash
    rcases join_cases (a.text ++ "/".intercalate (part :: parts)) hs with hj | hj
    · rw [hj, String.append_assoc]
      exact anchorOf_append a (hbody s)
    · rw [hj, String.append_assoc]
      exact anchorOf_append a (hbody ("/" ++ s))

theorem absolute_join (cwd : Path) (hroot : root.IsResolved) (hs : isAbsolute s = false) :
    absolute cwd (join root.text s) = absolute root s := by
  have hanchor := anchorOf_join hroot hs
  have hrelative : anchorOf s = .relative := by
    by_contra ha
    rw [isAbsolute_iff.mpr ha] at hs
    cases hs
  rw [absolute_of_anchored cwd (hanchor ▸ hroot.absolute), absolute_of_relative root hrelative, hanchor,
    parts_join root.text hs, ofString_text hroot.proper, List.foldl_append, foldl_climb_of_not_mem hroot.climbed,
    List.nil_append]

theorem getLast?_text (hroot : root.IsResolved) (hne : root.parts ≠ []) : root.text.toList.getLast? ≠ some '/' := by
  obtain ⟨a, parts⟩ := root
  rcases List.eq_nil_or_concat parts with rfl | ⟨dirs, last, rfl⟩
  · exact absurd rfl hne
  have hlast := hroot.proper last (by simp)
  have htext := text_append_concat ⟨a, []⟩ dirs "" last
  rw [String.empty_append] at htext
  rw [List.concat_eq_append]
  intro hslash
  change (append ⟨a, []⟩ (dirs ++ [last])).text.toList.getLast? = some '/' at hslash
  rw [htext, String.toList_append, List.getLast?_append_of_ne_nil _ hlast.toList_ne_nil] at hslash
  exact hlast.2 (List.mem_of_getLast? hslash)

theorem join_component (hroot : root.IsResolved) {name : String} (hname : IsComponent name) :
    join root.text name = (root.append [name]).text := by
  have hrelative : isAbsolute name = false := by
    rw [Bool.eq_false_iff]
    intro habs
    exact hname.2 (List.mem_of_mem_head? (by simpa [isAbsolute] using habs))
  by_cases hnil : root.parts = []
  · obtain ⟨a, parts⟩ := root
    subst hnil
    rw [append, text_eq (.inl hroot.absolute), text_eq (.inl hroot.absolute)]
    simpa using join_anchor hroot.absolute hrelative
  · have hempty : root.text ≠ "" := by
      intro he
      have habs := isAbsolute_text hroot.absolute
      rw [he] at habs
      exact absurd habs (by decide)
    unfold join
    rw [hrelative, if_neg Bool.false_ne_true, if_neg (by simp [hempty, getLast?_text hroot hnil])]
    obtain ⟨a, parts⟩ := root
    rw [append, text_eq (.inl hroot.absolute), text_eq (.inl hroot.absolute),
      String.intercalate_append_of_ne_nil hnil (by simp), String.intercalate_singleton]
    simp only [String.append_assoc]

end Path

def NamesImpossibleUser (entry : String) : Prop :=
  ∃ name rest, entry.toList = '~' :: (name ++ rest) ∧ '/' ∉ name ∧ '\x00' ∈ name

theorem exists_of_mapM_error {α β ε : Type} {f : α → Except ε β} {as : List α} {e : ε}
    (h : as.mapM f = .error e) : ∃ a ∈ as, f a = .error e := by
  induction as with
  | nil =>
    rw [List.mapM_nil] at h
    cases h
  | cons a as ih =>
    rw [List.mapM_cons] at h
    cases ha : f a with
    | error e' =>
      rw [ha] at h
      cases h
      exact ⟨a, List.mem_cons_self, ha⟩
    | ok b =>
      cases hs : as.mapM f with
      | error e' =>
        rw [ha, hs] at h
        cases h
        obtain ⟨other, ho, he⟩ := ih hs
        exact ⟨other, List.mem_cons_of_mem a ho, he⟩
      | ok bs =>
        rw [ha, hs] at h
        cases h

namespace Host

variable {h : Host} {s : Settings} {workspace : Option Path}

inductive Expands (h : Host) : List Char → List Char → Prop
  | plain {entry : List Char} (hc : entry.head? ≠ some '~') : Expands h entry entry
  | home {name rest text : List Char} {home : String} (hslash : '/' ∉ name) (hr : rest = [] ∨ rest.head? = some '/')
      (hh : h.homeOf? (String.ofList name) = some home) (ht : text = home.toList.rdropWhile (· = '/') ++ rest) :
      Expands h ('~' :: (name ++ rest)) (if text = [] then ['/'] else text)
  | unknown {name rest : List Char} (hslash : '/' ∉ name) (hr : rest = [] ∨ rest.head? = some '/')
      (hh : h.homeOf? (String.ofList name) = none) : Expands h ('~' :: (name ++ rest)) ('~' :: (name ++ rest))

def Denotes (h : Host) (workspace : Option Path) (entry : String) (p : Path) : Prop :=
  ∃ text : String, h.Expands entry.toList text.toList ∧ p = Path.absolute (workspace.getD h.cwd) text

theorem takeWhile_slash (cs : List Char) :
    '/' ∉ cs.takeWhile (· ≠ '/') ∧
      (cs.dropWhile (· ≠ '/') = [] ∨ (cs.dropWhile (· ≠ '/')).head? = some '/') := by
  constructor
  · intro hmem
    simpa using List.mem_takeWhile_imp hmem
  · cases hd : cs.dropWhile (· ≠ '/') with
    | nil => exact .inl rfl
    | cons c rest =>
      have hc := List.head?_dropWhile_not (· ≠ '/') cs
      rw [hd] at hc
      right
      simpa using hc

theorem isUsable_ofList {cs : List Char} : Path.isUsable (String.ofList cs) = true ↔ '\x00' ∉ cs := by
  simp [Path.isUsable]

theorem expandHome?_eq_none {entry : String} : h.expandHome? entry = none ↔ NamesImpossibleUser entry := by
  unfold expandHome?
  constructor
  · intro hnone
    split at hnone
    · rename_i rest hentry
      dsimp only at hnone
      split at hnone
      · rename_i hnul
        rw [isUsable_ofList, not_not] at hnul
        refine ⟨_, rest.dropWhile (· ≠ '/'), ?_, (takeWhile_slash rest).1, hnul⟩
        rw [List.takeWhile_append_dropWhile, hentry]
      · split at hnone <;> cases hnone
    · cases hnone
  · rintro ⟨name, rest, hentry, hslash, hnul⟩
    have hname : (name ++ rest).takeWhile (· ≠ '/') = name ++ rest.takeWhile (· ≠ '/') := by
      apply List.takeWhile_append_of_pos
      intro c hc
      have hne : c ≠ '/' := by
        rintro rfl
        exact hslash hc
      simpa using hne
    have hmem := List.mem_append_left (rest.takeWhile (· ≠ '/')) hnul
    split
    · rename_i cs hcs
      rw [hentry, List.cons.injEq] at hcs
      rw [← hname, hcs.2] at hmem
      dsimp only
      rw [if_pos]
      rwa [isUsable_ofList, not_not]
    · rename_i htilde
      exact absurd hentry (htilde _)

theorem expands_of_expandHome? {entry text : String} (he : h.expandHome? entry = some text) :
    h.Expands entry.toList text.toList := by
  unfold expandHome? at he
  split at he
  · rename_i rest hentry
    obtain ⟨hslash, hrest⟩ := takeWhile_slash rest
    have hparts := List.takeWhile_append_dropWhile (p := (· ≠ '/')) (l := rest)
    dsimp only at he
    split at he
    · cases he
    split at he
    · rename_i hh
      cases he
      rw [hentry, ← hparts]
      exact .unknown hslash hrest hh
    · rename_i home hh
      cases he
      have hhome := Expands.home hslash hrest hh rfl
      rw [hparts] at hhome
      rw [hentry, apply_ite String.toList, String.toList_ofList (l := _ ++ _)]
      exact hhome
  · rename_i htilde
    cases he
    refine .plain ?_
    intro hhead
    obtain ⟨cs, hcs⟩ := List.head?_eq_some_iff.mp hhead
    exact htilde cs hcs

theorem configuredRoot_error {entry : String} {e : RootError} (he : h.configuredRoot workspace entry = .error e) :
    NamesImpossibleUser entry := by
  unfold configuredRoot at he
  split at he
  · rename_i hnone
    exact expandHome?_eq_none.mp hnone
  · cases he
  · cases he

theorem configuredRoot_ok (hw : ∀ p ∈ workspace, p.IsResolved) {entry : String} {p : Path}
    (hp : h.configuredRoot workspace entry = .ok p) : ¬ NamesImpossibleUser entry ∧ h.Denotes workspace entry p := by
  have hexpands {text : String} (he : h.expandHome? entry = some text) :
      ¬ NamesImpossibleUser entry ∧ h.Expands entry.toList text.toList := by
    refine ⟨?_, expands_of_expandHome? he⟩
    rw [← expandHome?_eq_none (h := h), he]
    exact Option.some_ne_none text
  unfold configuredRoot at hp
  split at hp
  · cases hp
  · rename_i text root he
    have hroot := hw root rfl
    refine ⟨(hexpands he).1, text, (hexpands he).2, ?_⟩
    rw [Except.ok.injEq] at hp
    rw [← hp, Option.getD_some]
    split
    · rename_i habs
      have hanchor := Path.isAbsolute_iff.mp habs
      rw [absolute, Path.absolute_of_anchored _ hanchor, Path.absolute_of_anchored _ hanchor]
    · rename_i habs
      exact Path.absolute_join h.cwd hroot (by simpa using habs)
  · rename_i text he
    rw [Except.ok.injEq] at hp
    exact ⟨(hexpands he).1, text, (hexpands he).2, hp.symm⟩

def rootTexts (h : Host) (s : Settings) (workspace : Option Path) (configured : List Path) : List String :=
  workspace.toList.map Path.text ++ (workspace.bind (h.libraryRoot? s)).toList ++
    (configured.map Path.text).filter h.isDirectory

def rootCandidates (h : Host) (s : Settings) (workspace : Option Path) (configured : List Path) : List Path :=
  workspace.toList ++ ((workspace.bind (h.libraryRoot? s)).map Path.ofString).toList ++
    configured.filter fun p => h.isDirectory p.text

/-- The library is spelled as paths are, or else no other root is the same path. -/
def LibraryOnce (h : Host) (s : Settings) (workspace : Option Path) (configured : List Path) : Prop :=
  ∀ lib ∈ workspace.bind (h.libraryRoot? s),
    (Path.ofString lib).text = lib ∨
      Path.ofString lib ∉ workspace.toList ++ configured.filter fun p => h.isDirectory p.text

theorem searchRoots_eq (h : Host) (s : Settings) (workspace : Option Path) :
    h.searchRoots s workspace =
      ((s.searchPaths ++ s.variablePaths h.env).mapM (h.configuredRoot workspace)).map fun configured =>
        (h.rootTexts s workspace configured).eraseDups.map Path.ofString := by
  unfold searchRoots searchRootTexts
  cases (s.searchPaths ++ s.variablePaths h.env).mapM (h.configuredRoot workspace) with
  | error e => rfl
  | ok configured => cases workspace <;> rfl

variable {configured : List Path} {text : String}

theorem mem_rootTexts :
    text ∈ h.rootTexts s workspace configured ↔
      text ∈ workspace.bind (h.libraryRoot? s) ∨
        ∃ p ∈ workspace.toList ++ configured.filter (fun p => h.isDirectory p.text), p.text = text := by
  simp only [rootTexts, List.filter_map, Function.comp_def, List.mem_append, List.mem_map, Option.mem_toList,
    Option.mem_def, or_and_right, exists_or]
  exact or_assoc.trans or_left_comm

theorem map_ofString_rootTexts (hw : ∀ p ∈ workspace, p.IsResolved) (hc : ∀ p ∈ configured, p.IsResolved) :
    (h.rootTexts s workspace configured).map Path.ofString = h.rootCandidates s workspace configured := by
  have hread {ps : List Path} (hps : ∀ p ∈ ps, p.IsResolved) : (ps.map Path.text).map Path.ofString = ps := by
    rw [List.map_map]
    refine (List.map_congr_left ?_).trans (List.map_id ps)
    intro p hp
    exact Path.ofString_text (hps p hp).proper
  have hdirs : ∀ p ∈ configured.filter (fun p => h.isDirectory p.text), p.IsResolved := by
    intro p hp
    exact hc p (List.mem_filter.mp hp).1
  rw [rootTexts, rootCandidates, List.map_append, List.map_append, List.filter_map, hread (by simpa using hw),
    Function.comp_def, hread hdirs]
  cases workspace.bind (h.libraryRoot? s) <;> rfl

theorem libraryOnce_iff (hw : ∀ p ∈ workspace, p.IsResolved) (hc : ∀ p ∈ configured, p.IsResolved) :
    h.LibraryOnce s workspace configured ↔
      ∀ a ∈ h.rootTexts s workspace configured, ∀ b ∈ h.rootTexts s workspace configured,
        Path.ofString a = Path.ofString b → a = b := by
  -- every root but the library is spelled as paths are
  have hspelled : ∀ p ∈ workspace.toList ++ configured.filter (fun p => h.isDirectory p.text),
      Path.ofString p.text = p := by
    intro p hp
    apply Path.ofString_text
    rcases List.mem_append.mp hp with hp | hp
    · exact (hw p (by simpa using hp)).proper
    · exact (hc p (List.mem_filter.mp hp).1).proper
  constructor
  · intro honce
    have hlibrary {lib b : String} (hl : lib ∈ workspace.bind (h.libraryRoot? s))
        (hb : b ∈ h.rootTexts s workspace configured) (he : Path.ofString lib = Path.ofString b) : lib = b := by
      rcases mem_rootTexts.mp hb with hb | ⟨p, hp, rfl⟩
      · exact Option.mem_unique hl hb
      · rw [hspelled p hp] at he
        rcases honce lib hl with htext | hapart
        · rw [← htext, he]
        · rw [he] at hapart
          exact absurd hp hapart
    intro a ha b hb he
    rcases mem_rootTexts.mp ha with hlib | ⟨p, hp, rfl⟩
    · exact hlibrary hlib hb he
    rcases mem_rootTexts.mp hb with hlib | ⟨q, hq, rfl⟩
    · exact (hlibrary hlib ha he.symm).symm
    · rw [← hspelled p hp, ← hspelled q hq, he]
  · intro hinj lib hl
    by_cases hp : Path.ofString lib ∈ workspace.toList ++ configured.filter fun p => h.isDirectory p.text
    · left
      exact hinj _ (mem_rootTexts.mpr (.inr ⟨_, hp, rfl⟩)) lib (mem_rootTexts.mpr (.inl hl)) (hspelled _ hp)
    · exact .inr hp

theorem libraryOnce_of_isComponent (hw : ∀ p ∈ workspace, p.IsResolved) (hlib : Path.IsComponent s.libraryDir) :
    h.LibraryOnce s workspace configured := by
  intro lib hl
  obtain ⟨root, hroot, hl⟩ := Option.mem_bind_iff.mp hl
  obtain ⟨-, rfl⟩ := libraryRoot?_eq_some.mp hl
  have hproper : (root.append [s.libraryDir]).IsProper := by
    intro part hpart
    rcases List.mem_append.mp hpart with hpart | hpart
    · exact (hw root hroot).proper part hpart
    · rwa [List.mem_singleton.mp hpart]
  left
  rw [Path.join_component (hw root hroot) hlib, Path.ofString_text hproper]

theorem eraseDups_rootTexts (hw : ∀ p ∈ workspace, p.IsResolved) :
    ∃ later, (h.rootTexts s workspace configured).eraseDups.map Path.ofString = workspace.toList ++ later ∧
      ∀ p ∈ later, h.isDirectory p.text = true := by
  have hdir : ∀ text ∈ (workspace.bind (h.libraryRoot? s)).toList ++ (configured.map Path.text).filter h.isDirectory,
      h.isDirectory text = true := by
    intro text ht
    rcases List.mem_append.mp ht with ht | ht
    · obtain ⟨root, -, hlib⟩ := Option.mem_bind_iff.mp (Option.mem_toList.mp ht)
      obtain ⟨hlib, rfl⟩ := libraryRoot?_eq_some.mp hlib
      exact hlib
    · exact (List.mem_filter.mp ht).2
  rw [rootTexts, List.append_assoc]
  generalize (workspace.bind (h.libraryRoot? s)).toList ++ _ = texts at hdir ⊢
  have hlater {others : List String} (ho : others ⊆ texts) :
      ∀ p ∈ others.map Path.ofString, h.isDirectory p.text = true := by
    intro p hp
    obtain ⟨text, ht, rfl⟩ := List.mem_map.mp hp
    exact isDirectory_ofString (hdir text (ho ht))
  cases workspace with
  | none => exact ⟨_, rfl, hlater fun _ ht => List.mem_eraseDups.mp ht⟩
  | some root =>
    rw [Option.toList_some, List.map_singleton, List.singleton_append, List.eraseDups_cons, List.map_cons,
      Path.ofString_text (hw root rfl).proper]
    exact ⟨_, rfl, hlater fun _ ht => (List.mem_filter.mp (List.mem_eraseDups.mp ht)).1⟩

theorem isResolved_workspaceRoot? {given : Option String} {p : Path} (hp : p ∈ h.workspaceRoot? given) :
    p.IsResolved := by
  unfold workspaceRoot? at hp
  split at hp
  · cases hp
  · split at hp
    · cases hp
    · cases hp
      exact h.isResolved_absolute _

/-- The search roots can be told unless an entry names a user who cannot exist. The workspace is the first of them and
all others are directories. They are the roots that are named, each at its first occurrence, exactly if the library is
not another of these roots in a spelling of its own; a plain name of the library is enough for that. -/
theorem searchRoots_in_order (h : Host) (s : Settings) (given : Option String) :
    let workspace := h.workspaceRoot? given
    let entries := s.searchPaths ++ s.variablePaths h.env
    match h.searchRoots s workspace with
    | .error _ => ∃ entry ∈ entries, NamesImpossibleUser entry
    | .ok roots => (∀ entry ∈ entries, ¬ NamesImpossibleUser entry) ∧
      ∃ configured, List.Forall₂ (h.Denotes workspace) entries configured ∧
        (∃ later, roots = workspace.toList ++ later ∧ ∀ p ∈ later, h.isDirectory p.text = true) ∧
        (ListsFirst (h.rootCandidates s workspace configured) roots ↔ h.LibraryOnce s workspace configured) ∧
        (Path.IsComponent s.libraryDir → h.LibraryOnce s workspace configured) := by
  intro workspace entries
  have hw : ∀ p ∈ workspace, p.IsResolved := fun _ hp => isResolved_workspaceRoot? hp
  rw [searchRoots_eq]
  cases hm : entries.mapM (h.configuredRoot workspace) with
  | error e =>
    obtain ⟨entry, hentry, he⟩ := exists_of_mapM_error hm
    exact ⟨entry, hentry, configuredRoot_error he⟩
  | ok configured =>
    have hc : ∀ p ∈ configured, p.IsResolved := by
      intro p hp
      obtain ⟨entry, -, he⟩ := exists_of_mem_mapM hm hp
      exact isResolved_configuredRoot he
    obtain ⟨hpossible, hdenotes⟩ :=
      (List.forall₂_and_left _ _).mp ((forall₂_of_mapM hm).imp fun _ _ hp => configuredRoot_ok hw hp)
    refine ⟨hpossible, configured, hdenotes, eraseDups_rootTexts hw, ?_, libraryOnce_of_isComponent hw⟩
    rw [libraryOnce_iff hw hc, ← map_ofString_rootTexts hw hc]
    exact listsFirst_map_eraseDups

theorem searchRoots_repeat_library :
    let h : Host := { (default : Host) with disk := ({} : Disk).put ["t", "lib", "a.abl"] (.file "".toUTF8) }
    let s : Settings := { libraryDir := "lib/", searchPaths := ["lib"] }
    let lib : Path := ⟨.slash, ["t", "lib"]⟩
    s.validate = .ok () ∧
      h.searchRoots s (h.workspaceRoot? (some "/t")) = .ok [⟨.slash, ["t"]⟩, lib, lib] ∧
      ¬ [⟨.slash, ["t"]⟩, lib, lib].Nodup := by
  decide +kernel

end Host

end AbleIndex
