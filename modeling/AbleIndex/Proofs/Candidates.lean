import AbleIndex.Proofs.MemberCompletion
import AbleIndex.Proofs.PlainSight
import AbleIndex.Proofs.SearchOrder
import AbleIndex.Proofs.StoreOrder

namespace AbleIndex

namespace Candidate

variable {c : Candidate} {kind : CandidateKind} {labels : List String}

theorem mem_ofLabels : c ∈ ofLabels kind labels ↔ c.kind = kind ∧ c.label ∈ labels ∧ c.label ≠ "" := by
  obtain ⟨label, k⟩ := c
  simp only [ofLabels, List.mem_map, List.mem_eraseDups, List.mem_filter, decide_eq_true_eq, mk.injEq]
  constructor
  · rintro ⟨n, hn, rfl, rfl⟩
    exact ⟨rfl, hn⟩
  · rintro ⟨rfl, hn⟩
    exact ⟨label, hn, rfl, rfl⟩

theorem nodup_ofLabels (kind : CandidateKind) (labels : List String) : (ofLabels kind labels).Nodup := by
  apply (listsFirst_eraseDups _).distinct.map
  intro a b hab
  exact congrArg label hab

def ofGroups (groups : List (CandidateKind × List String)) : List Candidate :=
  groups.flatMap fun g => ofLabels g.1 g.2

theorem mem_ofGroups {groups : List (CandidateKind × List String)} :
    c ∈ ofGroups groups ↔ ∃ g ∈ groups, c.kind = g.1 ∧ c.label ∈ g.2 ∧ c.label ≠ "" := by
  simp only [ofGroups, List.mem_flatMap, mem_ofLabels]

theorem label_ne_empty {groups : List (CandidateKind × List String)} (hc : c ∈ ofGroups groups) : c.label ≠ "" := by
  obtain ⟨g, -, -, -, hne⟩ := mem_ofGroups.mp hc
  exact hne

theorem nodup_ofGroups {groups : List (CandidateKind × List String)} (h : (groups.map Prod.fst).Nodup) :
    (ofGroups groups).Nodup := by
  rw [ofGroups, List.nodup_flatMap]
  refine ⟨fun g _ => nodup_ofLabels g.1 g.2, (List.pairwise_map.mp h).imp ?_⟩
  intro g g' hkinds c hc hc'
  exact hkinds ((mem_ofLabels.mp hc).1.symm.trans (mem_ofLabels.mp hc').1)

end Candidate

inductive NamePart
  | functions
  | classes
  | bindings

namespace NamePart

def kind : NamePart → CandidateKind
  | functions => .function
  | classes => .className
  | bindings => .variableName

def names (t : SymbolTable) : NamePart → NameSet
  | functions => t.functions
  | classes => t.classes
  | bindings => t.bindings

def all : List NamePart := [functions, classes, bindings]

theorem names_merge (a b : SymbolTable) (part : NamePart) :
    part.names (a.merge b) = (part.names a).union (part.names b) := by
  cases part <;> rfl

theorem names_empty (part : NamePart) : part.names {} = ∅ := by
  cases part <;> rfl

theorem mem_names_foldl_merge {part : NamePart} {entries : List ModuleEntry} {t : SymbolTable} {n : String} :
    n ∈ part.names (entries.foldl (fun t e => t.merge e.symbols) t) ↔
      n ∈ part.names t ∨ ∃ e ∈ entries, n ∈ part.names e.symbols := by
  induction entries generalizing t with
  | nil => simp
  | cons e entries ih =>
    rw [List.foldl_cons, ih, names_merge, SortedSet.mem_union, or_assoc]
    simp only [List.mem_cons, exists_eq_or_imp]

end NamePart

def SymbolTable.groups (t : SymbolTable) : List (CandidateKind × List String) :=
  NamePart.all.map fun part => (part.kind, (part.names t).toList)

theorem SymbolTable.candidates_eq_ofGroups (t : SymbolTable) : t.candidates = Candidate.ofGroups t.groups := by
  simp [candidates, Candidate.ofGroups, groups, NamePart.all, NamePart.kind, NamePart.names]

theorem SymbolTable.nodup_groups (t : SymbolTable) : (t.groups.map Prod.fst).Nodup := by
  change [CandidateKind.function, .className, .variableName].Nodup
  decide

theorem SymbolTable.memberCandidates_eq_ofGroups (t : SymbolTable) (target : String) :
    t.memberCandidates target =
      Candidate.ofGroups [(.method, (t.methodsOf target).toList), (.property, (t.propertiesOf target).toList)] := by
  simp [memberCandidates, Candidate.ofGroups]

def Catalog.groups : List (CandidateKind × List String) :=
  [(.keyword, keywords), (.typeName, types), (.function, functions)]

theorem Workspace.generalCandidates_eq (w : Workspace) :
    w.generalCandidates = Candidate.ofGroups Catalog.groups ++ w.mergedSymbols.candidates := by
  simp [generalCandidates, Candidate.ofGroups, Catalog.groups]

theorem Catalog.groups_distinct : ∀ g ∈ groups, g.2.Nodup ∧ "" ∉ g.2 := by
  decide +kernel

theorem Catalog.ofGroups_groups : Candidate.ofGroups groups =
    keywords.map (⟨·, .keyword⟩) ++ types.map (⟨·, .typeName⟩) ++ functions.map (⟨·, .function⟩) := by
  have hmap : ∀ g ∈ groups, Candidate.ofLabels g.1 g.2 = g.2.map (⟨·, g.1⟩) := by
    intro g hg
    obtain ⟨hdistinct, hempty⟩ := groups_distinct g hg
    exact Candidate.ofLabels_of_nodup g.1 hdistinct hempty
  rw [Candidate.ofGroups, List.flatMap_congr hmap]
  simp [groups]

theorem Catalog.mem_ofGroups_and_mem_candidates {t : SymbolTable} {c : Candidate} :
    c ∈ Candidate.ofGroups groups ∧ c ∈ t.candidates ↔
      c.kind = .function ∧ c.label ∈ functions ∧ c.label ∈ t.functions := by
  obtain ⟨label, kind⟩ := c
  have hempty : "" ∉ functions := (groups_distinct (.function, functions) (by simp [groups])).2
  have hne : label ∈ functions → label ≠ "" := by
    rintro hl rfl
    exact hempty hl
  rw [t.candidates_eq_ofGroups, Candidate.mem_ofGroups, Candidate.mem_ofGroups]
  -- functions are the only kind that both the language and a table provide
  cases kind with
  | function =>
    simp only [groups, SymbolTable.groups, NamePart.all, NamePart.kind, NamePart.names, List.map_cons, List.map_nil,
      List.mem_cons, List.not_mem_nil, or_false, exists_eq_or_imp, exists_eq_left, reduceCtorEq, false_and, false_or,
      true_and, SortedSet.mem_def]
    constructor
    · rintro ⟨⟨hl, -⟩, ht, -⟩
      exact ⟨hl, ht⟩
    · rintro ⟨hl, ht⟩
      exact ⟨⟨hl, hne hl⟩, ht, hne hl⟩
  | _ => simp [groups, SymbolTable.groups, NamePart.all, NamePart.kind]

section Occurrences

variable {α : Type} [DecidableEq α] {as bs : List α}

theorem count_append_le_two (ha : as.Nodup) (hb : bs.Nodup) (x : α) : (as ++ bs).count x ≤ 2 := by
  have hcount := List.nodup_iff_count_le_one.mp ha x
  have hcount' := List.nodup_iff_count_le_one.mp hb x
  rw [List.count_append]
  omega

theorem one_lt_count_append (ha : as.Nodup) (hb : bs.Nodup) (x : α) :
    1 < (as ++ bs).count x ↔ x ∈ as ∧ x ∈ bs := by
  have hcount := List.nodup_iff_count_le_one.mp ha x
  have hcount' := List.nodup_iff_count_le_one.mp hb x
  rw [List.count_append, ← List.one_le_count_iff, ← List.one_le_count_iff]
  omega

end Occurrences

/-- Functions, then classes, then variables: exactly the names that are asked for, each group in order. -/
def ListsNames (p : NamePart → String → Prop) (cs : List Candidate) : Prop :=
  ∃ names : NamePart → List String, (∀ part, Lists (p part) (names part)) ∧
    cs = NamePart.all.flatMap fun part => (names part).map (⟨·, part.kind⟩)

theorem ListsNames.congr {p q : NamePart → String → Prop} {cs : List Candidate} (h : ListsNames p cs)
    (hpq : ∀ part n, p part n ↔ q part n) : ListsNames q cs := by
  obtain ⟨names, hnames, hcs⟩ := h
  exact ⟨names, fun part => ⟨(hnames part).sorted, fun n => ((hnames part).mem n).trans (hpq part n)⟩, hcs⟩

theorem ListsNames.filter {p : NamePart → String → Prop} {cs : List Candidate} (h : ListsNames p cs)
    (test : String → Bool) :
    ListsNames (fun part n => p part n ∧ test n = true) (cs.filter fun c => test c.label) := by
  obtain ⟨names, hnames, rfl⟩ := h
  refine ⟨fun part => (names part).filter test, ?_, ?_⟩
  · intro part
    refine ⟨(hnames part).sorted.sublist List.filter_sublist, fun n => ?_⟩
    rw [List.mem_filter, (hnames part).mem]
  · rw [List.filter_flatMap]
    simp only [List.filter_map, Function.comp_def]

namespace SymbolTable

def NoEmptyName (t : SymbolTable) : Prop := ∀ part : NamePart, "" ∉ part.names t

theorem noEmptyName_ofText (text : String) : NoEmptyName (ofText text) := by
  have h := Extractor.invariant_afterLines (contentLines false text.toList)
  intro part hn
  rw [ofText_eq] at hn
  have hword : Source.IsIdentifier "" := by
    cases part with
    | functions => exact h.functionNames "" hn
    | classes => exact h.classNames "" hn
    | bindings => exact h.bindingNames "" hn
  exact ne_empty_of_isIdentifier hword rfl

theorem NoEmptyName.listsNames {t : SymbolTable} (h : NoEmptyName t) :
    ListsNames (fun part n => n ∈ part.names t) t.candidates := by
  refine ⟨fun part => (part.names t).toList, fun part => ⟨(part.names t).sorted, fun _ => Iff.rfl⟩, ?_⟩
  rw [candidates_eq_ofGroups, Candidate.ofGroups, groups, List.flatMap_map]
  simp only [fun part : NamePart => Candidate.ofLabels_toList part.kind (h part)]

end SymbolTable

theorem SortedMap.mem_values {κ α : Type} [LT κ] [DecidableEq κ] [KeyOrder κ] {m : SortedMap κ α} {a : α} :
    a ∈ m.values ↔ ∃ k, m.find? k = some a := by
  rw [values, List.mem_map]
  constructor
  · rintro ⟨e, he, rfl⟩
    exact ⟨e.1, m.find?_of_mem he⟩
  · rintro ⟨k, hk⟩
    have hmem : k ∈ m.keys := by
      rw [mem_keys, hk]
      rfl
    obtain ⟨e, he, rfl⟩ := List.mem_map.mp hmem
    rw [m.find?_of_mem he] at hk
    exact ⟨e, he, Option.some.inj hk⟩

namespace Workspace

variable {w : Workspace} {allowed : Settings → Prop} {settled : Bool}

def HasName (w : Workspace) (part : NamePart) (n : String) : Prop :=
  ∃ m e, w.modules.find? m = some e ∧ n ∈ part.names e.symbols

theorem mem_names_mergedSymbols {part : NamePart} {n : String} :
    n ∈ part.names w.mergedSymbols ↔ w.HasName part n := by
  rw [mergedSymbols, NamePart.mem_names_foldl_merge, NamePart.names_empty]
  simp only [SortedSet.not_mem_empty, false_or, SortedMap.mem_values, HasName]
  constructor
  · rintro ⟨e, ⟨m, hm⟩, hn⟩
    exact ⟨m, e, hm, hn⟩
  · rintro ⟨m, e, hm, hn⟩
    exact ⟨e, ⟨m, hm⟩, hn⟩

def IsRead (w : Workspace) : Prop := ∀ m e, w.modules.find? m = some e → ∃ text, e.symbols = .ofText text

theorem isRead_of_eq {w' : Workspace} (hw : w.IsRead) (he : w'.modules = w.modules) : w'.IsRead := by
  unfold IsRead
  rw [he]
  exact hw

theorem isRead_update (hw : w.IsRead) (p : Path) (text : String) : (w.update p text).1.IsRead := by
  intro m e he
  by_cases hp : w.indexedName? p = some m
  · rw [find?_modules_update hp] at he
    cases he
    exact ⟨text, rfl⟩
  · rw [find?_modules_update_of_ne hp] at he
    exact hw m e he

theorem Reached.isRead (hw : Reached allowed settled w) : w.IsRead := by
  induction hw with
  | new hs => exact nofun
  | configure hw h root settings hs ih => exact isRead_of_eq ih (configure_modules h _ _ settings)
  | scan hw h hscan ih =>
    intro m e he
    obtain ⟨-, p, -, hp⟩ := hscan.exists_provides he
    obtain ⟨bytes, source, -, -, hsymbols⟩ := hp.symbols
    exact ⟨_, hsymbols⟩
  | update hw h path text ih => exact isRead_update ih (h.absolute path) text
  | clear hw ih => exact nofun

theorem IsRead.noEmptyName (hw : w.IsRead) {m : String} {e : ModuleEntry} (he : w.modules.find? m = some e) :
    e.symbols.NoEmptyName := by
  obtain ⟨text, hsymbols⟩ := hw m e he
  rw [hsymbols]
  exact SymbolTable.noEmptyName_ofText text

theorem IsRead.listsNames_mergedSymbols (hw : w.IsRead) : ListsNames w.HasName w.mergedSymbols.candidates := by
  have hmerged : w.mergedSymbols.NoEmptyName := by
    intro part hn
    obtain ⟨m, e, he, hn⟩ := mem_names_mergedSymbols.mp hn
    exact hw.noEmptyName he part hn
  exact hmerged.listsNames.congr fun _ _ => mem_names_mergedSymbols

theorem moduleCandidates_eq (hne : "" ∉ w.modules.keys) (typed : String) :
    ∃ others, Lists (fun m => w.modules.contains m = true ∧ m ∉ Catalog.modules ∧ startsWith typed m = true) others ∧
      w.moduleCandidates typed = (Catalog.modules.filter (startsWith typed) ++ others).map (⟨·, .moduleName⟩) := by
  let known := Catalog.modules.filter (startsWith typed)
  let found := w.modules.keys.filter (startsWith typed)
  have hsorted : (found.removeAll known).Pairwise (· < ·) :=
    w.modules.sorted.sublist (List.filter_sublist.trans List.filter_sublist)
  -- the removal of duplicates keeps the language's modules where they are and takes them out of the indexed ones
  refine ⟨found.removeAll known, ⟨hsorted, ?_⟩, ?_⟩
  · intro m
    have hknown : m ∈ known ↔ m ∈ Catalog.modules ∧ startsWith typed m = true := List.mem_filter
    simp only [List.removeAll, List.mem_filter, found, SortedMap.mem_keys, SortedMap.contains, List.elem_eq_mem,
      Bool.not_eq_true', decide_eq_false_iff_not, hknown]
    constructor
    · rintro ⟨⟨hm, ht⟩, hno⟩
      exact ⟨hm, fun hc => hno ⟨hc, ht⟩, ht⟩
    · rintro ⟨hm, hno, ht⟩
      exact ⟨⟨hm, ht⟩, fun hc => hno hc.1⟩
  · have hfilter :
        ((Catalog.modules ++ w.modules.keys).filter (startsWith typed)).filter (· ≠ "") = known ++ found := by
      rw [List.filter_append, List.filter_eq_self]
      intro m hm
      have hcatalog : "" ∉ Catalog.modules := by decide +kernel
      have hempty : "" ∉ known ++ found := by
        rw [List.mem_append]
        rintro (hk | hf)
        · exact hcatalog (List.mem_filter.mp hk).1
        · exact hne (List.mem_filter.mp hf).1
      exact decide_eq_true fun he => hempty (he ▸ hm)
    have hknown : known.Nodup := List.Nodup.filter _ (by decide +kernel)
    rw [moduleCandidates, Candidate.ofLabels, hfilter, List.eraseDups_append, eraseDups_of_nodup hknown,
      eraseDups_of_nodup (hsorted.imp ne_of_lt)]

theorem candidatesIn_sublist_ofGroups (w : Workspace) (file : Option Path) {context : Context}
    (h : context ≠ .general) :
    ∃ groups, (groups.map Prod.fst).Nodup ∧ (w.candidatesIn file context).Sublist (Candidate.ofGroups groups) := by
  have hsingle (kind : CandidateKind) (labels : List String) :
      ∃ groups, (groups.map Prod.fst).Nodup ∧
        (Candidate.ofLabels kind labels).Sublist (Candidate.ofGroups groups) :=
    ⟨[(kind, labels)], List.nodup_singleton kind, by simp [Candidate.ofGroups]⟩
  cases context with
  | general => exact absurd rfl h
  | decorator typed => exact hsingle _ _
  | importModule typed => exact hsingle _ _
  | member target =>
    rw [candidatesIn, memberCandidates]
    split
    · exact ⟨[], List.nodup_nil, List.nil_sublist _⟩
    · rw [SymbolTable.memberCandidates_eq_ofGroups]
      exact ⟨_, by simp, List.Sublist.refl _⟩
  | importFrom name typed =>
    rw [candidatesIn, exportCandidates]
    split
    · exact ⟨[], List.nodup_nil, List.nil_sublist _⟩
    · rw [SymbolTable.candidates_eq_ofGroups]
      exact ⟨_, SymbolTable.nodup_groups _, List.filter_sublist⟩

theorem label_ne_empty_of_mem {file : Option Path} {context : Context} {c : Candidate}
    (hc : c ∈ w.candidatesIn file context) : c.label ≠ "" := by
  by_cases hg : context = .general
  · rw [hg, candidatesIn, generalCandidates_eq, SymbolTable.candidates_eq_ofGroups] at hc
    obtain hc | hc := List.mem_append.mp hc
    · exact Candidate.label_ne_empty hc
    · exact Candidate.label_ne_empty hc
  · obtain ⟨groups, -, hsub⟩ := w.candidatesIn_sublist_ofGroups file hg
    exact Candidate.label_ne_empty (hsub.mem hc)

theorem count_candidatesIn (w : Workspace) (file : Option Path) (context : Context) (c : Candidate) :
    (w.candidatesIn file context).count c ≤ 2 ∧
      (1 < (w.candidatesIn file context).count c ↔
        context = .general ∧ c.kind = .function ∧ c.label ∈ Catalog.functions ∧
          w.HasName .functions c.label) := by
  by_cases hg : context = .general
  · have hcatalog : (Candidate.ofGroups Catalog.groups).Nodup := Candidate.nodup_ofGroups (by decide)
    have hmerged : w.mergedSymbols.candidates.Nodup := by
      rw [SymbolTable.candidates_eq_ofGroups]
      exact Candidate.nodup_ofGroups (SymbolTable.nodup_groups _)
    rw [hg, candidatesIn, generalCandidates_eq]
    refine ⟨count_append_le_two hcatalog hmerged c, ?_⟩
    rw [one_lt_count_append hcatalog hmerged, Catalog.mem_ofGroups_and_mem_candidates]
    change _ ∧ _ ∧ c.label ∈ NamePart.functions.names w.mergedSymbols ↔ _
    rw [mem_names_mergedSymbols]
    simp only [true_and]
  · obtain ⟨groups, hkinds, hsub⟩ := w.candidatesIn_sublist_ofGroups file hg
    have hcount := List.nodup_iff_count_le_one.mp ((Candidate.nodup_ofGroups hkinds).sublist hsub) c
    refine ⟨by omega, ?_⟩
    constructor
    · intro htwice
      omega
    · intro h
      exact absurd h.1 hg

/-- In whatever state a run leaves the index: an import offers the modules of the language that start as typed and then
the other indexed ones; an import from a module offers the names of its table that start as typed; the general context
offers the language and then the names of all modules. No label is empty, and only a function of the language that a
module declares too is offered twice. -/
theorem candidatesIn_exactly (hw : Reached allowed settled w) (file : Option Path) :
    (∀ typed, ∃ others,
      Lists (fun m => w.modules.contains m = true ∧ m ∉ Catalog.modules ∧ startsWith typed m = true) others ∧
      w.candidatesIn file (.importModule typed) =
        (Catalog.modules.filter (startsWith typed) ++ others).map (⟨·, .moduleName⟩)) ∧
    (∀ name typed, w.modules.find? name = none → w.candidatesIn file (.importFrom name typed) = []) ∧
    (∀ name typed e, w.modules.find? name = some e →
      ListsNames (fun part n => n ∈ part.names e.symbols ∧ startsWith typed n = true)
        (w.candidatesIn file (.importFrom name typed))) ∧
    (∃ names, ListsNames w.HasName names ∧
      w.candidatesIn file .general =
        Catalog.keywords.map (⟨·, .keyword⟩) ++ Catalog.types.map (⟨·, .typeName⟩) ++
          Catalog.functions.map (⟨·, .function⟩) ++ names) ∧
    (∀ context, ∀ c ∈ w.candidatesIn file context, c.label ≠ "") ∧
    ∀ context c, (w.candidatesIn file context).count c ≤ 2 ∧
      (1 < (w.candidatesIn file context).count c ↔
        context = .general ∧ c.kind = .function ∧ c.label ∈ Catalog.functions ∧
          w.HasName .functions c.label) := by
  have hnamed : "" ∉ w.modules.keys := by
    rw [SortedMap.mem_keys]
    intro hsome
    obtain ⟨e, he⟩ := Option.isSome_iff_exists.mp hsome
    exact (hw.isCoherent.named "" e he).2 rfl
  refine ⟨moduleCandidates_eq hnamed, ?_, ?_, ?_, ?_, w.count_candidatesIn file⟩
  · intro name typed hnone
    rw [candidatesIn, exportCandidates, hnone]
  · intro name typed e he
    rw [candidatesIn, exportCandidates, he]
    exact (hw.isRead.noEmptyName he).listsNames.filter (startsWith typed)
  · refine ⟨w.mergedSymbols.candidates, hw.isRead.listsNames_mergedSymbols, ?_⟩
    rw [candidatesIn, generalCandidates_eq, Catalog.ofGroups_groups]
  · intro context c hc
    exact label_ne_empty_of_mem hc

theorem candidatesIn_exactly_twice :
    let h : Host := default
    let opened := (({} : Workspace).configure h (some (h.absolute "/t")) none).1
    let w := ((opened.update (h.absolute "/t/math.abl") "v = 1").1.update (h.absolute "/t/main.abl") "fun len\nclass C").1
    Reached (fun _ => True) true w ∧ w.HasName .functions "len" ∧
      1 < (w.candidatesIn none .general).count ⟨"len", .function⟩ ∧
      w.candidatesIn none (.importModule "ma") = [⟨"math", .moduleName⟩, ⟨"main", .moduleName⟩] := by
  intro h opened w
  have hopened : Reached (fun _ => True) true opened :=
    (Reached.new trivial).configure h (some "/t") none (by simp)
  have hw : Reached (fun _ => True) true w :=
    (hopened.update h "/t/math.abl" "v = 1").update h "/t/main.abl" "fun len\nclass C"
  have hlen : w.HasName .functions "len" := by
    refine ⟨"main", ⟨"main", .ofText "fun len\nclass C", "/t/main.abl"⟩, ?_, ?_⟩
    · unfold w opened h
      decide +kernel
    · decide +kernel
  obtain ⟨-, -, -, -, -, htwice⟩ := candidatesIn_exactly hw none
  refine ⟨hw, hlen, (htwice .general ⟨"len", .function⟩).2.mpr ⟨rfl, rfl, by decide +kernel, hlen⟩, ?_⟩
  unfold w opened h
  decide +kernel

end Workspace

end AbleIndex
