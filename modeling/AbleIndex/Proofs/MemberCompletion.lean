import AbleIndex.Proofs.CursorContext
import AbleIndex.Proofs.ExtractorInvariant
import AbleIndex.Proofs.ObjectLiterals
import AbleIndex.Proofs.SingleUpdate
import AbleIndex.Workspace.Operations

namespace AbleIndex

open Source

section Labels

theorem eraseDups_of_nodup {α : Type} [DecidableEq α] {as : List α} (h : as.Nodup) : as.eraseDups = as := by
  induction as with
  | nil => rfl
  | cons a as ih =>
    obtain ⟨ha, has⟩ := List.nodup_cons.mp h
    have hfilter : as.filter (fun b => !b == a) = as := by
      rw [List.filter_eq_self]
      intro b hb
      have hne : b ≠ a := fun he => ha (he ▸ hb)
      simpa using hne
    rw [List.eraseDups_cons, hfilter, ih has]

theorem Candidate.ofLabels_of_nodup (kind : CandidateKind) {labels : List String} (hd : labels.Nodup)
    (h : "" ∉ labels) : ofLabels kind labels = labels.map (⟨·, kind⟩) := by
  have hfilter : labels.filter (· ≠ "") = labels := by
    rw [List.filter_eq_self]
    intro n hn
    have hne : n ≠ "" := fun he => h (he ▸ hn)
    simpa using hne
  rw [ofLabels, hfilter, eraseDups_of_nodup hd]

theorem Candidate.ofLabels_toList (kind : CandidateKind) {names : NameSet} (h : "" ∉ names) :
    ofLabels kind names.toList = names.toList.map (⟨·, kind⟩) :=
  ofLabels_of_nodup kind names.nodup h

theorem exists_of_mem_findAll {reader : List Char → Option (String × Nat)} {n : Nat} {cs : List Char} {key : String}
    (h : key ∈ findAll reader n cs) : ∃ ds m, reader ds = some (key, m) := by
  induction cs generalizing n with
  | nil => simp [findAll] at h
  | cons c cs ih =>
    cases n with
    | succ n => exact ih h
    | zero =>
      rw [findAll] at h
      split at h
      · exact ih h
      · rename_i found m hr
        obtain rfl | h := List.mem_cons.mp h
        · exact ⟨c :: cs, m, hr⟩
        · exact ih h

theorem ne_empty_of_isIdentifier {name : String} (h : IsIdentifier name) : name ≠ "" := by
  obtain ⟨c, cs, hcs, -⟩ := h
  rintro rfl
  simp at hcs

theorem ne_empty_of_mem_objectKeys {line : List Char} {key : String} (h : key ∈ objectKeys line) : key ≠ "" := by
  obtain h | h := List.mem_append.mp h
  · obtain ⟨ds, m, hr⟩ := exists_of_mem_findAll h
    simp only [bareKey?, Option.bind_eq_bind, Option.bind_eq_some_iff, Option.pure_def, Option.some.injEq,
      Prod.mk.injEq] at hr
    obtain ⟨⟨name, rest⟩, hname, -, -, rfl, -⟩ := hr
    exact ne_empty_of_isIdentifier (isIdentifier_of_identifier? hname)
  · obtain ⟨ds, m, hr⟩ := exists_of_mem_findAll h
    simp only [quotedKey?, Option.bind_eq_bind, Option.bind_eq_some_iff, Option.ite_none_left_eq_some,
      Option.pure_def, Option.some.injEq, Prod.mk.injEq] at hr
    obtain ⟨rest, -, hne, -, -, -, -, rfl, -⟩ := hr
    intro he
    rw [← String.toList_inj, String.toList_ofList] at he
    exact hne (by rw [he]; rfl)

end Labels

namespace SymbolTable

inductive IsClassOf (t : SymbolTable) (v : String) : String → Prop
  | constructed {c : String} (h : t.variableTypes.find? v = some c) : IsClassOf t v c
  | itself (h : t.variableTypes.find? v = none) (hv : v ∈ t.classes) : IsClassOf t v v

def IsMethodOf (t : SymbolTable) (v m : String) : Prop := ∃ c, t.IsClassOf v c ∧ HasMember t.methods c m

variable {t : SymbolTable} {v : String}

theorem classOf?_eq_some {c : String} : t.classOf? v = some c ↔ t.IsClassOf v c := by
  unfold classOf?
  cases hv : t.variableTypes.find? v with
  | some d =>
    rw [Option.some_or, Option.some.injEq]
    constructor
    · rintro rfl
      exact .constructed hv
    · intro h
      cases h with
      | constructed h => exact Option.some.inj (hv.symm.trans h)
      | itself h _ => rw [hv] at h; cases h
  | none =>
    rw [Option.none_or, Option.ite_none_right_eq_some, Option.some.injEq]
    constructor
    · rintro ⟨hmem, rfl⟩
      exact .itself hv hmem
    · intro h
      cases h with
      | constructed h => rw [hv] at h; cases h
      | itself _ hmem => exact ⟨hmem, rfl⟩

theorem mem_getD_empty {names : Option NameSet} {n : String} : n ∈ names.getD ∅ ↔ ∃ s, names = some s ∧ n ∈ s := by
  cases names with
  | none => simp
  | some s => simp

theorem mem_methodsOf {m : String} : m ∈ t.methodsOf v ↔ t.IsMethodOf v m := by
  unfold methodsOf IsMethodOf HasMember
  simp only [mem_getD_empty, Option.bind_eq_some_iff, classOf?_eq_some]
  constructor
  · rintro ⟨names, ⟨c, hc, hf⟩, hm⟩
    exact ⟨c, hc, names, hf, hm⟩
  · rintro ⟨c, hc, names, hf, hm⟩
    exact ⟨names, ⟨c, hc, hf⟩, hm⟩

theorem mem_propertiesOf {k : String} : k ∈ t.propertiesOf v ↔ HasMember t.properties v k := by
  unfold propertiesOf HasMember
  exact mem_getD_empty

theorem empty_not_mem_methodsOf (text v : String) : "" ∉ (ofText text).methodsOf v := by
  rw [mem_methodsOf]
  rintro ⟨c, -, hm⟩
  rw [ofText_eq] at hm
  exact ne_empty_of_isIdentifier ((Extractor.invariant_afterLines _).methodNames c "" hm) rfl

theorem empty_not_mem_propertiesOf (text v : String) : "" ∉ (ofText text).propertiesOf v := by
  rw [mem_propertiesOf, ofText_eq, Extractor.hasMember_properties]
  rintro ⟨i, j, -, hk, -⟩
  exact ne_empty_of_mem_objectKeys hk rfl

theorem memberCandidates_ofText (text v : String) :
    (ofText text).memberCandidates v =
      ((ofText text).methodsOf v).toList.map (⟨·, .method⟩) ++
        ((ofText text).propertiesOf v).toList.map (⟨·, .property⟩) := by
  rw [memberCandidates, Candidate.ofLabels_toList .method (empty_not_mem_methodsOf text v),
    Candidate.ofLabels_toList .property (empty_not_mem_propertiesOf text v)]

end SymbolTable

structure Lists (p : String → Prop) (names : List String) : Prop where
  sorted : names.Pairwise (· < ·)
  mem : ∀ n, n ∈ names ↔ p n

namespace Workspace

variable {h : Host} {w : Workspace} {p : Path} {name text v : String}

theorem entryFor?_update (hn : w.indexedName? p = some name) (text : String) :
    (w.update p text).1.entryFor? p = some ⟨name, .ofText text, p.text⟩ := by
  rw [entryFor?, indexedName?_update, hn]
  exact find?_modules_update hn text

theorem complete_update (hn : w.indexedName? p = some name) {line : List Char} (hv : Context.EndsInMember line v) :
    (w.update p text).1.complete (String.ofList line) (some p) =
      if (SymbolTable.ofText text).memberCandidates v = [] then
        (w.update p text).1.candidatesIn (some p) (Context.place line)
      else (SymbolTable.ofText text).memberCandidates v := by
  have hmembers : (w.update p text).1.memberCandidates v (some p) = (SymbolTable.ofText text).memberCandidates v := by
    unfold memberCandidates
    rw [Option.bind_some, entryFor?_update hn]
  rw [complete, String.toList_ofList, Context.member?_of_endsInMember hv, Option.map_some, Option.getD_some]
  simp only [candidatesIn, hmembers]

theorem completeAt_of_text (h : Host) (w : Workspace) (path text : String) (line column : Int) :
    (w.completeAt h path line column (some text)).2 =
      .ok ((w.update (h.absolute path) text).1.complete (String.ofList (upTo (cursorLine text line) column))
        (some (h.absolute path))) := rfl

/-- Behind a name and a dot completion shows the methods of the class behind the name and then the keys of its
object literal, as the text of the document has them and whatever else is indexed. Where there are none it is
the context behind that decides, an import or the general one. -/
theorem completeAt_member (h : Host) (w : Workspace) (path text : String) (line column : Int) {name v : String}
    (hname : w.moduleName? (h.absolute path) = some name) (hne : name ≠ "")
    (hv : Context.EndsInMember (upTo (cursorLine text line) column) v) :
    let t := SymbolTable.ofText text
    let answer (w : Workspace) := (w.completeAt h path line column (some text)).2
    ∃ methods properties, Lists (t.IsMethodOf v) methods ∧ Lists (HasMember t.properties v) properties ∧
      (methods ≠ [] ∨ properties ≠ [] →
        answer w = .ok (methods.map (⟨·, .method⟩) ++ properties.map (⟨·, .property⟩)) ∧
        ∀ w' : Workspace, w'.searchRoots = w.searchRoots → w'.settings = w.settings → answer w' = answer w) ∧
      (methods = [] → properties = [] →
        ∃ c, Context.ofLine (String.ofList (upTo (cursorLine text line) column)) = [.member v, c] ∧
          (c = .general ∨ ∃ typed, c = .importModule typed) ∧
          answer w = .ok ((w.update (h.absolute path) text).1.candidatesIn (some (h.absolute path)) c)) := by
  intro t answer
  have hn := indexedName?_eq_some.mpr ⟨hname, hne⟩
  have hmembers := SymbolTable.memberCandidates_ofText text v
  refine ⟨(t.methodsOf v).toList, (t.propertiesOf v).toList,
    ⟨(t.methodsOf v).sorted, fun _ => SymbolTable.mem_methodsOf⟩,
    ⟨(t.propertiesOf v).sorted, fun _ => SymbolTable.mem_propertiesOf⟩, ?_, ?_⟩
  · intro hsome
    have hnonempty : t.memberCandidates v ≠ [] := by
      rw [hmembers]
      intro he
      simp only [List.append_eq_nil_iff, List.map_eq_nil_iff] at he
      obtain hm | hp := hsome
      · exact hm he.1
      · exact hp he.2
    have hanswer (w' : Workspace) (hroots : w'.searchRoots = w.searchRoots) (hs : w'.settings = w.settings) :
        answer w' = .ok (t.memberCandidates v) := by
      -- the name of a file depends on the search roots and the settings only
      have hn' : w'.indexedName? (h.absolute path) = some name := by
        rw [← hn, indexedName?, indexedName?, moduleName?, moduleName?, hroots, hs]
      simp only [answer, completeAt_of_text, complete_update hn' hv]
      rw [if_neg hnonempty]
    refine ⟨?_, ?_⟩
    · rw [hanswer w rfl rfl, hmembers]
    · intro w' hroots hs
      rw [hanswer w' hroots hs, hanswer w rfl rfl]
  · intro hm hp
    have hempty : t.memberCandidates v = [] := by
      rw [hmembers, hm, hp]
      rfl
    refine ⟨Context.place (upTo (cursorLine text line) column), ?_, Context.place_of_dot hv.getLast?, ?_⟩
    · rw [Context.ofLine, String.toList_ofList, Context.member?_of_endsInMember hv]
      rfl
    · simp only [answer, completeAt_of_text, complete_update hn hv]
      rw [if_pos hempty]

theorem completeAt_member_both :
    let h : Host := default
    let w : Workspace := { searchRoots := [⟨.slash, ["t"]⟩] }
    let text := "class A\n  fun m\na = A()\na = \x7bk: 1, b: 2\x7d\na."
    w.moduleName? (h.absolute "/t/d.abl") = some "d" ∧
      Context.EndsInMember (upTo (cursorLine text 4) 2) "a" ∧
      (w.completeAt h "/t/d.abl" 4 2 (some text)).2 =
        .ok [⟨"m", .method⟩, ⟨"b", .property⟩, ⟨"k", .property⟩] := by
  intro h w text
  have hname : w.moduleName? (h.absolute "/t/d.abl") = some "d" := by
    unfold w h
    decide +kernel
  have hcursor : upTo (cursorLine text 4) 2 = ['a', '.'] := by
    unfold text
    decide +kernel
  have hv : Context.EndsInMember (upTo (cursorLine text 4) 2) "a" := by
    rw [hcursor]
    refine ⟨⟨[], rfl⟩, ⟨'a', [], rfl, rfl, nofun⟩, ?_⟩
    intro before u hu _
    have hlength := congrArg List.length hu
    simp only [List.length_append, List.length_cons, List.length_nil, String.length_toList] at hlength
    change u.length ≤ 1
    omega
  obtain ⟨methods, properties, hm, hp, hsome, -⟩ := completeAt_member h w "/t/d.abl" text 4 2 hname (by decide) hv
  have hmethods : methods = ["m"] := by
    apply SortedSet.sorted_ext hm.sorted (by decide)
    intro n
    have hset : ((SymbolTable.ofText text).methodsOf "a").toList = ["m"] := by
      unfold text
      decide +kernel
    rw [hm.mem, ← SymbolTable.mem_methodsOf, SortedSet.mem_def, hset]
  have hproperties : properties = ["b", "k"] := by
    apply SortedSet.sorted_ext hp.sorted (by decide)
    intro n
    have hset : ((SymbolTable.ofText text).propertiesOf "a").toList = ["b", "k"] := by
      unfold text
      decide +kernel
    rw [hp.mem, ← SymbolTable.mem_propertiesOf, SortedSet.mem_def, hset]
  have hanswer := (hsome (.inl (by simp [hmethods]))).1
  rw [hmethods, hproperties] at hanswer
  exact ⟨hname, hv, hanswer⟩

end Workspace

end AbleIndex
