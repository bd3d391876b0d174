import AbleIndex.Completion.Report
import AbleIndex.Proofs.JsonText

namespace AbleIndex

namespace Json

def string? : Json → Option String
  | str s => some s
  | _ => none

@[simp] theorem string?_str (s : String) : string? (str s) = some s := rfl

def items? : Json → Option (List Json)
  | arr vs => some vs
  | _ => none

def fields? : Json → Option (List (String × Json))
  | obj fs => some fs
  | _ => none

def names? (v : Json) : Option NameSet := do
  return .ofList (← (← v.items?).mapM string?)

theorem mapM_eq_some {α β : Type} {f : α → β} {g : β → Option α} (h : ∀ a, g (f a) = some a)
    (as : List α) : (as.map f).mapM g = some as := by
  induction as with
  | nil => rfl
  | cons a as ih => simp [h, ih]

theorem names?_ofNames (s : NameSet) : (ofNames s.toList).names? = some s := by
  have hstrings : (s.toList.map str).mapM string? = some s.toList :=
    mapM_eq_some string?_str s.toList
  have hset : SortedSet.ofList s.toList = s := SortedSet.ext_mem fun k => SortedSet.mem_ofList
  simp [names?, ofNames, items?, hstrings, hset]

theorem textual_ofNames (names : List String) : Textual (ofNames names) := by
  refine .arr fun v hv => ?_
  obtain ⟨s, -, rfl⟩ := List.mem_map.1 hv
  exact .str s

end Json

namespace SortedMap

variable {κ α : Type} [LT κ] [DecidableEq κ] [DecidableLT κ] [KeyOrder κ]

def ofList (es : List (κ × α)) : SortedMap κ α := es.foldl (fun m e => m.insert e.1 e.2) ∅

theorem find?_foldl_insert {es : List (κ × α)} (h : (es.map Prod.fst).Pairwise (· < ·))
    (m : SortedMap κ α) (k : κ) :
    (es.foldl (fun m e => m.insert e.1 e.2) m).find? k = (es.lookup k).or (m.find? k) := by
  induction es generalizing m with
  | nil => rfl
  | cons e es ih =>
    have he := List.pairwise_cons.1 h
    rw [List.foldl_cons, ih he.2, find?_insert, lookup_cons_if]
    by_cases hk : k = e.1
    · rw [hk, lookup_eq_none he.1]
      simp
    · simp [hk]

theorem ofList_toList (m : SortedMap κ α) : ofList m.toList = m := by
  refine ext_find? fun k => ?_
  rw [ofList, find?_foldl_insert m.sorted]
  simp [find?, EmptyCollection.emptyCollection, empty]

end SortedMap

namespace Json

def map? {α : Type} (value? : Json → Option α) (v : Json) : Option (NameMap α) := do
  return .ofList (← (← v.fields?).mapM fun f => (value? f.2).map (f.1, ·))

theorem map?_obj {α : Type} {value? : Json → Option α} {toJson : α → Json}
    (h : ∀ a, value? (toJson a) = some a) (m : NameMap α) :
    map? value? (.obj (m.toList.map fun e => (e.1, toJson e.2))) = some m := by
  have hentries : (m.toList.map fun e => (e.1, toJson e.2)).mapM
      (fun f : String × Json => (value? f.2).map (f.1, ·)) = some m.toList :=
    mapM_eq_some (fun e => by simp [h]) m.toList
  simp [map?, fields?, hentries, SortedMap.ofList_toList]

theorem textual_map {α : Type} {toJson : α → Json} (h : ∀ a, Textual (toJson a)) (m : NameMap α) :
    Textual (.obj (m.toList.map fun e => (e.1, toJson e.2))) := by
  refine .obj fun f hf => ?_
  obtain ⟨e, -, rfl⟩ := List.mem_map.1 hf
  exact h e.2

end Json

namespace Candidate

def ofJson? (v : Json) : Option Candidate := do
  let label ← (← v.field? "label").string?
  let kind ← CandidateKind.ofText? (← (← v.field? "kind").string?)
  return ⟨label, kind⟩

def listOfJson? (v : Json) : Option (List Candidate) := do (← v.items?).mapM ofJson?

theorem ofText?_text (k : CandidateKind) : CandidateKind.ofText? k.text = some k := by
  cases k <;> decide

theorem ofJson?_toJson (c : Candidate) : ofJson? c.toJson = some c := by
  simp [ofJson?, toJson, Json.field?, List.lookup_cons, ofText?_text]

theorem textual_toJson (c : Candidate) : c.toJson.Textual := by
  refine .obj fun f hf => ?_
  rcases List.mem_cons.1 hf with rfl | hf
  · exact .str _
  · rw [List.mem_singleton.1 hf]
    exact .str _

theorem textual_list (cs : List Candidate) : (Json.arr (cs.map toJson)).Textual := by
  refine .arr fun v hv => ?_
  obtain ⟨c, -, rfl⟩ := List.mem_map.1 hv
  exact textual_toJson c

theorem decode_jsonText (cs : List Candidate) :
    Json.ofText? (jsonText cs) = some (.arr (cs.map toJson)) :=
  (textual_list cs).ofText?_text

theorem listOfJson?_arr (cs : List Candidate) : listOfJson? (.arr (cs.map toJson)) = some cs :=
  Json.mapM_eq_some ofJson?_toJson cs

end Candidate

namespace SymbolTable

def ofJson? (v : Json) : Option SymbolTable := do
  return {
    functions := ← (← v.field? "functions").names?
    classes := ← (← v.field? "classes").names?
    bindings := ← (← v.field? "variables").names?
    methods := ← (← v.field? "class_methods").map? Json.names?
    variableTypes := ← (← v.field? "variable_types").map? Json.string?
    properties := ← (← v.field? "object_properties").map? Json.names? }

def reportJson (t : SymbolTable) (name : Option String) : Json :=
  .obj (name.toList.map (fun n => ("module", .str n)) ++ t.jsonFields)

theorem textual_reportJson (t : SymbolTable) (name : Option String) :
    (t.reportJson name).Textual := by
  have hsets (m : NameMap NameSet) : (setsToJson m).Textual :=
    Json.textual_map (fun s : NameSet => Json.textual_ofNames s.toList) m
  refine .obj fun f hf => ?_
  rcases List.mem_append.1 hf with hf | hf
  · obtain ⟨n, -, rfl⟩ := List.mem_map.1 hf
    exact .str n
  · simp only [jsonFields, List.mem_cons, List.not_mem_nil, or_false] at hf
    rcases hf with rfl | rfl | rfl | rfl | rfl | rfl
    · exact Json.textual_ofNames _
    · exact Json.textual_ofNames _
    · exact Json.textual_ofNames _
    · exact hsets _
    · exact Json.textual_map Json.Textual.str t.variableTypes
    · exact hsets _

theorem decode_jsonText (t : SymbolTable) (moduleName : Option String) :
    Json.ofText? (t.jsonText moduleName) = some (t.reportJson (moduleName.filter (· ≠ ""))) :=
  (textual_reportJson t _).ofText?_text

theorem map?_setsToJson (m : NameMap NameSet) : (setsToJson m).map? Json.names? = some m :=
  Json.map?_obj Json.names?_ofNames m

theorem map?_variableTypes (t : SymbolTable) :
    Json.map? Json.string? (.obj (t.variableTypes.toList.map fun e => (e.1, .str e.2))) =
      some t.variableTypes :=
  Json.map?_obj Json.string?_str t.variableTypes

theorem ofJson?_reportJson (t : SymbolTable) (name : Option String) :
    ofJson? (t.reportJson name) = some t := by
  cases name <;>
  simp [ofJson?, reportJson, jsonFields, Json.field?, List.lookup_cons, Json.names?_ofNames,
    map?_setsToJson, map?_variableTypes]

theorem field?_reportJson (t : SymbolTable) (name : Option String) :
    (t.reportJson name).field? "module" = name.map .str := by
  cases name <;> simp [reportJson, jsonFields, Json.field?, List.lookup_cons]

end SymbolTable

/-- What the JSON reports keep. Candidates keep their order, their labels and their kinds. A symbol
table, that of a text among others, is kept whole, with the module name unless it is empty. -/
structure ReportsKeepAll : Prop where
  ascii (cs : List Candidate) : Json.IsAscii (Candidate.jsonText cs).toList
  candidates (cs : List Candidate) :
    ∃ v, Json.ofText? (Candidate.jsonText cs) = some v ∧ Candidate.listOfJson? v = some cs
  symbols (t : SymbolTable) (moduleName : Option String) :
    ∃ v, Json.ofText? (t.jsonText moduleName) = some v ∧
      v.field? "module" = (moduleName.filter (· ≠ "")).map .str ∧
      SymbolTable.ofJson? v = some t
  candidates_injective {cs ds : List Candidate}
    (h : Candidate.jsonText cs = Candidate.jsonText ds) : cs = ds
  symbols_injective {t u : SymbolTable} {m n : Option String} (h : t.jsonText m = u.jsonText n) :
    t = u ∧ m.filter (· ≠ "") = n.filter (· ≠ "")

theorem reports_keep_all : ReportsKeepAll where
  ascii cs := by
    rw [Candidate.jsonText, Json.text, String.toList_ofList]
    exact (Candidate.textual_list cs).isAscii_print 0
  candidates cs := ⟨_, Candidate.decode_jsonText cs, Candidate.listOfJson?_arr cs⟩
  symbols t moduleName :=
    ⟨_, t.decode_jsonText moduleName, t.field?_reportJson _, t.ofJson?_reportJson _⟩
  candidates_injective {cs ds} h := by
    have hvalue : Json.arr (cs.map Candidate.toJson) = .arr (ds.map Candidate.toJson) := by
      have hcs := Candidate.decode_jsonText cs
      rw [h, Candidate.decode_jsonText ds] at hcs
      exact (Option.some.inj hcs).symm
    have hread := Candidate.listOfJson?_arr cs
    rw [hvalue, Candidate.listOfJson?_arr ds] at hread
    exact (Option.some.inj hread).symm
  symbols_injective {t u m n} h := by
    have hvalue : t.reportJson (m.filter (· ≠ "")) = u.reportJson (n.filter (· ≠ "")) := by
      have ht := t.decode_jsonText m
      rw [h, u.decode_jsonText n] at ht
      exact (Option.some.inj ht).symm
    constructor
    · have hread := t.ofJson?_reportJson (m.filter (· ≠ ""))
      rw [hvalue, u.ofJson?_reportJson] at hread
      exact (Option.some.inj hread).symm
    · have hname := t.field?_reportJson (m.filter (· ≠ ""))
      rw [hvalue, u.field?_reportJson] at hname
      exact (Option.map_injective (fun _ _ => Json.str.inj) hname).symm

example : Candidate.jsonText [⟨"a\"é😀", .property⟩] =
    "[\n  \x7b\n    \"label\": \"a\\\"\\u00e9\\ud83d\\ude00\",\n    \"kind\": \"property\"\n  \x7d\n]" := by
  decide +kernel

end AbleIndex
