import AbleIndex.Command.Invocation
import AbleIndex.Proofs.OwnPaths

namespace AbleIndex

theorem bind_eq_ok {ε α β : Type} {x : Except ε α} {f : α → Except ε β} {b : β} (hx : (x >>= f) = .ok b) :
    ∃ a, x = .ok a ∧ f a = .ok b := by
  cases x with
  | error e => cases hx
  | ok a => exact ⟨a, rfl, hx⟩

theorem forM_eq_ok {ε α : Type} {f : α → Except ε Unit} {as : List α} (hf : as.forM f = .ok ()) :
    ∀ a ∈ as, f a = .ok () := by
  induction as with
  | nil => simp
  | cons a as ih =>
    obtain ⟨⟨⟩, ha, has⟩ := bind_eq_ok hf
    intro b hb
    rcases List.mem_cons.mp hb with rfl | hb
    · exact ha
    · exact ih has b hb

namespace Command

variable {h : Host} {a : Arguments} {c : Command}

def named : Command → List String
  | index root _ => [root]
  | symbols file root _ => file :: root.toList
  | complete file _ _ root _ => file :: root.toList
  | watch root => [root]
  | _ => []

def Suits (h : Host) : Command → Prop
  | index root _ => h.lookup root = .ok .directory
  | symbols file root _ =>
    (∃ n, h.lookup file = .ok n ∧ n.isDirectory = false) ∧ ∀ r ∈ root, h.lookup r = .ok .directory
  | complete file _ _ root _ =>
    (∃ n, h.lookup file = .ok n ∧ n.isDirectory = false) ∧ ∀ r ∈ root, h.lookup r = .ok .directory
  | watch root => h.lookup root = .ok .directory
  | _ => True

theorem checkPath_eq_ok {s : String} {suits : Node → Bool} :
    checkPath h s suits = .ok () ↔ ∃ n, h.lookup s = .ok n ∧ suits n = true := by
  unfold checkPath
  cases h.lookup s with
  | error e => cases e <;> simp
  | ok n => cases hn : suits n <;> simp [require, hn]

theorem checkPath_directory {s : String} (hc : checkPath h s Node.isDirectory = .ok ()) :
    h.lookup s = .ok .directory := by
  obtain ⟨n, hl, hn⟩ := checkPath_eq_ok.mp hc
  cases n with
  | directory => exact hl
  | file content => cases hn
  | link target => cases hn

theorem checkPath_file {s : String} (hc : checkPath h s (!Node.isDirectory ·) = .ok ()) :
    ∃ n, h.lookup s = .ok n ∧ n.isDirectory = false := by
  obtain ⟨n, hl, hn⟩ := checkPath_eq_ok.mp hc
  exact ⟨n, hl, by simpa using hn⟩

theorem mem_given {word value : String} (hv : a.value? word = some value) : (word, value) ∈ a.given := by
  obtain ⟨before, behind, hoptions, -⟩ := List.lookup_eq_some_iff.mp hv
  have hmem : (word, value) ∈ a.options := by
    rw [← List.mem_reverse, hoptions]
    simp
  exact List.mem_map.mpr ⟨word, List.mem_eraseDups.mpr (List.mem_map_of_mem hmem), by rw [hv]; rfl⟩

theorem Form.check_operand {f : Form} {kind : ValueKind} {kinds : List ValueKind} {s : String} {rest : List String}
    (hc : f.check h a = .ok ()) (hf : f.operands = kind :: kinds) (hgiven : a.operands = s :: rest) :
    kind.check h s = .ok () := by
  obtain ⟨⟨⟩, -, hoperands⟩ := bind_eq_ok hc
  rw [hf, hgiven] at hoperands
  obtain ⟨⟨⟩, hkind, -⟩ := bind_eq_ok hoperands
  exact hkind

theorem Form.check_workspace {f : Form} {r : String} (hc : f.check h a = .ok ())
    (hf : f.checkOption h ("workspace", r) = checkPath h r Node.isDirectory) (hr : a.value? "workspace" = some r) :
    h.lookup r = .ok .directory := by
  obtain ⟨⟨⟩, hgiven, -⟩ := bind_eq_ok hc
  have hoption := forM_eq_ok hgiven _ (mem_given hr)
  rw [hf] at hoption
  exact checkPath_directory hoption

theorem read_cases {name : String} {f : Form} {args : List String} {v : Bool} (hr : read h name f args = .ok (c, v)) :
    c = .help ∨ ∃ a, f.check h a = .ok () ∧ ofArguments? name a = some c := by
  unfold read at hr
  split at hr
  · cases hr
  rename_i a _
  split at hr
  · cases hr
    exact .inl rfl
  obtain ⟨⟨⟩, hc, hr⟩ := bind_eq_ok hr
  split at hr
  · cases hr
  · rename_i c' hc'
    cases hr
    exact .inr ⟨a, hc, hc'⟩

theorem ofOptions?_cases (ho : ofOptions? a = some c) : c = .version ∨ c = .help := by
  obtain ⟨word, -, hw⟩ := List.exists_of_findSome?_eq_some ho
  split at hw
  · cases hw
    exact .inl rfl
  · split at hw
    · cases hw
      exact .inr rfl
    · cases hw

theorem readMisplaced_cases {args : List String} (hr : readMisplaced args = .ok c) : c = .version ∨ c = .help := by
  unfold readMisplaced at hr
  split at hr
  · cases hr
  · rename_i c' hc'
    cases hr
    obtain ⟨a, -, ho⟩ := Option.bind_eq_some_iff.mp hc'
    exact ofOptions?_cases ho

theorem ofArguments_cases {args : List String} {i : Invocation} (ha : Invocation.ofArguments h args = .ok i) :
    (i.command = .version ∨ i.command = .help) ∨
      ∃ name f a, forms.lookup name = some f ∧ f.check h a = .ok () ∧ ofArguments? name a = some i.command := by
  unfold Invocation.ofArguments at ha
  split at ha
  · cases ha
  split at ha
  · rename_i ho
    cases ha
    exact .inl (ofOptions?_cases ho)
  · cases ha
  split at ha
  · obtain ⟨c, hc, ha⟩ := bind_eq_ok ha
    cases ha
    exact .inl (readMisplaced_cases hc)
  · rename_i f hf
    obtain ⟨⟨c, v⟩, hc, ha⟩ := bind_eq_ok ha
    cases ha
    rcases read_cases hc with hhelp | ⟨a, hcheck, hof⟩
    · exact .inl (.inr hhelp)
    · exact .inr ⟨_, f, a, hf, hcheck, hof⟩

theorem lookup_rootOf {f : Form} (hs : h.IsSound) (hc : f.check h a = .ok ()) (hf : f.operands = [.directory]) :
    h.lookup (rootOf a) = .ok .directory := by
  rw [rootOf]
  cases hgiven : a.operands with
  | nil => exact hs.lookup_dot
  | cons s rest => exact checkPath_directory (Form.check_operand hc hf hgiven)

theorem suits_of_check {name : String} {f : Form} (hs : h.IsSound) (hf : forms.lookup name = some f)
    (hc : f.check h a = .ok ()) (ho : ofArguments? name a = some c) : c.Suits h := by
  unfold ofArguments? at ho
  split at ho
  · cases ho
    obtain rfl := Option.some.inj hf
    exact lookup_rootOf hs hc rfl
  · rename_i hgiven
    cases ho
    obtain rfl := Option.some.inj hf
    exact ⟨checkPath_file (Form.check_operand hc rfl hgiven), fun r hr => Form.check_workspace hc rfl hr⟩
  · rename_i hgiven
    obtain ⟨line, -, ho⟩ := Option.bind_eq_some_iff.mp ho
    obtain ⟨column, -, ho⟩ := Option.bind_eq_some_iff.mp ho
    cases ho
    obtain rfl := Option.some.inj hf
    exact ⟨checkPath_file (Form.check_operand hc rfl hgiven), fun r hr => Form.check_workspace hc rfl hr⟩
  · cases ho
    trivial
  · cases ho
    obtain rfl := Option.some.inj hf
    exact lookup_rootOf hs hc rfl
  · cases ho

theorem suits_of_ofArguments {args : List String} {i : Invocation} (hs : h.IsSound)
    (ha : Invocation.ofArguments h args = .ok i) : i.command.Suits h := by
  rcases ofArguments_cases ha with (hc | hc) | ⟨name, f, a, hf, hcheck, ho⟩
  · rw [hc]
    trivial
  · rw [hc]
    trivial
  · exact suits_of_check hs hf hcheck ho

end Command

end AbleIndex
