import AbleIndex.Command.Answer
import AbleIndex.Proofs.Reports
import Mathlib.Data.List.TakeWhile

namespace AbleIndex

namespace Text

theorem mem_unstyled {c : Char} {kept cs : List Char} {n : Nat} (hc : c ∈ unstyled kept n cs) : c ∈ kept ∨ c ∈ cs := by
  induction cs generalizing kept n with
  | nil =>
    cases n <;> exact .inl (List.mem_reverse.mp hc)
  | cons d cs ih =>
    cases n with
    | succ n => exact (ih hc).imp_right (List.mem_cons_of_mem d)
    | zero =>
      rw [unstyled] at hc
      split at hc
      · rcases ih hc with hkept | hcs
        · rcases List.mem_cons.mp hkept with rfl | hkept
          · exact .inr List.mem_cons_self
          · exact .inl hkept
        · exact .inr (List.mem_cons_of_mem d hcs)
      · exact (ih hc).imp_right (List.mem_cons_of_mem d)

end Text

def Host.PrintsAll (h : Host) (columns : Nat) (elapsed : Float) (a : Answer) : Prop :=
  ∀ message ∈ a.messages columns elapsed, h.canPrint message = true

def Command.reportFormat? : Command → Option Format
  | index _ format => some format
  | symbols _ _ format => some format
  | complete _ _ _ _ format => some format
  | _ => none

def Command.CanGive (c : Command) : Answer → Prop
  | .usageError => False
  | .failed _ => True
  | .aborted _ => True
  | .version => c = version
  | .help => c = help
  | .indexed _ _ format => ∃ root, c = index root format
  | .symbols _ _ format => ∃ file root, c = symbols file root format
  | .candidates _ format => ∃ file line column root, c = complete file line column root format
  | .serving transport => c = serve transport
  | .watching _ => ∃ root, c = watch root

namespace Host

variable {h : Host} {a : Answer} {columns : Nat} {elapsed : Float}

theorem canPrint_of_encodes {message : String} (hall : ∀ c ∈ message.toList, h.encodes c = true) :
    h.canPrint message = true := by
  rw [canPrint, Text.dropStyling, String.toList_ofList, List.all_eq_true]
  intro c hc
  rcases Text.mem_unstyled hc with hkept | hc
  · cases hkept
  · exact hall c hc

theorem exitCode_eq_zero : h.exitCode columns elapsed a = 0 ↔ a.exitCode = 0 ∧ h.PrintsAll columns elapsed a := by
  simp only [exitCode, PrintsAll, ← List.all_eq_true]
  split <;> simp [*]

theorem messages_of_exitCode (ha : a.exitCode ≠ 0) (columns : Nat) (elapsed : Float) :
    a.messages columns elapsed = [] := by
  cases a with
  | usageError => rfl
  | failed message => rfl
  | aborted e => rfl
  | version => exact absurd rfl ha
  | help => exact absurd rfl ha
  | indexed report modules format => exact absurd rfl ha
  | symbols table moduleName format => exact absurd rfl ha
  | candidates items format => exact absurd rfl ha
  | serving transport => exact absurd rfl ha
  | watching modules => exact absurd rfl ha

theorem output_of_no_message (hm : (a.messages columns elapsed).takeWhile h.canPrint = []) :
    h.output columns elapsed a = "" := by
  rw [output, hm]
  decide +kernel

theorem exitCode_of_exitCode (ha : a.exitCode ≠ 0) (columns : Nat) (elapsed : Float) :
    h.exitCode columns elapsed a = a.exitCode ∧ h.output columns elapsed a = "" := by
  have hm := messages_of_exitCode ha columns elapsed
  refine ⟨?_, output_of_no_message (by rw [hm]; rfl)⟩
  rw [exitCode, hm]
  rfl

theorem output_of_length_messages (hone : (a.messages columns elapsed).length ≤ 1)
    (hcode : h.exitCode columns elapsed a ≠ 0) : h.output columns elapsed a = "" := by
  by_cases ha : a.exitCode = 0
  · apply output_of_no_message
    match hm : a.messages columns elapsed with
    | [] => rfl
    | [message] =>
      have hfails : ¬ h.canPrint message = true := by
        intro hprints
        refine hcode (exitCode_eq_zero.mpr ⟨ha, fun m hmem => ?_⟩)
        rw [hm, List.mem_singleton] at hmem
        rwa [hmem]
      exact List.takeWhile_cons_of_neg hfails
    | message :: message' :: rest =>
      rw [hm] at hone
      simp at hone
  · exact (exitCode_of_exitCode ha columns elapsed).2

theorem output_of_printsAll (ha : h.PrintsAll columns elapsed a) :
    h.output columns elapsed a = a.output columns elapsed := by
  rw [output, Answer.output, List.takeWhile_eq_self_iff.mpr ha]

end Host

theorem ScanReport.isAscii_toJson (r : ScanReport) (modules : List String) :
    Json.IsAscii (r.toJson modules).text.toList := by
  rw [Json.text, String.toList_ofList]
  refine Json.isAscii_obj (fun f hf depth => ?_) 0
  simp only [List.mem_cons, List.not_mem_nil, or_false] at hf
  rcases hf with rfl | rfl | rfl | rfl | rfl | rfl | rfl
  · exact Json.isAscii_int _ depth
  · exact Json.isAscii_int _ depth
  · exact Json.isAscii_int _ depth
  · exact Json.isAscii_int _ depth
  · exact Json.isAscii_int _ depth
  · exact (Json.textual_ofNames _).isAscii_print depth
  · exact (Json.textual_ofNames _).isAscii_print depth

theorem SymbolTable.isAscii_jsonText (t : SymbolTable) (moduleName : Option String) :
    Json.IsAscii (t.jsonText moduleName).toList := by
  rw [jsonText, Json.text, String.toList_ofList]
  exact (textual_reportJson t _).isAscii_print 0

namespace Command

variable {c : Command} {a : Answer}

theorem isAscii_messages (ha : c.CanGive a) (hc : c.reportFormat? = some .json) (columns : Nat) (elapsed : Float) :
    ∀ message ∈ a.messages columns elapsed, Json.IsAscii message.toList := by
  intro message hm
  cases a with
  | indexed report modules format =>
    obtain ⟨root, rfl⟩ := ha
    cases hc
    rw [List.mem_singleton.mp hm]
    exact report.isAscii_toJson modules
  | symbols table moduleName format =>
    obtain ⟨file, root, rfl⟩ := ha
    cases hc
    rw [List.mem_singleton.mp hm]
    exact table.isAscii_jsonText moduleName
  | candidates items format =>
    obtain ⟨file, line, column, root, rfl⟩ := ha
    cases hc
    rw [List.mem_singleton.mp hm, Candidate.jsonText, Json.text, String.toList_ofList]
    exact (Candidate.textual_list items).isAscii_print 0
  | failed message => cases hm
  | aborted e => cases hm
  | usageError => cases ha
  | version =>
    rw [show c = version from ha] at hc
    cases hc
  | help =>
    rw [show c = help from ha] at hc
    cases hc
  | serving transport => cases hm
  | watching modules =>
    obtain ⟨root, rfl⟩ := ha
    cases hc

theorem length_messages (ha : c.CanGive a) (hindex : ∀ root format, c ≠ index root format)
    (hwatch : ∀ root, c ≠ watch root) (columns : Nat) (elapsed : Float) :
    (a.messages columns elapsed).length ≤ 1 := by
  cases a with
  | indexed report modules format =>
    obtain ⟨root, rfl⟩ := ha
    exact absurd rfl (hindex root format)
  | symbols table moduleName format => cases format <;> exact Nat.le_refl 1
  | candidates items format => cases format <;> exact Nat.le_refl 1
  | failed message => exact Nat.zero_le 1
  | aborted e => exact Nat.zero_le 1
  | usageError => cases ha
  | version => exact Nat.le_refl 1
  | help => exact Nat.le_refl 1
  | serving transport => exact Nat.zero_le 1
  | watching modules =>
    obtain ⟨root, rfl⟩ := ha
    exact absurd rfl (hwatch root)

theorem canGive_failure (c : Command) (file : Option String) (e : Failure) : c.CanGive (Invocation.failure file e) := by
  unfold Invocation.failure
  split
  · trivial
  · split <;> trivial
  · trivial

end Command

namespace Invocation

def indexedRoot (h : Host) (file : String) : Option String → Path
  | none => (h.realPath file).parent
  | some r => h.realPath r

theorem runComplete_eq (h : Host) (w : Workspace) (file : String) (line column : Nat) (root : Option String)
    (format : Format) : runComplete h w file line column root format =
      match w.index h (some (indexedRoot h file root).text) with
      | (_, .error e) => failure (some file) e
      | (w, .ok _) =>
        match w.completeAt h (h.realPath file).text line column none with
        | (_, .ok items) => .candidates items format
        | (_, .error e) => failure (some file) e := by
  cases root <;> rfl

theorem canGive_perform (h : Host) (w : Workspace) (c : Command) : c.CanGive (perform h w c) := by
  cases c with
  | version => rfl
  | help => rfl
  | serve transport => rfl
  | index root format =>
    change Command.CanGive _ (runIndex h w root format)
    unfold runIndex
    split
    · exact ⟨_, rfl⟩
    · exact Command.canGive_failure _ none _
  | symbols file root format =>
    change Command.CanGive _ (runSymbols h w file root format)
    unfold runSymbols
    split
    · exact Command.canGive_failure _ none _
    · split
      · exact ⟨_, _, rfl⟩
      · exact Command.canGive_failure _ (some file) _
  | complete file line column root format =>
    change Command.CanGive _ (runComplete h w file line column root format)
    rw [runComplete_eq]
    split
    · exact Command.canGive_failure _ (some file) _
    · split
      · exact ⟨_, _, _, _, rfl⟩
      · exact Command.canGive_failure _ (some file) _
  | watch root =>
    change Command.CanGive _ (runWatch h w root)
    unfold runWatch
    split
    · exact ⟨_, rfl⟩
    · exact Command.canGive_failure _ none _

theorem canGive_run (i : Invocation) (h : Host) : i.command.CanGive (i.run h) := by
  unfold run
  dsimp only
  split
  · trivial
  · trivial
  · exact canGive_perform h _ i.command

end Invocation

/-- Standard output that has all characters can take anything, and one that has those of ASCII a report as JSON. -/
theorem Host.printsAll_run {h : Host} {i : Invocation} (columns : Nat) (elapsed : Float)
    (hencodes : (∀ c, h.encodes c = true) ∨
      i.command.reportFormat? = some .json ∧ ∀ c : Char, c.toNat < 0x80 → h.encodes c = true) :
    h.PrintsAll columns elapsed (i.run h) := by
  intro message hm
  apply canPrint_of_encodes
  intro c hc
  rcases hencodes with hall | ⟨hjson, hascii⟩
  · exact hall c
  · exact hascii c (Command.isAscii_messages (i.canGive_run h) hjson columns elapsed message hm c hc)

end AbleIndex
