import AbleIndex.Proofs.MemberCompletion
import AbleIndex.Proofs.Sessions
import Mathlib.Data.List.TakeWhile

namespace AbleIndex

open Text

namespace Text

variable {text : List Char} {l : DocumentLine}

theorem isTerminator_of_mem_content (hl : l ∈ documentLines text) : ∀ c ∈ l.content, isTerminator c = false := by
  induction text generalizing l with
  | nil => cases hl
  | cons d cs ih =>
    change l ∈ extendLines d (documentLines cs) at hl
    cases hls : documentLines cs with
    | nil =>
      rw [hls, extendLines] at hl
      split at hl
      · rw [List.mem_singleton] at hl
        simp [hl]
      · rename_i hd
        rw [List.mem_singleton] at hl
        simpa [hl] using hd
    | cons k ks =>
      have hmem {j : DocumentLine} (hj : j ∈ k :: ks) : ∀ c ∈ j.content, isTerminator c = false := by
        apply ih
        rw [hls]
        exact hj
      rw [hls, extendLines] at hl
      split at hl
      · obtain rfl | hl := List.mem_cons.mp hl
        · simp
        · exact hmem (List.mem_cons_of_mem k hl)
      · split at hl
        · obtain rfl | hl := List.mem_cons.mp hl
          · simp
          · exact hmem hl
        · rename_i hd
          obtain rfl | hl := List.mem_cons.mp hl
          · intro c hc
            obtain rfl | hc := List.mem_cons.mp hc
            · simpa using hd
            · exact hmem List.mem_cons_self c hc
          · exact hmem (List.mem_cons_of_mem k hl)

theorem Encoding.width_pos (e : Encoding) (c : Char) : 0 < e.width c := by
  cases e with
  | utf8 => exact c.utf8Size_pos
  | utf16 =>
    change 0 < if c.toNat < 0x10000 then 1 else 2
    split <;> omega
  | utf32 => exact Nat.one_pos

theorem Encoding.foldl_width (e : Encoding) (cs : List Char) (n : Nat) :
    cs.foldl (fun n c => n + e.width c) n = n + e.units cs := by
  unfold units
  induction cs generalizing n with
  | nil => rfl
  | cons c cs ih =>
    rw [List.foldl_cons, List.foldl_cons, ih, ih (0 + e.width c)]
    omega

theorem Encoding.units_append (e : Encoding) (cs ds : List Char) : e.units (cs ++ ds) = e.units cs + e.units ds := by
  rw [units, List.foldl_append, e.foldl_width ds]
  rfl

theorem Encoding.charsToReach_units (e : Encoding) (cs rest : List Char) :
    e.charsToReach (e.units cs) (cs ++ rest) = cs.length := by
  induction cs with
  | nil => simp [units, charsToReach]
  | cons c cs ih =>
    have hunits : e.units (c :: cs) = e.width c + e.units cs := e.units_append [c] cs |>.trans (by simp [units])
    have hpos := e.width_pos c
    obtain ⟨n, hn⟩ : ∃ n, e.units (c :: cs) = n + 1 := ⟨e.units (c :: cs) - 1, by omega⟩
    have hrest : n + 1 - e.width c = e.units cs := by omega
    rw [hn, List.cons_append, charsToReach, hrest, ih, List.length_cons]
    omega

end Text

namespace Document

variable {content : List Char}

theorem exists_measured (hc : ∀ c ∈ content, isTerminator c = false) (terminator : List Char) :
    ∃ rest, measured (content ++ terminator) = content ++ rest := by
  unfold measured
  split
  · rename_i cs hreverse
    have hline : content ++ terminator = cs.reverse ++ ['\r', '\n'] := by
      rw [← List.reverse_reverse (content ++ terminator), hreverse]
      simp
    -- the content ends before the terminator it was cut at
    have hlength : content.length ≤ cs.reverse.length := by
      by_contra hlt
      have hmem : '\r' ∈ content := by
        have hget := congrArg (fun l => l[cs.reverse.length]?) hline
        rw [List.getElem?_append_left (by omega), List.getElem?_append_right (le_refl _)] at hget
        simp only [Nat.sub_self] at hget
        exact List.mem_of_getElem? hget
      exact absurd (hc '\r' hmem) (by decide)
    obtain ⟨rest, hrest⟩ : content <+: cs.reverse :=
      List.prefix_of_prefix_length_le (List.prefix_append content terminator)
        (hline ▸ List.prefix_append cs.reverse ['\r', '\n']) hlength
    refine ⟨rest ++ ['\n'], ?_⟩
    rw [List.reverse_cons, ← hrest, List.append_assoc]
  · exact ⟨terminator, rfl⟩

theorem exists_chomp (hc : ∀ c ∈ content, isTerminator c = false) (terminator : List Char) :
    ∃ rest, chomp (content ++ terminator) = content ++ rest := by
  have hself : content.reverse.dropWhile (fun c => c = '\r' || c = '\n') = content.reverse := by
    rw [List.dropWhile_eq_self_iff]
    intro hpos
    have hmem : content.reverse[0] ∈ content := List.mem_reverse.mp (List.getElem_mem hpos)
    intro hend
    have hterm := hc _ hmem
    simp only [Bool.or_eq_true, decide_eq_true_eq] at hend
    obtain he | he := hend <;> rw [he] at hterm <;> exact absurd hterm (by decide)
  unfold chomp
  rw [List.reverse_append, List.dropWhile_append, hself]
  split
  · exact ⟨[], by simp⟩
  · exact ⟨_, by rw [List.reverse_append, List.reverse_reverse]⟩

theorem textBefore_units (e : Encoding) {text : String} {l : DocumentLine} {line : Nat}
    (hl : (documentLines text.toList)[line]? = some l) {column : Nat} (hcolumn : column ≤ l.content.length) :
    textBefore e text ⟨line, e.units (l.content.take column)⟩ = String.ofList (l.content.take column) := by
  have hc := isTerminator_of_mem_content (List.mem_of_getElem? hl)
  obtain ⟨rest, hmeasured⟩ := exists_measured hc l.terminator
  obtain ⟨tail, hchomp⟩ := exists_chomp hc l.terminator
  have hsplit : l.content ++ rest = l.content.take column ++ (l.content.drop column ++ rest) := by
    rw [← List.append_assoc, List.take_append_drop]
  have hindex : charIndex e l.text (e.units (l.content.take column)) = column := by
    unfold charIndex DocumentLine.text
    dsimp only
    rw [hmeasured, hsplit, e.units_append, if_neg (by omega), e.charsToReach_units, List.length_take]
    omega
  have hline : (lines text)[line]? = some l.text := by simp [lines, hl]
  unfold textBefore
  dsimp only
  rw [hline]
  dsimp only
  rw [hindex, DocumentLine.text, hchomp, List.take_append_of_le_length hcolumn]

/-- A position that stands for a column: it counts the units up to there. Behind the last line any column does. -/
def StandsFor (e : Encoding) (text : String) (p : Position) (column : Nat) : Prop :=
  (documentLines text.toList).length ≤ p.line ∨
    column ≤ (Workspace.cursorLine text p.line).length ∧
      p.column = e.units ((Workspace.cursorLine text p.line).take column)

theorem cursorLine_natCast (text : String) (line : Nat) :
    Workspace.cursorLine text line = ((documentLines text.toList)[line]?.map (·.content)).getD [] := by
  unfold Workspace.cursorLine
  rw [if_neg (by omega), Int.toNat_natCast]

theorem upTo_natCast (line : List Char) (column : Nat) : Workspace.upTo line column = line.take column := by
  unfold Workspace.upTo
  rw [if_neg (by omega), Int.toNat_natCast]

theorem cursorLine_of_le {text : String} {line : Nat} (hline : (documentLines text.toList).length ≤ line) :
    Workspace.cursorLine text line = [] := by
  rw [cursorLine_natCast, List.getElem?_eq_none hline]
  rfl

theorem textBefore_of_le (e : Encoding) {text : String} {p : Position}
    (hline : (documentLines text.toList).length ≤ p.line) : textBefore e text p = "" := by
  have hnone : (lines text)[p.line]? = none := by
    rw [lines, List.getElem?_map, List.getElem?_eq_none hline]
    rfl
  unfold textBefore
  rw [hnone]

theorem textBefore_of_standsFor {e : Encoding} {text : String} {p : Position} {column : Nat}
    (hp : StandsFor e text p column) :
    textBefore e text p = String.ofList (Workspace.upTo (Workspace.cursorLine text p.line) column) := by
  rw [upTo_natCast]
  cases hl : (documentLines text.toList)[p.line]? with
  | none =>
    have hline := List.getElem?_eq_none_iff.mp hl
    rw [textBefore_of_le e hline, cursorLine_of_le hline, List.take_nil]
  | some l =>
    have hcontent : Workspace.cursorLine text p.line = l.content := by
      rw [cursorLine_natCast, hl]
      rfl
    obtain hline | ⟨hcolumn, hunits⟩ := hp
    · rw [List.getElem?_eq_none hline] at hl
      cases hl
    · rw [hcontent] at hcolumn hunits ⊢
      rw [← textBefore_units e hl hcolumn, ← hunits]

end Document

namespace Server

variable {h : Host} {s s' : Server} {e : Event} {uri text path : String}

theorem documentPath?_of_toPath? (h : Host) (hpath : Uri.toPath? uri = some path) (hne : path ≠ "") :
    h.documentPath? uri = some (h.absolute path) := by
  unfold Host.documentPath?
  rw [hpath, Option.filter_some, if_pos (by simpa using hne)]
  rfl

theorem complete_of_openText? (ht : s.openText? uri = some text) (hpath : Uri.toPath? uri = some path) (p : Position) :
    s.complete h uri p =
      .ok (s.workspace.complete (Document.textBefore s.encoding text p) (some (h.absolute path))) := by
  obtain ⟨documents, hd, hfind⟩ := Option.bind_eq_some_iff.mp ht
  unfold complete
  rw [hd]
  dsimp only
  rw [hfind, hpath]
  rfl

theorem complete_of_not_open {documents : NameMap String} (hd : s.documents = some documents)
    (hclosed : s.openText? uri = none) (p : Position) : s.complete h uri p = .ok [] := by
  have hfind : documents.find? uri = none := by
    rw [openText?, hd] at hclosed
    exact hclosed
  unfold complete
  rw [hd]
  dsimp only
  rw [hfind]

/-- Right after a document has been opened or changed, completion in the editor and at the same place of its file
show the same, whether the latter starts from the index before or behind the event: that is what the text before
the cursor calls for. This needs a URI that is kept as it is written; under one with escapes nothing is found. -/
theorem complete_eq_completeAt (h : Host) (s : Server) (he : e.uri? = some uri) (hs : s' = s.handle h e)
    (ht : s'.openText? (Uri.documentKey uri) = some text) (hpath : Uri.toPath? uri = some path) (hne : path ≠ "") :
    (Uri.documentKey uri = uri → ∀ p column, Document.StandsFor s'.encoding text p column →
      ∀ w ∈ [s.workspace, s'.workspace], ∃ candidates,
        s'.complete h uri p = .ok candidates ∧ (w.completeAt h path p.line column (some text)).2 = .ok candidates) ∧
    (Uri.documentKey uri = uri → ∀ p : Position, (documentLines text.toList).length ≤ p.line →
      s'.complete h uri p = .ok (s'.workspace.complete "" (some (h.absolute path)))) ∧
    (Uri.documentKey uri ≠ uri → s.openText? uri = none → ∀ p, s'.complete h uri p = .ok []) := by
  subst hs
  have hp := documentPath?_of_toPath? h hpath hne
  obtain ⟨documents, hd, htake⟩ := handle_of_open he hp ht
  have hw : (s.handle h e).workspace = (s.workspace.update (h.absolute path) text).1 := by
    rw [htake, workspace_takeText hp]
  refine ⟨?_, ?_, ?_⟩
  · intro hkey p column hcolumn w hmem
    rw [hkey] at ht
    refine ⟨_, complete_of_openText? ht hpath p, ?_⟩
    -- a second update with the same text changes nothing
    have hupdate : (w.update (h.absolute path) text).1 = (s.handle h e).workspace := by
      obtain rfl | hmem := List.mem_cons.mp hmem
      · exact hw.symm
      · rw [List.mem_singleton.mp hmem, hw, Workspace.update_update]
    rw [Workspace.completeAt_of_text, hupdate, Document.textBefore_of_standsFor hcolumn]
  · intro hkey p hline
    rw [hkey] at ht
    rw [complete_of_openText? ht hpath p, Document.textBefore_of_le _ hline]
  · intro hkey hclosed p
    rw [htake]
    apply complete_of_not_open rfl
    rw [openText?_takeText hd, if_neg hkey.symm, hclosed]

theorem complete_eq_completeAt_wide :
    let h : Host := { (default : Host) with disk := ({} : Disk).put ["t", "a.abl"] (.file "".toUTF8) }
    let s := (({} : Server).connect h { rootUri := some "file:///t" }).1
    let text := "o = \x7bk: 1\x7d\r\n\"𝄞\" + o."
    let s' := s.handle h (.opened "file:///t/a.abl" text)
    Document.StandsFor s'.encoding text ⟨1, 9⟩ 8 ∧ s'.complete h "file:///t/a.abl" ⟨1, 9⟩ = .ok [⟨"k", .property⟩] ∧
      (s.workspace.completeAt h "/t/a.abl" 1 8 (some text)).2 = .ok [⟨"k", .property⟩] := by
  intro h s text s'
  have ht : s'.openText? (Uri.documentKey "file:///t/a.abl") = some text := by decide +kernel
  have hpath : Uri.toPath? "file:///t/a.abl" = some "/t/a.abl" := by decide +kernel
  have hp : Document.StandsFor s'.encoding text ⟨1, 9⟩ 8 := .inr (by decide +kernel)
  have hfile : (s.workspace.completeAt h "/t/a.abl" 1 8 (some text)).2 = .ok [⟨"k", .property⟩] := by decide +kernel
  obtain ⟨candidates, heditor, hsame⟩ := (complete_eq_completeAt h s rfl rfl ht hpath (by decide)).1
    (by decide +kernel) ⟨1, 9⟩ 8 hp s.workspace List.mem_cons_self
  cases hsame.symm.trans hfile
  exact ⟨hp, heditor, hfile⟩

theorem complete_misses_escaped_uri :
    let h : Host := { (default : Host) with disk := ({} : Disk).put ["t", "a b.abl"] (.file "".toUTF8) }
    let s := (({} : Server).connect h { rootUri := some "file:///t" }).1
    let text := "o = \x7bk: 1\x7d\no."
    let s' := s.handle h (.opened "file:///t/a%20b.abl" text)
    Uri.toPath? "file:///t/a%20b.abl" = some "/t/a b.abl" ∧
      s'.workspace.modules.find? "a b" = some ⟨"a b", .ofText text, "/t/a b.abl"⟩ ∧
      s'.complete h "file:///t/a%20b.abl" ⟨1, 2⟩ = .ok [] ∧
      (s.workspace.completeAt h "/t/a b.abl" 1 2 (some text)).2 = .ok [⟨"k", .property⟩] := by
  decide +kernel

end Server

end AbleIndex
