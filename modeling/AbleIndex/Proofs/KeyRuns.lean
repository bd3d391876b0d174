import AbleIndex.Proofs.ContextForms
import AbleIndex.Proofs.Indentation

namespace AbleIndex.Source

open Text

variable {cs run rest key : List Char}

def colonAhead (cs : List Char) : Bool := (skipBlanks cs).head? = some ':'

inductive WordRuns : List Char → List (List Char × List Char) → Prop
  | done {cs : List Char} (h : ∀ c ∈ cs, isWordChar c = false) : WordRuns cs []
  | next {gap run rest : List Char} {runs : List (List Char × List Char)} (hg : ∀ c ∈ gap, isWordChar c = false)
      (hne : run ≠ []) (hr : ∀ c ∈ run, isWordChar c = true) (hs : ∀ c ∈ rest.head?, isWordChar c = false)
      (h : WordRuns rest runs) : WordRuns (gap ++ (run ++ rest)) ((run, rest) :: runs)

/-- The key that a run is, if a colon follows: the run without the digits it starts with, unless nothing is left. -/
def runKey? (run rest : List Char) : Option String :=
  if colonAhead rest = true ∧ run.dropWhile isDigit ≠ [] then some (String.ofList (run.dropWhile isDigit)) else none

/-- The keys between neighbouring quotes. A pair is taken if there is something between the quotes and a colon behind
them, and the next one starts behind that colon; otherwise it starts with the second quote. -/
inductive QuotePairs : List Char → List String → Prop
  | done {cs : List Char} (h : cs.count '"' < 2) : QuotePairs cs []
  | taken {before key blanks rest : List Char} {keys : List String} (hb : '"' ∉ before) (hk : '"' ∉ key) (hne : key ≠ [])
      (hs : ∀ c ∈ blanks, isBlank c = true) (h : QuotePairs rest keys) :
      QuotePairs (before ++ '"' :: (key ++ '"' :: (blanks ++ ':' :: rest))) (String.ofList key :: keys)
  | passed {before key rest : List Char} {keys : List String} (hb : '"' ∉ before) (hk : '"' ∉ key)
      (hno : key = [] ∨ colonAhead rest = false) (h : QuotePairs ('"' :: rest) keys) :
      QuotePairs (before ++ '"' :: (key ++ '"' :: rest)) keys

theorem colonAhead_iff :
    colonAhead cs = true ↔ ∃ blanks rest, (∀ c ∈ blanks, isBlank c = true) ∧ cs = blanks ++ ':' :: rest := by
  rw [colonAhead, decide_eq_true_eq]
  constructor
  · intro h
    obtain ⟨blanks, hb, hcs⟩ := exists_blanks cs
    obtain ⟨rest, hrest⟩ := List.head?_eq_some_iff.mp h
    exact ⟨blanks, rest, hb, hrest ▸ hcs⟩
  · rintro ⟨blanks, rest, hb, rfl⟩
    rw [skipBlanks_append_of_blank hb, skipBlanks_cons (by decide), List.head?_cons]

theorem after?_colon (cs : List Char) : (after? [':'] (skipBlanks cs)).isSome = colonAhead cs := by
  rw [Bool.eq_iff_iff, Option.isSome_iff_exists, colonAhead, decide_eq_true_eq, List.head?_eq_some_iff]
  simp only [after?_eq_some, List.singleton_append]

section Search

variable {reader : List Char → Option (String × Nat)}

theorem findAll_length (part rest : List Char) : findAll reader part.length (part ++ rest) = findAll reader 0 rest := by
  induction part with
  | nil => rfl
  | cons c part ih => exact ih

theorem findAll_of_none {c : Char} (h : reader (c :: cs) = none) : findAll reader 0 (c :: cs) = findAll reader 0 cs := by
  rw [findAll, h]

theorem findAll_of_some {c : Char} {part : List Char} {found : String}
    (h : reader (c :: (part ++ rest)) = some (found, part.length + 1)) :
    findAll reader 0 (c :: (part ++ rest)) = found :: findAll reader 0 rest := by
  rw [findAll, h]
  exact congrArg (found :: ·) (findAll_length part rest)

theorem findAll_eq_nil (h : ∀ c ∈ cs, ∀ ds, reader (c :: ds) = none) : findAll reader 0 cs = [] := by
  rw [← List.append_nil cs, findAll_append_left h]
  rfl

end Search

section Runs

theorem bareKey?_eq_none {c : Char} (hc : isWordStart c = false) (cs : List Char) : bareKey? (c :: cs) = none := by
  simp [bareKey?, identifier?, hc]

theorem isWordStart_eq_false {c : Char} (hc : isWordChar c = false) : isWordStart c = false := by
  rw [isWordChar, Bool.or_eq_false_iff] at hc
  exact hc.1

theorem isWordStart_eq_false_of_isDigit {c : Char} (hc : isDigit c = true) : isWordStart c = false := by
  simp only [isDigit, Bool.and_eq_true, decide_eq_true_eq, Char.le_def, UInt32.le_iff_toNat_le] at hc
  by_contra h
  simp only [isWordStart, Bool.not_eq_false, Bool.or_eq_true, Bool.and_eq_true, decide_eq_true_eq, Char.le_def,
    UInt32.le_iff_toNat_le] at h
  have hupper : c.val.toNat ≤ 57 := hc.2
  obtain (⟨h, -⟩ | ⟨h, -⟩) | rfl := h
  · have hlower : 65 ≤ c.val.toNat := h
    omega
  · have hlower : 97 ≤ c.val.toNat := h
    omega
  · exact absurd hc.2 (by decide)

theorem bareKey?_run {c : Char} (hr : ∀ d ∈ run, isWordChar d = true) (hs : ∀ d ∈ rest.head?, isWordChar d = false) :
    bareKey? (c :: (run ++ rest)) =
      if isWordStart c = true ∧ colonAhead rest = true then
        some (String.ofList (c :: run), run.length + 1 + (rest.takeWhile isBlank).length + 1)
      else none := by
  obtain ⟨htake, hdrop⟩ := takeWhile_run hr hs
  cases hc : isWordStart c with
  | false => rw [bareKey?_eq_none hc, if_neg (by simp)]
  | true =>
    have hcolon := after?_colon rest
    simp only [bareKey?, identifier?, hc, htake, hdrop, if_true, bind, Option.bind_some, pure, true_and]
    cases ha : after? [':'] (skipBlanks rest) with
    | none =>
      rw [ha] at hcolon
      rw [if_neg (by simp [← hcolon]), Option.bind_none]
    | some r =>
      rw [ha, Option.isSome_some] at hcolon
      rw [if_pos hcolon.symm, Option.bind_some, String.length_ofList, List.length_cons]

theorem findAll_run_of_no_colon (hr : ∀ c ∈ run, isWordChar c = true) (hs : ∀ c ∈ rest.head?, isWordChar c = false)
    (hcolon : colonAhead rest = false) : findAll bareKey? 0 (run ++ rest) = findAll bareKey? 0 rest := by
  induction run with
  | nil => rfl
  | cons c run ih =>
    have hrun : ∀ d ∈ run, isWordChar d = true := fun d hd => hr d (List.mem_cons_of_mem c hd)
    rw [List.cons_append, findAll_of_none, ih hrun]
    rw [bareKey?_run hrun hs, if_neg]
    rw [hcolon]
    exact fun h => Bool.false_ne_true h.2

theorem takeWhile_blanks {blanks : List Char} (hb : ∀ c ∈ blanks, isBlank c = true) (behind : List Char) :
    (blanks ++ ':' :: behind).takeWhile isBlank = blanks :=
  (takeWhile_run hb (by simp [isBlank])).1

theorem findAll_colon (hcolon : colonAhead rest = true) :
    ∃ blanks behind, rest = blanks ++ ':' :: behind ∧ (rest.takeWhile isBlank).length = blanks.length ∧
      findAll bareKey? 0 rest = findAll bareKey? 0 behind := by
  obtain ⟨blanks, behind, hb, rfl⟩ := colonAhead_iff.mp hcolon
  refine ⟨blanks, behind, rfl, by rw [takeWhile_blanks hb], ?_⟩
  rw [findAll_append_left fun c hc => bareKey?_blank (hb c hc), findAll_of_none (bareKey?_eq_none (by decide) behind)]

theorem findAll_run (hr : ∀ c ∈ run, isWordChar c = true) (hs : ∀ c ∈ rest.head?, isWordChar c = false) :
    findAll bareKey? 0 (run ++ rest) = (runKey? run rest).toList ++ findAll bareKey? 0 rest := by
  cases hcolon : colonAhead rest with
  | false =>
    rw [findAll_run_of_no_colon hr hs hcolon, runKey?, if_neg (by simp [hcolon])]
    rfl
  | true =>
    obtain ⟨digits, name, rfl, hd, -, hname⟩ := exists_run isDigit run
    have hskip : ∀ c ∈ digits, ∀ ds, bareKey? (c :: ds) = none := by
      intro c hc
      exact bareKey?_eq_none (isWordStart_eq_false_of_isDigit (hd c hc))
    rw [List.append_assoc, findAll_append_left hskip, runKey?, hname]
    cases name with
    | nil =>
      rw [if_neg (by simp)]
      rfl
    | cons c part =>
      have hstart : isWordStart c = true := by
        have hword := hr c (by simp)
        have hdigit : isDigit c = false := by
          have hhead := List.head?_dropWhile_not isDigit (digits ++ c :: part)
          rw [hname] at hhead
          simpa using hhead
        rwa [isWordChar, hdigit, Bool.or_false] at hword
      have hpart : ∀ d ∈ part, isWordChar d = true := by
        intro d hd
        exact hr d (by simp [hd])
      obtain ⟨blanks, behind, hrest, hlen, hfind⟩ := findAll_colon hcolon
      rw [if_pos ⟨hcolon, List.cons_ne_nil c part⟩, hfind, Option.toList_some, List.singleton_append]
      have hkey := bareKey?_run (c := c) hpart hs
      rw [if_pos ⟨hstart, hcolon⟩, hlen, hrest] at hkey
      have hsplit : part ++ (blanks ++ ':' :: behind) = part ++ (blanks ++ [':']) ++ behind := by simp
      rw [List.cons_append, hrest, hsplit]
      rw [hsplit] at hkey
      apply findAll_of_some
      rw [hkey]
      simp only [List.length_append, List.length_cons, List.length_nil]
      congr 2
      omega

theorem WordRuns.bareKeys {runs : List (List Char × List Char)} (h : WordRuns cs runs) :
    bareKeys cs = runs.filterMap fun r => runKey? r.1 r.2 := by
  induction h with
  | done h => exact findAll_eq_nil fun c hc => bareKey?_eq_none (isWordStart_eq_false (h c hc))
  | @next gap run rest runs hg hne hr hs h ih =>
    have hgap : ∀ c ∈ gap, ∀ ds, bareKey? (c :: ds) = none := by
      intro c hc
      exact bareKey?_eq_none (isWordStart_eq_false (hg c hc))
    rw [Source.bareKeys, findAll_append_left hgap, findAll_run hr hs]
    change _ ++ Source.bareKeys rest = _
    rw [ih, List.filterMap_cons]
    cases runKey? run rest <;> rfl

theorem exists_wordRuns (cs : List Char) : ∃ runs, WordRuns cs runs := by
  obtain ⟨gap, others, hcs, hg, -, hothers⟩ := exists_run (fun c => !isWordChar c) cs
  have hgap : ∀ c ∈ gap, isWordChar c = false := by simpa using hg
  cases hcons : others with
  | nil =>
    rw [hcs, hcons, List.append_nil]
    exact ⟨[], .done hgap⟩
  | cons c tail =>
    have hc : isWordChar c = true := by
      have hhead := List.head?_dropWhile_not (fun c => !isWordChar c) cs
      rw [hothers, hcons] at hhead
      simpa using hhead
    obtain ⟨run, rest, hsplit, hr, htake, hrest⟩ := exists_run isWordChar others
    have hne : run ≠ [] := by
      rw [← htake, hcons, List.takeWhile_cons_of_pos hc]
      exact List.cons_ne_nil c _
    have hstop : ∀ d ∈ rest.head?, isWordChar d = false := by
      intro d hd
      have hhead := List.head?_dropWhile_not isWordChar others
      rw [hrest, hd] at hhead
      exact hhead
    have hshorter : rest.length < cs.length := by
      have hpos := List.length_pos_iff.mpr hne
      rw [hcs, hsplit, List.length_append, List.length_append]
      omega
    obtain ⟨runs, hruns⟩ := exists_wordRuns rest
    rw [hcs, hsplit]
    exact ⟨_, .next hgap hne hr hstop hruns⟩
  termination_by cs.length

end Runs

section Quotes

theorem quotedKey?_eq_none {c : Char} (hc : c ≠ '"') (cs : List Char) : quotedKey? (c :: cs) = none := by
  rw [quotedKey?, after?_eq_none _ _ (Ne.symm hc)]
  rfl

theorem findAll_no_quote (hcs : '"' ∉ cs) (rest : List Char) :
    findAll quotedKey? 0 (cs ++ rest) = findAll quotedKey? 0 rest := by
  apply findAll_append_left
  intro c hc
  apply quotedKey?_eq_none
  rintro rfl
  exact hcs hc

theorem takeWhile_no_quote (hk : '"' ∉ key) (rest : List Char) :
    (key ++ '"' :: rest).takeWhile (· ≠ '"') = key ∧ (key ++ '"' :: rest).dropWhile (· ≠ '"') = '"' :: rest := by
  apply takeWhile_run
  · intro c hc
    have hne : c ≠ '"' := by
      rintro rfl
      exact hk hc
    simpa using hne
  · simp

theorem quotedKey?_pair (hk : '"' ∉ key) (rest : List Char) :
    quotedKey? ('"' :: (key ++ '"' :: rest)) =
      if key ≠ [] ∧ colonAhead rest = true then
        some (String.ofList key, key.length + 2 + (rest.takeWhile isBlank).length + 1)
      else none := by
  obtain ⟨htake, hdrop⟩ := takeWhile_no_quote hk rest
  have hquote (cs : List Char) : after? ['"'] ('"' :: cs) = some cs := after?_eq_some.mpr rfl
  simp only [quotedKey?, hquote, bind, Option.bind_some, htake, hdrop, pure]
  cases key with
  | nil => rfl
  | cons c part =>
    have hcolon := after?_colon rest
    cases ha : after? [':'] (skipBlanks rest) with
    | none =>
      rw [ha, Option.isSome_none] at hcolon
      simp [← hcolon]
    | some r =>
      rw [ha, Option.isSome_some] at hcolon
      simp [← hcolon]

theorem quotedKeys_of_count (h : cs.count '"' < 2) : quotedKeys cs = [] := by
  obtain ⟨before, others, rfl, hb, -, hothers⟩ := exists_run (· ≠ '"') cs
  have hbefore : '"' ∉ before := by
    intro hmem
    simpa using hb '"' hmem
  rw [quotedKeys, findAll_no_quote hbefore]
  cases others with
  | nil => rfl
  | cons c behind =>
    have hc : c = '"' := by
      have hhead := List.head?_dropWhile_not (· ≠ '"') (before ++ c :: behind)
      rw [hothers] at hhead
      simpa using hhead
    subst hc
    have hbehind : '"' ∉ behind := by
      rw [List.count_append, List.count_cons_self] at h
      rw [← List.count_eq_zero]
      omega
    have hnone : quotedKey? ('"' :: behind) = none := by
      have hall : behind.dropWhile (· ≠ '"') = [] := by
        rw [List.dropWhile_eq_nil_iff]
        intro c hc
        have hne : c ≠ '"' := by
          rintro rfl
          exact hbehind hc
        simpa using hne
      have hquote : after? ['"'] ('"' :: behind) = some behind := after?_eq_some.mpr rfl
      simp only [quotedKey?, hquote, bind, Option.bind_some, hall]
      split <;> rfl
    rw [findAll_of_none hnone, ← List.append_nil behind, findAll_no_quote hbehind]
    rfl

theorem QuotePairs.quotedKeys {keys : List String} (h : QuotePairs cs keys) : quotedKeys cs = keys := by
  induction h with
  | done h => exact quotedKeys_of_count h
  | @taken before key blanks rest keys hb hk hne hs h ih =>
    have hcolon : colonAhead (blanks ++ ':' :: rest) = true := colonAhead_iff.mpr ⟨blanks, rest, hs, rfl⟩
    have hpair := quotedKey?_pair hk (blanks ++ ':' :: rest)
    rw [if_pos ⟨hne, hcolon⟩, takeWhile_blanks hs] at hpair
    have hsplit : key ++ '"' :: (blanks ++ ':' :: rest) = key ++ ('"' :: (blanks ++ [':'])) ++ rest := by simp
    rw [Source.quotedKeys, findAll_no_quote hb, hsplit, ← ih]
    rw [hsplit] at hpair
    apply findAll_of_some
    rw [hpair]
    simp only [List.length_append, List.length_cons, List.length_nil]
    congr 2
    omega
  | @passed before key rest keys hb hk hno h ih =>
    have hpair : quotedKey? ('"' :: (key ++ '"' :: rest)) = none := by
      rw [quotedKey?_pair hk, if_neg]
      rintro ⟨hne, hcolon⟩
      obtain hno | hno := hno
      · exact hne hno
      · rw [hno] at hcolon
        cases hcolon
    rw [Source.quotedKeys, findAll_no_quote hb, findAll_of_none hpair, findAll_no_quote hk]
    exact ih

theorem exists_quotePairs (cs : List Char) : ∃ keys, QuotePairs cs keys := by
  by_cases hcount : cs.count '"' < 2
  · exact ⟨[], .done hcount⟩
  obtain ⟨before, behind, rfl, hb⟩ := List.eq_append_cons_of_mem (List.count_pos_iff.mp (by omega : 0 < cs.count '"'))
  have hbehind : '"' ∈ behind := by
    rw [List.count_append, List.count_cons_self, List.count_eq_zero.mpr hb] at hcount
    apply List.count_pos_iff.mp
    omega
  obtain ⟨key, rest, rfl, hk⟩ := List.eq_append_cons_of_mem hbehind
  by_cases hkeyed : key ≠ [] ∧ colonAhead rest = true
  · obtain ⟨hne, hcolon⟩ := hkeyed
    obtain ⟨blanks, others, hs, rfl⟩ := colonAhead_iff.mp hcolon
    have hshorter : others.length < (before ++ '"' :: (key ++ '"' :: (blanks ++ ':' :: others))).length := by
      simp only [List.length_append, List.length_cons]
      omega
    obtain ⟨keys, hkeys⟩ := exists_quotePairs others
    exact ⟨_, .taken hb hk hne hs hkeys⟩
  · have hshorter : ('"' :: rest).length < (before ++ '"' :: (key ++ '"' :: rest)).length := by
      simp only [List.length_append, List.length_cons]
      omega
    obtain ⟨keys, hkeys⟩ := exists_quotePairs ('"' :: rest)
    refine ⟨keys, .passed hb hk ?_ hkeys⟩
    rwa [not_and_or, not_not, Bool.not_eq_true] at hkeyed
  termination_by cs.length

end Quotes

theorem objectKeys_eq_iff (line : List Char) (keys : List String) :
    objectKeys line = keys ↔ ∃ runs quoted, WordRuns line runs ∧ QuotePairs line quoted ∧
      keys = (runs.filterMap fun r => runKey? r.1 r.2) ++ quoted := by
  constructor
  · rintro rfl
    obtain ⟨runs, hruns⟩ := exists_wordRuns line
    obtain ⟨quoted, hquoted⟩ := exists_quotePairs line
    refine ⟨runs, quoted, hruns, hquoted, ?_⟩
    rw [objectKeys, hruns.bareKeys, hquoted.quotedKeys]
  · rintro ⟨runs, quoted, hruns, hquoted, rfl⟩
    rw [objectKeys, hruns.bareKeys, hquoted.quotedKeys]

-- digits before a name, an empty pair of quotes, and a quote that ends one pair and starts the next
example : objectKeys "12ab : \"\"x\" : y\"z\":".toList = ["ab", "x", "z"] := by decide +kernel

end AbleIndex.Source
