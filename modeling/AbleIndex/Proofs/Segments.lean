import AbleIndex.Proofs.CodeLines
import Mathlib.Data.Nat.Find
import Mathlib.Order.Bounds.Basic

/-!
The meaning of comments without a scanner: a line is divided into segments of code and of comment by the
places where two hash signs count, and what is kept of it are its segments of code.
-/

namespace AbleIndex.Source

def isEscaped (cs : List Char) : Nat → Bool
  | 0 => false
  | i + 1 => cs[i]? = some '\\' && !isEscaped cs i

def isQuote (cs : List Char) (i : Nat) : Bool := cs[i]? = some '"' && !isEscaped cs i

def inString (cs : List Char) (i : Nat) : Bool := (List.range i).countP (isQuote cs) % 2 = 1

def IsMarker (cs : List Char) (i : Nat) : Prop := cs[i]? = some '#' ∧ cs[i + 1]? = some '#'

def IsBareHash (cs : List Char) (i : Nat) : Prop := cs[i]? = some '#' ∧ inString cs i = false

def OpensComment (cs : List Char) (i : Nat) : Prop :=
  IsMarker cs i ∧ inString cs i = false ∧ isEscaped cs i = false

inductive Segment
  | code (text : List Char)
  | comment (text : List Char)
  deriving DecidableEq

namespace Segment

def kept : Segment → List Char
  | code text => text
  | comment _ => []

def isComment : Segment → Bool
  | code _ => false
  | comment _ => true

end Segment

/-- The segments of a line, code and comment in turn, where the first is comment or not. Positions are
counted from the start of a segment. A comment ends at its first two hash signs. Code ends where a comment is
opened; at the first other hash sign outside a string the line itself ends. -/
inductive Divided : Bool → List Char → List Segment → Prop
  | openComment {cs : List Char} (h : ∀ i, ¬ IsMarker cs i) : Divided true cs [.comment cs]
  | comment {cs : List Char} {i : Nat} {segments : List Segment} (hi : IsLeast {j | IsMarker cs j} i)
      (hs : Divided false (cs.drop (i + 2)) segments) : Divided true cs (.comment (cs.take i) :: segments)
  | wholeCode {cs : List Char} (h : ∀ i, ¬ IsBareHash cs i) : Divided false cs [.code cs]
  | endedCode {cs : List Char} {i : Nat} (hi : IsLeast {j | IsBareHash cs j} i) (ho : ¬ OpensComment cs i) :
      Divided false cs [.code (cs.take i)]
  | code {cs : List Char} {i : Nat} {segments : List Segment} (hi : IsLeast {j | IsBareHash cs j} i)
      (ho : OpensComment cs i) (hs : Divided true (cs.drop (i + 2)) segments) :
      Divided false cs (.code (cs.take i) :: segments)

def stripFrom (m : Mode) (cs : List Char) : List Char × Bool :=
  ((cs.foldl Scan.read ⟨m, []⟩).code.reverse, (cs.foldl Mode.next m).inComment)

theorem stripComments_eq (inComment : Bool) (line : List Char) :
    stripComments inComment line = stripFrom (.start inComment) line := by
  unfold stripComments stripFrom
  dsimp only
  rw [foldl_read]

theorem stripFrom_nil (m : Mode) : stripFrom m [] = ([], m.inComment) := rfl

theorem stripFrom_cons_of_keeps {m : Mode} {c : Char} (h : m.keeps c = true) (cs : List Char) :
    stripFrom m (c :: cs) = (c :: (stripFrom (m.next c) cs).1, (stripFrom (m.next c) cs).2) := by
  unfold stripFrom
  rw [List.foldl_cons, Scan.read, foldl_read]
  simp [h]

theorem stripFrom_cons_of_not_keeps {m : Mode} {c : Char} (h : m.keeps c = false) (cs : List Char) :
    stripFrom m (c :: cs) = stripFrom (m.next c) cs := by
  unfold stripFrom
  rw [List.foldl_cons, Scan.read, foldl_read]
  simp [h]

theorem stripFrom_ended (cs : List Char) : stripFrom .ended cs = ([], false) := by
  induction cs with
  | nil => rfl
  | cons c cs ih => exact (stripFrom_cons_of_not_keeps rfl cs).trans ih

section Comment

theorem isMarker_cons_succ {c : Char} {cs : List Char} {i : Nat} : IsMarker (c :: cs) (i + 1) ↔ IsMarker cs i :=
  Iff.rfl

theorem isLeast_of_isLeast_cons {c : Char} {cs : List Char} {i : Nat}
    (h : IsLeast {j | IsMarker (c :: cs) j} (i + 1)) : IsLeast {j | IsMarker cs j} i := by
  refine ⟨isMarker_cons_succ.mp h.1, ?_⟩
  intro j hj
  exact Nat.le_of_succ_le_succ (h.2 (isMarker_cons_succ.mpr hj))

theorem stripFrom_comment_cons {c : Char} {cs : List Char} (h : ¬ IsMarker (c :: cs) 0) :
    stripFrom .comment (c :: cs) = stripFrom .comment cs := by
  rw [stripFrom_cons_of_not_keeps rfl]
  by_cases hc : c = '#'
  · -- a lone hash sign: what follows it takes the scanner back to where it was
    subst hc
    cases cs with
    | nil => rfl
    | cons d cs =>
      have hd : d ≠ '#' := fun hd => h ⟨rfl, congrArg some hd⟩
      rw [stripFrom_cons_of_not_keeps rfl, stripFrom_cons_of_not_keeps rfl]
      simp [Mode.next, hd]
  · simp [Mode.next, hc]

theorem stripFrom_comment_of_no_marker {cs : List Char} (h : ∀ i, ¬ IsMarker cs i) :
    stripFrom .comment cs = ([], true) := by
  induction cs with
  | nil => rfl
  | cons c cs ih =>
    rw [stripFrom_comment_cons (h 0)]
    exact ih fun i => h (i + 1)

theorem stripFrom_comment_of_marker {cs : List Char} {i : Nat} (hi : IsLeast {j | IsMarker cs j} i) :
    stripFrom .comment cs = stripFrom .code (cs.drop (i + 2)) := by
  induction cs generalizing i with
  | nil => cases hi.1.1
  | cons c cs ih =>
    cases i with
    | zero =>
      obtain ⟨hc, hd⟩ := hi.1
      obtain rfl : c = '#' := Option.some.inj hc
      cases cs with
      | nil => cases hd
      | cons d cs =>
        obtain rfl : d = '#' := Option.some.inj hd
        rw [stripFrom_cons_of_not_keeps rfl, stripFrom_cons_of_not_keeps rfl]
        rfl
    | succ i =>
      have hnot : ¬ IsMarker (c :: cs) 0 := fun h => absurd (hi.2 h) (Nat.not_succ_le_zero i)
      rw [stripFrom_comment_cons hnot, ih (isLeast_of_isLeast_cons hi), List.drop_succ_cons]

end Comment

section Code

def modeAt (cs : List Char) (i : Nat) : Mode :=
  match inString cs i, isEscaped cs i with
  | false, false => .code
  | false, true => .escape
  | true, false => .string
  | true, true => .stringEscape

variable {cs : List Char} {c : Char} {i : Nat}

theorem isEscaped_succ (h : cs[i]? = some c) : isEscaped cs (i + 1) = (c = '\\' && !isEscaped cs i) := by
  simp [isEscaped, h]

theorem inString_succ (h : cs[i]? = some c) :
    inString cs (i + 1) = (inString cs i ^^ (c = '"' && !isEscaped cs i)) := by
  have hquote : isQuote cs i = (c = '"' && !isEscaped cs i) := by simp [isQuote, h]
  unfold inString
  rw [List.range_succ, List.countP_append, List.countP_singleton, ← hquote]
  generalize (List.range i).countP (isQuote cs) = n
  cases isQuote cs i with
  | false => simp
  | true =>
    rcases Nat.mod_two_eq_zero_or_one n with hn | hn <;> simp [Nat.add_mod, hn]

theorem keeps_modeAt (h : cs[i]? = some c) (hbare : ¬ IsBareHash cs i) : (modeAt cs i).keeps c = true := by
  unfold modeAt
  cases hs : inString cs i with
  | true => cases isEscaped cs i <;> rfl
  | false =>
    have hc : c ≠ '#' := by
      rintro rfl
      exact hbare ⟨h, hs⟩
    cases isEscaped cs i <;> simpa [Mode.keeps] using hc

theorem next_modeAt (h : cs[i]? = some c) (hbare : ¬ IsBareHash cs i) :
    (modeAt cs i).next c = modeAt cs (i + 1) := by
  unfold modeAt
  rw [isEscaped_succ h, inString_succ h]
  cases hs : inString cs i with
  | true =>
    cases isEscaped cs i with
    | true => simp [Mode.next]
    | false => by_cases hb : c = '\\' <;> by_cases hq : c = '"' <;> simp_all [Mode.next]
  | false =>
    have hc : c ≠ '#' := by
      rintro rfl
      exact hbare ⟨h, hs⟩
    cases isEscaped cs i with
    | true => simp [Mode.next, hc]
    | false => by_cases hb : c = '\\' <;> by_cases hq : c = '"' <;> simp_all [Mode.next]

theorem stripFrom_code_take (hi : i ≤ cs.length) (h : ∀ j < i, ¬ IsBareHash cs j) :
    stripFrom .code cs =
      (cs.take i ++ (stripFrom (modeAt cs i) (cs.drop i)).1, (stripFrom (modeAt cs i) (cs.drop i)).2) := by
  -- the mode at a position stands for what strings and escapes say of it
  induction i with
  | zero => rfl
  | succ i ih =>
    have hlt : i < cs.length := hi
    have hget : cs[i]? = some cs[i] := List.getElem?_eq_getElem hlt
    have hbare : ¬ IsBareHash cs i := h i (Nat.lt_succ_self i)
    rw [ih (Nat.le_of_succ_le hi) fun j hj => h j (Nat.lt_succ_of_lt hj), List.drop_eq_getElem_cons hlt,
      stripFrom_cons_of_keeps (keeps_modeAt hget hbare), next_modeAt hget hbare, List.take_succ_eq_append_getElem hlt,
      List.append_assoc, List.singleton_append]

theorem inComment_modeAt (cs : List Char) (i : Nat) : (modeAt cs i).inComment = false := by
  unfold modeAt
  cases inString cs i <;> cases isEscaped cs i <;> rfl

theorem stripFrom_code_of_no_bareHash (h : ∀ i, ¬ IsBareHash cs i) : stripFrom .code cs = (cs, false) := by
  rw [stripFrom_code_take le_rfl fun j _ => h j, List.drop_length, stripFrom_nil, inComment_modeAt,
    List.take_length, List.append_nil]

theorem IsBareHash.drop_eq (h : IsBareHash cs i) : cs.drop i = '#' :: cs.drop (i + 1) := by
  obtain ⟨hlt, hget⟩ := List.getElem?_eq_some_iff.mp h.1
  rw [List.drop_eq_getElem_cons hlt, hget]

theorem IsBareHash.modeAt_eq (h : IsBareHash cs i) : modeAt cs i = if isEscaped cs i then .escape else .code := by
  unfold modeAt
  rw [h.2]
  cases isEscaped cs i <;> rfl

theorem stripFrom_bareHash (h : IsBareHash cs i) :
    stripFrom (modeAt cs i) (cs.drop i) =
      if cs[i + 1]? = some '#' ∧ isEscaped cs i = false then stripFrom .comment (cs.drop (i + 2)) else ([], false) := by
  rw [h.drop_eq, h.modeAt_eq]
  cases isEscaped cs i with
  | true =>
    rw [if_pos rfl, stripFrom_cons_of_not_keeps rfl]
    simpa [Mode.next] using stripFrom_ended _
  | false =>
    rw [if_neg Bool.false_ne_true, stripFrom_cons_of_not_keeps rfl]
    change stripFrom .hash (cs.drop (i + 1)) = _
    cases hget : cs[i + 1]? with
    | none => simp [List.drop_eq_nil_of_le (List.getElem?_eq_none_iff.mp hget), stripFrom_nil, Mode.inComment]
    | some d =>
      obtain ⟨hlt, hd⟩ := List.getElem?_eq_some_iff.mp hget
      rw [List.drop_eq_getElem_cons hlt, hd, stripFrom_cons_of_not_keeps rfl]
      by_cases hhash : d = '#'
      · simp [Mode.next, hhash]
      · simpa [Mode.next, hhash] using stripFrom_ended _

theorem stripFrom_code_of_bareHash (hi : IsLeast {j | IsBareHash cs j} i) :
    stripFrom .code cs =
      (cs.take i ++ (stripFrom (modeAt cs i) (cs.drop i)).1, (stripFrom (modeAt cs i) (cs.drop i)).2) := by
  obtain ⟨hlt, -⟩ := List.getElem?_eq_some_iff.mp hi.1.1
  apply stripFrom_code_take hlt.le
  intro j hj hbare
  exact absurd (hi.2 hbare) (Nat.not_le_of_lt hj)

end Code

def endsInComment (segments : List Segment) : Bool := segments.getLast?.any Segment.isComment

theorem endsInComment_cons (segment : Segment) {segments : List Segment} (h : segments ≠ []) :
    endsInComment (segment :: segments) = endsInComment segments := by
  rw [endsInComment, endsInComment, List.getLast?_cons_of_ne_nil h]

theorem Divided.ne_nil {inComment : Bool} {line : List Char} {segments : List Segment}
    (h : Divided inComment line segments) : segments ≠ [] := by
  cases h <;> exact List.cons_ne_nil _ _

theorem stripComments_of_divided {inComment : Bool} {line : List Char} {segments : List Segment}
    (h : Divided inComment line segments) :
    stripComments inComment line = (segments.flatMap Segment.kept, endsInComment segments) := by
  rw [stripComments_eq]
  induction h with
  | openComment h => exact stripFrom_comment_of_no_marker h
  | comment hi hs ih =>
    rw [endsInComment_cons _ hs.ne_nil]
    exact (stripFrom_comment_of_marker hi).trans ih
  | @wholeCode cs h =>
    rw [List.flatMap_singleton]
    exact stripFrom_code_of_no_bareHash h
  | @endedCode cs i hi ho =>
    have hends : ¬ (cs[i + 1]? = some '#' ∧ isEscaped cs i = false) := by
      rintro ⟨hnext, hescaped⟩
      exact ho ⟨⟨hi.1.1, hnext⟩, hi.1.2, hescaped⟩
    refine (stripFrom_code_of_bareHash hi).trans ?_
    rw [stripFrom_bareHash hi.1, if_neg hends, List.flatMap_singleton, List.append_nil]
    rfl
  | @code cs i segments hi ho hs ih =>
    refine (stripFrom_code_of_bareHash hi).trans ?_
    rw [stripFrom_bareHash hi.1, if_pos ⟨ho.1.2, ho.2.2⟩, endsInComment_cons _ hs.ne_nil, List.flatMap_cons]
    exact congrArg (fun r : List Char × Bool => (cs.take i ++ r.1, r.2)) ih

theorem exists_isLeast {p : Nat → Prop} (h : ∃ i, p i) : ∃ i, IsLeast {j | p j} i := by
  classical
  exact ⟨Nat.find h, Nat.find_spec h, fun j hj => Nat.find_min' h hj⟩

theorem exists_divided (inComment : Bool) (cs : List Char) : ∃ segments, Divided inComment cs segments := by
  induction hn : cs.length using Nat.strong_induction_on generalizing inComment cs with
  | _ n ih =>
    have hrest {i : Nat} (hi : cs[i]? = some '#') (b : Bool) : ∃ segments, Divided b (cs.drop (i + 2)) segments := by
      obtain ⟨hlt, -⟩ := List.getElem?_eq_some_iff.mp hi
      refine ih _ ?_ b _ rfl
      rw [List.length_drop]
      omega
    cases inComment with
    | true =>
      by_cases h : ∃ i, IsMarker cs i
      · obtain ⟨i, hi⟩ := exists_isLeast h
        obtain ⟨segments, hs⟩ := hrest hi.1.1 false
        exact ⟨_, .comment hi hs⟩
      · exact ⟨_, .openComment (not_exists.mp h)⟩
    | false =>
      by_cases h : ∃ i, IsBareHash cs i
      · obtain ⟨i, hi⟩ := exists_isLeast h
        by_cases ho : OpensComment cs i
        · obtain ⟨segments, hs⟩ := hrest hi.1.1 true
          exact ⟨_, .code hi ho hs⟩
        · exact ⟨_, .endedCode hi ho⟩
      · exact ⟨_, .wholeCode (not_exists.mp h)⟩

theorem Divided.unique {inComment : Bool} {line : List Char} {segments others : List Segment}
    (h : Divided inComment line segments) (ho : Divided inComment line others) : segments = others := by
  induction h generalizing others with
  | openComment h =>
    cases ho with
    | openComment => rfl
    | comment hj => exact absurd hj.1 (h _)
  | comment hi hs ih =>
    cases ho with
    | openComment h => exact absurd hi.1 (h _)
    | comment hj hs' =>
      obtain rfl := hi.unique hj
      rw [ih hs']
  | wholeCode h =>
    cases ho with
    | wholeCode => rfl
    | endedCode hj => exact absurd hj.1 (h _)
    | code hj => exact absurd hj.1 (h _)
  | endedCode hi hend =>
    cases ho with
    | wholeCode h => exact absurd hi.1 (h _)
    | endedCode hj => rw [hi.unique hj]
    | code hj hopen =>
      obtain rfl := hi.unique hj
      exact absurd hopen hend
  | code hi hopen hs ih =>
    cases ho with
    | wholeCode h => exact absurd hi.1 (h _)
    | endedCode hj hend =>
      obtain rfl := hi.unique hj
      exact absurd hopen hend
    | code hj _ hs' =>
      obtain rfl := hi.unique hj
      rw [ih hs']

/-- A line is divided into code and comment in one way. Stripping it keeps the code, tells whether it ends in
a comment, and finds nothing to strip a second time. -/
theorem stripComments_keeps_code (inComment : Bool) (line : List Char) :
    ∃ segments, Divided inComment line segments ∧ (∀ others, Divided inComment line others → others = segments) ∧
      stripComments inComment line = (segments.flatMap Segment.kept, endsInComment segments) ∧
      stripComments false (stripComments inComment line).1 = ((stripComments inComment line).1, false) := by
  obtain ⟨segments, hs⟩ := exists_divided inComment line
  refine ⟨segments, hs, ?_, stripComments_of_divided hs, stripComments_stripComments inComment line⟩
  intro others ho
  exact ho.unique hs

example : stripComments false "a = \"##\" ## x # ## \\## y".toList = ("a = \"##\"  \\".toList, false) := by decide

end AbleIndex.Source
