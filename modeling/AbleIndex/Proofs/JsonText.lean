import AbleIndex.Json.Printer
import AbleIndex.Json.Reader
import Mathlib.Tactic.IntervalCases

namespace AbleIndex.Json

open Source Text

/-- Values without numbers and without the words of JSON: texts, and lists and tables of them. -/
inductive Textual : Json → Prop
  | str (s : String) : Textual (str s)
  | arr {vs : List Json} (h : ∀ v ∈ vs, Textual v) : Textual (arr vs)
  | obj {fs : List (String × Json)} (h : ∀ f ∈ fs, Textual f.2) : Textual (obj fs)

def charUnits (c : Char) : List Nat :=
  if c.toNat < 0x10000 then [c.toNat]
  else [0xD800 + (c.toNat - 0x10000) / 0x400, 0xDC00 + (c.toNat - 0x10000) % 0x400]

theorem toNat_not_surrogate (c : Char) : c.toNat < 0xD800 ∨ 0xDFFF < c.toNat ∧ c.toNat < 0x110000 :=
  c.valid

theorem joinUnits_charUnits (chars : List Char) (c : Char) (us : List Nat) :
    joinUnits chars (charUnits c ++ us) = joinUnits (c :: chars) us := by
  have hc := toNat_not_surrogate c
  unfold charUnits
  split
  · have hs : ¬ (0xD800 ≤ c.toNat ∧ c.toNat ≤ 0xDBFF) := by omega
    have hs' : ¬ (0xDC00 ≤ c.toNat ∧ c.toNat ≤ 0xDFFF) := by omega
    have hs'' : ¬ (0xD800 ≤ c.toNat ∧ c.toNat ≤ 0xDFFF) := by omega
    cases us with
    | nil => simp [joinUnits, hs'', Char.ofNat_toNat]
    | cons u us => simp [joinUnits, hs, hs', Char.ofNat_toNat]
  · rename_i hbig
    have hhigh : 0xD800 + (c.toNat - 0x10000) / 0x400 ≤ 0xDBFF := by omega
    have hlow : 0xDC00 + (c.toNat - 0x10000) % 0x400 ≤ 0xDFFF := by omega
    have hjoin : 0x10000 + (c.toNat - 0x10000) / 0x400 * 0x400 + (c.toNat - 0x10000) % 0x400 =
        c.toNat := by omega
    simp [joinUnits, hhigh, hlow, hjoin, Char.ofNat_toNat]

theorem joinUnits_flatMap (chars cs : List Char) :
    joinUnits chars (cs.flatMap charUnits) = some (chars.reverse ++ cs) := by
  induction cs generalizing chars with
  | nil => simp [joinUnits]
  | cons c cs ih => rw [List.flatMap_cons, joinUnits_charUnits, ih]; simp

theorem hexDigits_succ (width n : Nat) :
    hexDigits (width + 2) n = hexDigits (width + 1) (n / 16) ++ [Nat.digitChar (n % 16)] := by
  unfold hexDigits Decimal.padded
  rcases Nat.lt_or_ge n 16 with h | h
  · rw [Nat.toDigits_of_lt_base h, Nat.div_eq_of_lt h, Nat.mod_eq_of_lt h]
    simp [List.replicate_succ', Nat.toDigits_of_lt_base, Nat.digitChar]
  · rw [Nat.toDigits_of_base_le (by omega) h]
    simp

theorem hexDigits_four {n : Nat} (h : n < 0x10000) :
    hexDigits 4 n = [Nat.digitChar (n / 16 / 16 / 16), Nat.digitChar (n / 16 / 16 % 16),
      Nat.digitChar (n / 16 % 16), Nat.digitChar (n % 16)] := by
  have hlast : hexDigits 1 (n / 16 / 16 / 16) = [Nat.digitChar (n / 16 / 16 / 16)] := by
    unfold hexDigits Decimal.padded
    rw [Nat.toDigits_of_lt_base (by omega)]
    rfl
  rw [hexDigits_succ, hexDigits_succ, hexDigits_succ, hlast]
  rfl

theorem hexValue?_digitChar {k : Nat} (h : k < 16) : hexValue? (Nat.digitChar k) = some k := by
  interval_cases k <;> rfl

theorem readUnits_unitEscape {n : Nat} (h : n < 0x10000) (us : List Nat) (cs : List Char) :
    readUnits us (unitEscape n ++ cs) = readUnits (n :: us) cs := by
  have hn : ((n / 16 / 16 / 16 * 16 + n / 16 / 16 % 16) * 16 + n / 16 % 16) * 16 + n % 16 = n := by
    omega
  rw [unitEscape, hexDigits_four h]
  simp only [List.cons_append, List.nil_append, readUnits, hexUnit?]
  rw [hexValue?_digitChar (by omega), hexValue?_digitChar (by omega),
    hexValue?_digitChar (by omega), hexValue?_digitChar (by omega)]
  simp [hn]

theorem readUnits_cons {c : Char} (hquote : c ≠ '"') (hslash : c ≠ '\\') (hc : 0x20 ≤ c.toNat)
    (us : List Nat) (cs : List Char) : readUnits us (c :: cs) = readUnits (c.toNat :: us) cs := by
  rw [readUnits.eq_def]
  split
  · contradiction
  · simp_all
  · simp_all
  · simp_all
  · rename_i h
    obtain ⟨rfl, rfl⟩ := List.cons.inj h
    rw [if_neg (by omega)]

theorem escapeChar_cases (c : Char) :
    (∃ e, escapeChar c = ['\\', e] ∧ escaped? e = some c.toNat ∧ e ≠ 'u' ∧ e.toNat < 0x80) ∧ c.toNat < 0x10000 ∨
      escapeChar c = unitEscape c.toNat ∧ c.toNat < 0x10000 ∨
      escapeChar c = [c] ∧ c ≠ '"' ∧ c ≠ '\\' ∧ 0x20 ≤ c.toNat ∧ c.toNat < 0x7f ∨
      escapeChar c = unitEscape (0xD800 + (c.toNat - 0x10000) / 0x400) ++
        unitEscape (0xDC00 + (c.toNat - 0x10000) % 0x400) ∧ 0x10000 ≤ c.toNat := by
  unfold escapeChar
  by_cases hquote : c = '"'
  · subst hquote
    exact .inl ⟨⟨'"', by decide⟩, by decide⟩
  by_cases hslash : c = '\\'
  · subst hslash
    exact .inl ⟨⟨'\\', by decide⟩, by decide⟩
  by_cases hn : c = '\n'
  · subst hn
    exact .inl ⟨⟨'n', by decide⟩, by decide⟩
  by_cases hr : c = '\r'
  · subst hr
    exact .inl ⟨⟨'r', by decide⟩, by decide⟩
  by_cases ht : c = '\t'
  · subst ht
    exact .inl ⟨⟨'t', by decide⟩, by decide⟩
  by_cases hb : c = '\x08'
  · subst hb
    exact .inl ⟨⟨'b', by decide⟩, by decide⟩
  by_cases hf : c = '\x0c'
  · subst hf
    exact .inl ⟨⟨'f', by decide⟩, by decide⟩
  rw [if_neg hquote, if_neg hslash, if_neg hn, if_neg hr, if_neg ht, if_neg hb, if_neg hf]
  right
  by_cases hlow : c.toNat < 0x20
  · rw [if_pos hlow]
    exact .inl ⟨rfl, by omega⟩
  by_cases hplain : c.toNat < 0x7f
  · rw [if_neg hlow, if_pos hplain]
    exact .inr (.inl ⟨rfl, hquote, hslash, by omega, hplain⟩)
  rw [if_neg hlow, if_neg hplain]
  by_cases hbmp : c.toNat < 0x10000
  · rw [if_pos hbmp]
    exact .inl ⟨rfl, hbmp⟩
  · rw [if_neg hbmp]
    exact .inr (.inr ⟨rfl, by omega⟩)

theorem readUnits_escapeChar (us : List Nat) (c : Char) (cs : List Char) :
    readUnits us (escapeChar c ++ cs) = readUnits ((charUnits c).reverse ++ us) cs := by
  have hc := toNat_not_surrogate c
  have hsingle (h : c.toNat < 0x10000) : readUnits ((charUnits c).reverse ++ us) cs = readUnits (c.toNat :: us) cs := by
    rw [charUnits, if_pos h]
    rfl
  rcases escapeChar_cases c with ⟨⟨e, he, hcode, hu, -⟩, h⟩ | ⟨he, h⟩ | ⟨he, hquote, hslash, hlow, h⟩ | ⟨he, h⟩
  · rw [he, hsingle h]
    simp [readUnits, hcode, hu]
  · rw [he, hsingle h, readUnits_unitEscape h]
  · rw [he, List.singleton_append, hsingle (by omega), readUnits_cons hquote hslash hlow]
  · rw [he, List.append_assoc, readUnits_unitEscape (by omega), readUnits_unitEscape (by omega), charUnits,
      if_neg (by omega)]
    rfl

theorem readUnits_flatMap (us : List Nat) (cs rest : List Char) :
    readUnits us (cs.flatMap escapeChar ++ '"' :: rest) =
      some (us.reverse ++ cs.flatMap charUnits, rest) := by
  induction cs generalizing us with
  | nil => simp [readUnits]
  | cons c cs ih => rw [List.flatMap_cons, List.append_assoc, readUnits_escapeChar, ih]; simp

theorem readString_quote (s : String) (rest : List Char) :
    readString (s.toList.flatMap escapeChar ++ '"' :: rest) = some (s, rest) := by
  simp [readString, readUnits_flatMap, joinUnits_flatMap]

theorem skipSpace_newLine (depth : Nat) (cs : List Char) :
    skipSpace (newLine depth ++ cs) = skipSpace cs := by
  have hspaces (k : Nat) : skipSpace (List.replicate k ' ' ++ cs) = skipSpace cs := by
    induction k with
    | zero => rfl
    | succ k ih => exact ih
  exact hspaces _

theorem readValue_newLine (n depth : Nat) (cs : List Char) :
    readValue n (newLine depth ++ cs) = readValue n cs := by
  cases n with
  | zero => rfl
  | succ n => rw [readValue, readValue, skipSpace_newLine]

theorem Textual.print_eq_cons {v : Json} (h : Textual v) (depth : Nat) :
    ∃ c cs, print depth v = c :: cs ∧ (c = '"' ∨ c = '[' ∨ c = '\x7b') := by
  cases h with
  | str s => exact ⟨_, _, rfl, .inl rfl⟩
  | @arr vs _ =>
    cases vs with
    | nil => exact ⟨_, _, rfl, .inr (.inl rfl)⟩
    | cons v vs => exact ⟨_, _, rfl, .inr (.inl rfl)⟩
  | @obj fs _ =>
    cases fs with
    | nil => exact ⟨_, _, rfl, .inr (.inr rfl)⟩
    | cons f fs => exact ⟨_, _, rfl, .inr (.inr rfl)⟩

/-- Every reading with enough steps gives the value back, wherever its text stands. -/
def Reads (v : Json) : Prop :=
  ∀ depth n rest, (print depth v).length ≤ n → readValue n (print depth v ++ rest) = some (v, rest)

theorem reads_str (s : String) : Reads (str s) := by
  intro depth n rest hn
  cases n with
  | zero => simp [print, quote] at hn
  | succ n =>
    have hskip : skipSpace (quote s ++ rest) = '"' :: (s.toList.flatMap escapeChar ++ '"' :: rest) := by
      simp [quote, skipSpace, isSpace]
    rw [print, readValue, hskip]
    simp only [readString_quote, Option.map_some]

theorem readItems_printItems {vs : List Json} (h : ∀ v ∈ vs, Reads v) (depth depth' n : Nat)
    (rest : List Char) (hn : (printItems depth vs).length < n) :
    readItems n (printItems depth vs ++ (newLine depth' ++ ']' :: rest)) = some (vs, rest) := by
  induction vs generalizing n with
  | nil =>
    cases n with
    | zero => simp at hn
    | succ n =>
      rw [printItems, List.nil_append, readItems, skipSpace_newLine]
      rfl
  | cons v vs ih =>
    cases n with
    | zero => simp at hn
    | succ n =>
      simp only [printItems, List.cons_append, List.length_cons, List.length_append] at hn
      have hv := h v List.mem_cons_self depth n
        (printItems depth vs ++ (newLine depth' ++ ']' :: rest)) (by omega)
      have hvs := ih (fun w hw => h w (List.mem_cons_of_mem v hw)) n (by omega)
      have hskip (cs : List Char) : skipSpace (',' :: cs) = ',' :: cs := rfl
      simp only [printItems, List.cons_append, List.append_assoc, readItems, hskip,
        readValue_newLine, hv, hvs, Option.bind_eq_bind, Option.bind_some, Option.pure_def]

theorem skipSpace_quote (k : String) (cs : List Char) : skipSpace (quote k ++ cs) = quote k ++ cs :=
  rfl

theorem readField_print {v : Json} (h : Reads v) {k : String} {cs rest : List Char}
    {depth n : Nat} (hn : (print depth v).length < n)
    (hcs : skipSpace cs = quote k ++ ':' :: ' ' :: (print depth v ++ rest)) :
    readField n cs = some ((k, v), rest) := by
  cases n with
  | zero => simp at hn
  | succ n =>
    have hv := h depth n rest (by omega)
    have hspace : readValue n (' ' :: (print depth v ++ rest)) =
        readValue n (print depth v ++ rest) := by
      cases n <;> rfl
    have hcolon (cs : List Char) : skipSpace (':' :: cs) = ':' :: cs := rfl
    have hafter (c : Char) (cs : List Char) : after? [c] (c :: cs) = some cs := by simp [after?]
    simp only [readField, hcs, quote, List.cons_append, List.append_assoc, List.nil_append, hafter,
      readString_quote, hcolon, hspace, hv, Option.bind_eq_bind, Option.bind_some, Option.pure_def]

theorem readFields_printFields {fs : List (String × Json)} (h : ∀ f ∈ fs, Reads f.2)
    (depth depth' n : Nat) (rest : List Char) (hn : (printFields depth fs).length < n) :
    readFields n (printFields depth fs ++ (newLine depth' ++ '\x7d' :: rest)) =
      some (fs, rest) := by
  induction fs generalizing n with
  | nil =>
    cases n with
    | zero => simp at hn
    | succ n =>
      rw [printFields, List.nil_append, readFields, skipSpace_newLine]
      rfl
  | cons f fs ih =>
    obtain ⟨k, v⟩ := f
    cases n with
    | zero => simp at hn
    | succ n =>
      simp only [printFields, List.cons_append, List.length_cons, List.length_append] at hn
      have hv : Reads v := h (k, v) List.mem_cons_self
      have hf := readField_print (k := k) (n := n) hv (by omega) ((skipSpace_newLine depth _).trans
        (skipSpace_quote k (':' :: ' ' :: (print depth v ++
          (printFields depth fs ++ (newLine depth' ++ '\x7d' :: rest))))))
      have hfs := ih (fun g hg => h g (List.mem_cons_of_mem (k, v) hg)) n (by omega)
      have hskip (cs : List Char) : skipSpace (',' :: cs) = ',' :: cs := rfl
      simp only [printFields, List.cons_append, List.nil_append, List.append_assoc, readFields,
        hskip, hf, hfs, Option.bind_eq_bind, Option.bind_some, Option.pure_def]

theorem readValue_bracket {n : Nat} {c : Char} {cs rest : List Char}
    (h : skipSpace cs = c :: rest) (hc : c ≠ ']') :
    readValue (n + 1) ('[' :: cs) = (do
      let (v, rest) ← readValue n (c :: rest)
      let (vs, rest) ← readItems n rest
      return (arr (v :: vs), rest)) := by
  have hskip : skipSpace ('[' :: cs) = '[' :: cs := rfl
  rw [readValue, hskip]
  simp only [h]
  split
  · simp_all
  · rfl

theorem readValue_brace {n : Nat} {c : Char} {cs rest : List Char}
    (h : skipSpace cs = c :: rest) (hc : c ≠ '\x7d') :
    readValue (n + 1) ('\x7b' :: cs) = (do
      let (f, rest) ← readField n (c :: rest)
      let (fs, rest) ← readFields n rest
      return (obj (f :: fs), rest)) := by
  have hskip : skipSpace ('\x7b' :: cs) = '\x7b' :: cs := rfl
  rw [readValue, hskip]
  simp only [h]
  split
  · simp_all
  · rfl

theorem reads_arr {vs : List Json} (ht : ∀ v ∈ vs, Textual v) (h : ∀ v ∈ vs, Reads v) :
    Reads (arr vs) := by
  intro depth n rest hn
  cases n with
  | zero => cases vs <;> simp [print] at hn
  | succ n =>
    cases vs with
    | nil => rfl
    | cons v vs =>
      simp only [print, List.cons_append, List.length_cons, List.length_append] at hn
      have hv := h v List.mem_cons_self (depth + 1) n
        (printItems (depth + 1) vs ++ (newLine depth ++ ']' :: rest)) (by omega)
      have hvs := readItems_printItems (fun w hw => h w (List.mem_cons_of_mem v hw))
        (depth + 1) depth n rest (by omega)
      obtain ⟨c, cs, hp, hc⟩ := (ht v List.mem_cons_self).print_eq_cons (depth + 1)
      have hskip (rest : List Char) : skipSpace (newLine (depth + 1) ++ (c :: (cs ++ rest))) =
          c :: (cs ++ rest) := by
        rw [skipSpace_newLine]
        rcases hc with rfl | rfl | rfl <;> rfl
      have hclose : c ≠ ']' := by
        rcases hc with rfl | rfl | rfl <;> decide
      simp only [hp, List.cons_append] at hv
      simp only [print, List.cons_append, List.append_assoc, List.nil_append, hp,
        readValue_bracket (hskip _) hclose, hv, hvs, Option.bind_eq_bind, Option.bind_some,
        Option.pure_def]

theorem reads_obj {fs : List (String × Json)} (h : ∀ f ∈ fs, Reads f.2) : Reads (obj fs) := by
  intro depth n rest hn
  cases n with
  | zero =>
    cases fs with
    | nil => simp [print] at hn
    | cons f fs => simp [print] at hn
  | succ n =>
    cases fs with
    | nil => rfl
    | cons f fs =>
      obtain ⟨k, v⟩ := f
      simp only [print, List.cons_append, List.length_cons, List.length_append] at hn
      have hv : Reads v := h (k, v) List.mem_cons_self
      have hf := readField_print (k := k) (n := n) hv (by omega)
        (skipSpace_quote k (':' :: ' ' :: (print (depth + 1) v ++
          (printFields (depth + 1) fs ++ (newLine depth ++ '\x7d' :: rest)))))
      have hfs := readFields_printFields (fun g hg => h g (List.mem_cons_of_mem (k, v) hg))
        (depth + 1) depth n rest (by omega)
      have hskip (cs : List Char) :
          skipSpace (newLine (depth + 1) ++ '"' :: cs) = '"' :: cs :=
        skipSpace_newLine (depth + 1) _
      simp only [quote, List.cons_append, List.append_assoc, List.nil_append] at hf
      simp only [print, quote, List.cons_append, List.append_assoc, List.nil_append,
        readValue_brace (hskip _) (by decide : '"' ≠ '\x7d'), hf, hfs, Option.bind_eq_bind,
        Option.bind_some, Option.pure_def]

theorem Textual.reads {v : Json} (h : Textual v) : Reads v := by
  induction h with
  | str s => exact reads_str s
  | arr h ih => exact reads_arr h ih
  | obj h ih => exact reads_obj ih

theorem Textual.ofText?_text {v : Json} (h : Textual v) : ofText? v.text = some v := by
  have hread := h.reads 0 ((print 0 v).length + 1) [] (by omega)
  rw [List.append_nil] at hread
  simp [ofText?, text, hread, skipSpace]

def IsAscii (cs : List Char) : Prop := ∀ c ∈ cs, c.toNat < 0x80

theorem isAscii_append {cs ds : List Char} : IsAscii (cs ++ ds) ↔ IsAscii cs ∧ IsAscii ds :=
  List.forall_mem_append

theorem isAscii_cons {c : Char} {cs : List Char} : IsAscii (c :: cs) ↔ c.toNat < 0x80 ∧ IsAscii cs :=
  List.forall_mem_cons

theorem isAscii_nil : IsAscii [] := by
  rintro c ⟨⟩

theorem isAscii_unitEscape {n : Nat} (h : n < 0x10000) : IsAscii (unitEscape n) := by
  have hdigit {k : Nat} (hk : k < 16) : (Nat.digitChar k).toNat < 0x80 := by
    interval_cases k <;> decide
  rw [unitEscape, hexDigits_four h]
  simp only [isAscii_cons]
  exact ⟨by decide, by decide, hdigit (by omega), hdigit (by omega), hdigit (by omega),
    hdigit (by omega), isAscii_nil⟩

theorem isAscii_escapeChar (c : Char) : IsAscii (escapeChar c) := by
  have hc := toNat_not_surrogate c
  rcases escapeChar_cases c with ⟨⟨e, he, -, -, hlow⟩, -⟩ | ⟨he, h⟩ | ⟨he, -, -, -, h⟩ | ⟨he, h⟩
  · rw [he]
    exact isAscii_cons.2 ⟨by decide, isAscii_cons.2 ⟨hlow, isAscii_nil⟩⟩
  · rw [he]
    exact isAscii_unitEscape h
  · rw [he]
    exact isAscii_cons.2 ⟨by omega, isAscii_nil⟩
  · rw [he]
    exact isAscii_append.2 ⟨isAscii_unitEscape (by omega), isAscii_unitEscape (by omega)⟩

theorem isAscii_quote (s : String) : IsAscii (quote s) := by
  have hbody : IsAscii (s.toList.flatMap escapeChar) := by
    intro c hc
    obtain ⟨d, -, hd⟩ := List.mem_flatMap.1 hc
    exact isAscii_escapeChar d c hd
  rw [quote, isAscii_append, isAscii_cons, isAscii_cons]
  exact ⟨⟨by decide, hbody⟩, by decide, isAscii_nil⟩

theorem isAscii_newLine (depth : Nat) : IsAscii (newLine depth) := by
  refine isAscii_cons.2 ⟨by decide, fun c hc => ?_⟩
  rw [List.eq_of_mem_replicate hc]
  decide

theorem isAscii_printItems {vs : List Json} (depth : Nat)
    (h : ∀ v ∈ vs, IsAscii (print depth v)) : IsAscii (printItems depth vs) := by
  induction vs with
  | nil => exact isAscii_nil
  | cons v vs ih =>
    have hvs := ih fun w hw => h w (List.mem_cons_of_mem v hw)
    simp only [printItems, isAscii_cons, isAscii_append, List.cons_append]
    exact ⟨by decide, ⟨isAscii_newLine depth, h v List.mem_cons_self⟩, hvs⟩

theorem isAscii_printFields {fs : List (String × Json)} (depth : Nat)
    (h : ∀ f ∈ fs, IsAscii (print depth f.2)) : IsAscii (printFields depth fs) := by
  induction fs with
  | nil => exact isAscii_nil
  | cons f fs ih =>
    obtain ⟨k, v⟩ := f
    have hfs := ih fun g hg => h g (List.mem_cons_of_mem (k, v) hg)
    have hv : IsAscii (print depth v) := h (k, v) List.mem_cons_self
    simp only [printFields, isAscii_cons, isAscii_append, List.cons_append]
    exact ⟨by decide, ⟨⟨⟨isAscii_newLine depth, isAscii_quote k⟩, by decide, by decide, isAscii_nil⟩,
      hv⟩, hfs⟩

theorem isAscii_arr {vs : List Json} (h : ∀ v ∈ vs, ∀ depth, IsAscii (print depth v)) (depth : Nat) :
    IsAscii (print depth (arr vs)) := by
  cases vs with
  | nil => rw [print]; simp [IsAscii]
  | cons v vs =>
    have hv := h v List.mem_cons_self (depth + 1)
    have hvs := isAscii_printItems (depth + 1) fun w hw => h w (List.mem_cons_of_mem v hw) (depth + 1)
    have hline := isAscii_newLine
    simp only [print, isAscii_cons, isAscii_append, List.cons_append]
    exact ⟨by decide, ⟨⟨⟨hline _, hv⟩, hvs⟩, hline _⟩, by decide, isAscii_nil⟩

theorem isAscii_obj {fs : List (String × Json)} (h : ∀ f ∈ fs, ∀ depth, IsAscii (print depth f.2)) (depth : Nat) :
    IsAscii (print depth (obj fs)) := by
  cases fs with
  | nil => rw [print]; simp [IsAscii]
  | cons f fs =>
    obtain ⟨k, v⟩ := f
    have hv : IsAscii (print (depth + 1) v) := h (k, v) List.mem_cons_self (depth + 1)
    have hfs := isAscii_printFields (depth + 1) fun g hg => h g (List.mem_cons_of_mem (k, v) hg) (depth + 1)
    have hline := isAscii_newLine
    simp only [print, isAscii_cons, isAscii_append, List.cons_append]
    exact ⟨by decide, ⟨⟨⟨⟨⟨hline _, isAscii_quote k⟩, by decide, by decide, isAscii_nil⟩, hv⟩, hfs⟩,
      hline _⟩, by decide, isAscii_nil⟩

theorem isAscii_int (n : Int) (depth : Nat) : IsAscii (print depth (int n)) := by
  have hdigits : IsAscii (Decimal.digits n.natAbs) := by
    intro c hc
    have hdigit := Nat.isDigit_of_mem_toDigits (by decide) (by decide) hc
    simp only [Char.isDigit, Bool.and_eq_true, decide_eq_true_eq] at hdigit
    exact lt_of_le_of_lt (UInt32.le_iff_toNat_le.mp hdigit.2) (by decide)
  rw [print, Decimal.whole, Decimal.signed, String.toList_ofList]
  split
  · exact isAscii_cons.2 ⟨by decide, hdigits⟩
  · exact hdigits

theorem Textual.isAscii_print {v : Json} (h : Textual v) (depth : Nat) :
    IsAscii (print depth v) := by
  induction h generalizing depth with
  | str s => exact isAscii_quote s
  | arr _ ih => exact isAscii_arr ih depth
  | obj _ ih => exact isAscii_obj ih depth

end AbleIndex.Json
