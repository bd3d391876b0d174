import AbleIndex.Text.Lines

namespace AbleIndex

inductive Anchor
  | relative
  | slash
  | doubleSlash
  deriving DecidableEq, Inhabited

def Anchor.text : Anchor → String
  | relative => ""
  | slash => "/"
  | doubleSlash => "//"

structure Path where
  anchor : Anchor
  parts : List String
  deriving DecidableEq, Inhabited

namespace Path

def segments (s : String) : List String := (Text.pieces '/' s.toList).map String.ofList

/-- One leading slash makes a path absolute, exactly two are kept apart, and more count as one. -/
def anchorOf (s : String) : Anchor :=
  match s.toList with
  | '/' :: '/' :: '/' :: _ => .slash
  | '/' :: '/' :: _ => .doubleSlash
  | '/' :: _ => .slash
  | _ => .relative

def isStep (segment : String) : Bool := segment ≠ "" && segment ≠ "."

def ofString (s : String) : Path := ⟨anchorOf s, (segments s).filter isStep⟩

def text (p : Path) : String :=
  match p with
  | ⟨.relative, []⟩ => "."
  | ⟨a, parts⟩ => a.text ++ "/".intercalate parts

def isAbsolute (s : String) : Bool := s.toList.head? = some '/'

def isUsable (s : String) : Bool := !s.toList.contains '\x00'

def climb (parts : List String) (part : String) : List String :=
  if part = ".." then parts.dropLast else parts ++ [part]

/-- The absolute path a text stands for, with double dots taken out of the text and no look at the
disk. A relative text goes on from `cwd`. -/
def absolute (cwd : Path) (s : String) : Path :=
  let p := ofString s
  match p.anchor with
  | .relative => ⟨cwd.anchor, p.parts.foldl climb cwd.parts⟩
  | a => ⟨a, p.parts.foldl climb []⟩

def IsComponent (part : String) : Prop := isStep part = true ∧ '/' ∉ part.toList

def IsProper (p : Path) : Prop := ∀ part ∈ p.parts, IsComponent part

structure IsResolved (p : Path) : Prop where
  absolute : p.anchor ≠ .relative
  proper : p.IsProper
  climbed : ".." ∉ p.parts

instance (part : String) : Decidable (IsComponent part) := inferInstanceAs (Decidable (_ ∧ _))

instance (p : Path) : Decidable p.IsProper := inferInstanceAs (Decidable (∀ part ∈ p.parts, IsComponent part))

instance (p : Path) : Decidable p.IsResolved :=
  decidable_of_iff (p.anchor ≠ .relative ∧ p.IsProper ∧ ".." ∉ p.parts)
    ⟨fun h => ⟨h.1, h.2.1, h.2.2⟩, fun h => ⟨h.absolute, h.proper, h.climbed⟩⟩

theorem isProper_ofString (s : String) : (ofString s).IsProper := by
  intro part hp
  obtain ⟨hs, hstep⟩ := List.mem_filter.mp hp
  obtain ⟨cs, hcs, rfl⟩ := List.mem_map.mp hs
  exact ⟨hstep, by simpa using Text.not_mem_of_mem_pieces hcs⟩

theorem mem_foldl_climb {parts base : List String} {part : String} (h : part ∈ parts.foldl climb base) :
    part ∈ base ∨ (part ∈ parts ∧ part ≠ "..") := by
  induction parts generalizing base with
  | nil => exact .inl h
  | cons q qs ih =>
    rcases ih h with hb | ⟨hq, hne⟩
    · unfold climb at hb
      split at hb
      · exact .inl (List.dropLast_subset base hb)
      · rename_i hq
        rcases List.mem_append.mp hb with hb | hb
        · exact .inl hb
        · rw [List.mem_singleton] at hb
          exact .inr ⟨by simp [hb], by rwa [hb]⟩
    · exact .inr ⟨List.mem_cons_of_mem q hq, hne⟩

theorem isResolved_foldl_climb {a : Anchor} {base parts : List String} (ha : a ≠ .relative)
    (hbase : IsProper ⟨a, base⟩) (hdots : ".." ∉ base) (hparts : ∀ part ∈ parts, IsComponent part) :
    IsResolved ⟨a, parts.foldl climb base⟩ where
  absolute := ha
  proper part hp := by
    rcases mem_foldl_climb hp with hb | ⟨hq, -⟩
    · exact hbase part hb
    · exact hparts part hq
  climbed hp := by
    rcases mem_foldl_climb hp with hb | ⟨-, hne⟩
    · exact hdots hb
    · exact hne rfl

theorem isResolved_absolute {cwd : Path} (h : cwd.IsResolved) (s : String) : (absolute cwd s).IsResolved := by
  unfold absolute
  dsimp only
  split
  · exact isResolved_foldl_climb h.absolute h.proper h.climbed (isProper_ofString s)
  · rename_i hrel
    exact isResolved_foldl_climb hrel (by simp [IsProper]) List.not_mem_nil (isProper_ofString s)

def join (base s : String) : String :=
  if isAbsolute s then s
  else if base = "" ∨ base.toList.getLast? = some '/' then base ++ s
  else base ++ "/" ++ s

def below? (p root : Path) : Option (List String) :=
  if p.anchor = root.anchor ∧ root.parts.isPrefixOf p.parts then some (p.parts.drop root.parts.length)
  else none

def append (p : Path) (parts : List String) : Path := ⟨p.anchor, p.parts ++ parts⟩

def parent (p : Path) : Path := ⟨p.anchor, p.parts.dropLast⟩

end Path

end AbleIndex
