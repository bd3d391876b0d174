/-!
Reading bytes as UTF-8 without ever failing: each longest start of a character that does not go on
gives one replacement character.
-/

namespace AbleIndex.Text

structure Unfinished where
  missing : Nat
  value : Nat
  low : Nat := 0x80
  high : Nat := 0xBF
  deriving DecidableEq

def replacement : Char := Char.ofNat 0xFFFD

def startByte (b : Nat) : List Char × Option Unfinished :=
  if b < 0x80 then ([Char.ofNat b], none)
  else if 0xC2 ≤ b ∧ b ≤ 0xDF then ([], some ⟨1, b - 0xC0, 0x80, 0xBF⟩)
  else if b = 0xE0 then ([], some ⟨2, 0, 0xA0, 0xBF⟩)
  else if b = 0xED then ([], some ⟨2, 0xD, 0x80, 0x9F⟩)
  else if 0xE1 ≤ b ∧ b ≤ 0xEF then ([], some ⟨2, b - 0xE0, 0x80, 0xBF⟩)
  else if b = 0xF0 then ([], some ⟨3, 0, 0x90, 0xBF⟩)
  else if 0xF1 ≤ b ∧ b ≤ 0xF3 then ([], some ⟨3, b - 0xF0, 0x80, 0xBF⟩)
  else if b = 0xF4 then ([], some ⟨3, 4, 0x80, 0x8F⟩)
  else ([replacement], none)

def nextByte : Option Unfinished → Nat → List Char × Option Unfinished
  | none, b => startByte b
  | some p, b =>
    if p.low ≤ b ∧ b ≤ p.high then
      let value := p.value * 64 + (b - 0x80)
      if p.missing = 1 then ([Char.ofNat value], none)
      else ([], some ⟨p.missing - 1, value, 0x80, 0xBF⟩)
    else
      let r := startByte b
      (replacement :: r.1, r.2)

def decodeFrom : Option Unfinished → List Nat → List Char
  | none, [] => []
  | some _, [] => [replacement]
  | p, b :: bs =>
    let r := nextByte p b
    r.1 ++ decodeFrom r.2 bs

def decodeLossy (bytes : List Nat) : List Char := decodeFrom none bytes

end AbleIndex.Text
