import DelayProbe.Text
/-!
# Utf8 — reading bytes that may not be UTF-8

`Utf8.decode` never fails: the longest start of a character that cannot go on becomes one replacement character, and
reading starts afresh at the byte that did not fit.
-/
namespace DelayProbe
namespace Utf8

def replacement : Char := '\uFFFD'

/-- A character begun: the bytes still owed, the range of the next one, and the bits so far. -/
structure Begun where
  owed : Nat
  low : UInt8
  high : UInt8
  bits : Nat
  deriving DecidableEq, Repr

/-- The first byte of a character: what it yields at once, and what it leaves begun. -/
def lead (b : UInt8) : Text × Option Begun :=
  let n := b.toNat
  if n < 0x80 then ([Char.ofNat n], none)
  else if n < 0xC2 then ([replacement], none)
  else if n < 0xE0 then ([], some ⟨1, 0x80, 0xBF, n - 0xC0⟩)
  else if n < 0xF0 then
    ([], some ⟨2, if n = 0xE0 then 0xA0 else 0x80, if n = 0xED then 0x9F else 0xBF, n - 0xE0⟩)
  else if n < 0xF5 then
    ([], some ⟨3, if n = 0xF0 then 0x90 else 0x80, if n = 0xF4 then 0x8F else 0xBF, n - 0xF0⟩)
  else ([replacement], none)

/-- The bytes after what has begun. -/
def decodeFrom : Option Begun → List UInt8 → Text
  | none, [] => []
  | some _, [] => [replacement]
  | none, b :: r => (lead b).1 ++ decodeFrom (lead b).2 r
  | some p, b :: r =>
    if p.low ≤ b ∧ b ≤ p.high then
      let bits := 64 * p.bits + (b.toNat - 0x80)
      if p.owed = 1 then Char.ofNat bits :: decodeFrom none r
      else decodeFrom (some ⟨p.owed - 1, 0x80, 0xBF, bits⟩) r
    else replacement :: ((lead b).1 ++ decodeFrom (lead b).2 r)

def decode (bs : List UInt8) : Text := decodeFrom none bs

end Utf8
end DelayProbe
