/-!
# Bytes — a program file, and the numbers written in it

An `Image` is the bytes of a file.  Numbers stand in it in either byte order (`Image.word`).  A reader first asks whether a
range lies in the image and starts where its entries may start (`Image.holds`), then reads; a byte past the end reads as 0,
so that reading never fails.
-/
namespace DelayProbe

abbrev Image := Array UInt8

inductive ByteOrder where
  | little
  | big
  deriving DecidableEq, Repr

namespace ByteOrder

/-- The number whose bytes these are, the least significant first. -/
def littleValue : List UInt8 → Nat
  | [] => 0
  | b :: r => b.toNat + 256 * littleValue r

def value : ByteOrder → List UInt8 → Nat
  | .little, bs => littleValue bs
  | .big, bs => littleValue bs.reverse

/-- How an image names its byte order. -/
def ofCode? (b : UInt8) : Option ByteOrder := if b = 1 then some .little else if b = 2 then some .big else none

end ByteOrder

namespace Image

def byte (im : Image) (i : Nat) : UInt8 := im[i]?.getD 0

def word (im : Image) (order : ByteOrder) (pos width : Nat) : Nat :=
  order.value ((List.range width).map fun i => im.byte (pos + i))

/-- The `length` bytes from `start` on lie in the image, and `start` is a multiple of `align`. -/
def holds (im : Image) (start length align : Nat) : Bool :=
  decide (start + length ≤ im.size) && decide (start % align = 0)

/-- The bytes before the first zero byte among the next `n` bytes; `none` if there is no zero among them. -/
def untilZero (im : Image) : Nat → Nat → Option (List UInt8)
  | 0, _ => none
  | n + 1, pos => if im.byte pos = 0 then some [] else (im.untilZero n (pos + 1)).map (im.byte pos :: ·)

end Image

/-- A table of strings, each ended by a zero byte: where it starts and stops, or nothing at all. -/
structure Strings where
  range : Option (Nat × Nat) := none
  deriving DecidableEq, Repr

/-- The string at an offset.  The table must reach that far and lie in the image, and the string must end in it. -/
def Strings.get? (s : Strings) (im : Image) (offset : Nat) : Option (List UInt8) :=
  s.range.bind fun (start, stop) =>
    if start + offset ≤ stop ∧ stop ≤ im.size then im.untilZero (stop - (start + offset)) (start + offset) else none

end DelayProbe
