import DelayProbe.Image.Bytes
/-!
# Header — the file header and the two tables it points to

The header gives, for the section table and the segment table each, a position, the size of an entry and their number.  A
number too great for its field stands in the first section instead: in `size` for sections, in `info` for segments, and in
`link` for the index of the section that holds the names.  `Header.sections?` and `Header.segments?` are `none` when the
table cannot be read.
-/
namespace DelayProbe

/-- The least number that needs more than 64 bits. -/
def wordBound : Nat := 0x10000000000000000

/-- The fields of a file header that lead to symbols. -/
structure Header where
  segmentsAt : Nat
  sectionsAt : Nat
  segmentSize : Nat
  segmentCount : Nat
  sectionSize : Nat
  sectionCount : Nat
  namesIndex : Nat
  deriving DecidableEq, Repr

namespace Header

def size : Nat := 64

def read (im : Image) (o : ByteOrder) : Header where
  segmentsAt := im.word o 32 8
  sectionsAt := im.word o 40 8
  segmentSize := im.word o 54 2
  segmentCount := im.word o 56 2
  sectionSize := im.word o 58 2
  sectionCount := im.word o 60 2
  namesIndex := im.word o 62 2

end Header

inductive SectionKind where
  | symbols
  | strings
  | empty
  | dynamicSymbols
  | symbolIndexes
  | other
  deriving DecidableEq, Repr

def SectionKind.ofCode (n : Nat) : SectionKind :=
  if n = 2 then .symbols else if n = 3 then .strings else if n = 8 then .empty
  else if n = 11 then .dynamicSymbols else if n = 18 then .symbolIndexes else .other

structure Section where
  name : Nat
  kind : SectionKind
  offset : Nat
  size : Nat
  link : Nat
  info : Nat
  deriving DecidableEq, Repr

namespace Section

def width : Nat := 64

def read (im : Image) (o : ByteOrder) (pos : Nat) : Section where
  name := im.word o pos 4
  kind := .ofCode (im.word o (pos + 4) 4)
  offset := im.word o (pos + 24) 8
  size := im.word o (pos + 32) 8
  link := im.word o (pos + 40) 4
  info := im.word o (pos + 44) 4

/-- The strings of a section, unless its end cannot be written in 64 bits.  Only the strings themselves have to lie in the
image, and only when they are read. -/
def strings? (s : Section) : Option Strings :=
  if s.offset + s.size < wordBound then some ⟨some (s.offset, s.offset + s.size)⟩ else none

end Section

structure Segment where
  isLoaded : Bool
  offset : Nat
  vaddr : Nat
  size : Nat
  deriving DecidableEq, Repr

namespace Segment

def width : Nat := 56

def read (im : Image) (o : ByteOrder) (pos : Nat) : Segment where
  isLoaded := decide (im.word o pos 4 = 1)
  offset := im.word o (pos + 8) 8
  vaddr := im.word o (pos + 16) 8
  size := im.word o (pos + 40) 8

/-- The file offset of an address in a loaded segment.  A segment whose end needs more than 64 bits holds no address, and
an offset that needs more is none. -/
def place? (s : Segment) (vaddr : Nat) : Option Nat :=
  if s.isLoaded ∧ s.vaddr + s.size < wordBound ∧ s.vaddr ≤ vaddr ∧ vaddr < s.vaddr + s.size ∧
      s.offset + (vaddr - s.vaddr) < wordBound
  then some (s.offset + (vaddr - s.vaddr)) else none

end Segment

namespace Header

/-- The first section, which may stand in for fields of the header; `some none` if there are no sections. -/
def firstSection? (h : Header) (im : Image) (o : ByteOrder) : Option (Option Section) :=
  if h.sectionsAt = 0 then some none
  else if h.sectionSize = Section.width ∧ im.holds h.sectionsAt Section.width 8 then
    some (some (Section.read im o h.sectionsAt))
  else none

def sectionTotal? (h : Header) (im : Image) (o : ByteOrder) : Option Nat :=
  if h.sectionCount = 0 then (h.firstSection? im o).map fun s => s.elim 0 (·.size) else some h.sectionCount

def sections? (h : Header) (im : Image) (o : ByteOrder) : Option (List Section) :=
  if h.sectionsAt = 0 then some []
  else
    match h.sectionTotal? im o with
    | none => none
    | some n =>
      if n = 0 then some []
      else if h.sectionSize = Section.width ∧ im.holds h.sectionsAt (n * Section.width) 8 then
        some ((List.range n).map fun i => Section.read im o (h.sectionsAt + i * Section.width))
      else none

/-- The strings that name the sections.  An empty section has none to give, and then no section has a name. -/
def names? (h : Header) (sections : List Section) : Option Strings :=
  match sections with
  | [] => some {}
  | s0 :: _ =>
    let index := if h.namesIndex = 0xffff then s0.link else h.namesIndex
    if index = 0 then none
    else
      match sections[index]? with
      | none => none
      | some s => if s.kind = .empty then some {} else s.strings?

def segmentTotal? (h : Header) (im : Image) (o : ByteOrder) : Option Nat :=
  if h.segmentCount = 0xffff then
    match h.firstSection? im o with
    | some (some s) => some s.info
    | _ => none
  else some h.segmentCount

def segments? (h : Header) (im : Image) (o : ByteOrder) : Option (List Segment) :=
  if h.segmentsAt = 0 then some []
  else
    match h.segmentTotal? im o with
    | none => none
    | some n =>
      if n = 0 then some []
      else if h.segmentSize = Segment.width ∧ im.holds h.segmentsAt (n * Segment.width) 8 then
        some ((List.range n).map fun i => Segment.read im o (h.segmentsAt + i * Segment.width))
      else none

end Header
end DelayProbe
