import DelayProbe.Image.Resolve
import DelayProbe.Proofs.Placed
/-!
# Layout — images drawn up from what they are to say

A `Blueprint` lists segments to load and tables of symbols.  `Blueprint.image` writes it down in either byte order: file
header, segment table, code, each symbol table with its strings, the names of the sections, section table.
`Blueprint.answer` is where a symbol is by the lists alone.  A `Cursor` says how far the writing has come: in the image, in
the section table, and in the names of the sections.
-/
namespace DelayProbe

/-- A text and the zero byte that ends it. -/
def Text.ended (t : Text) : List UInt8 := t.bytes ++ [0]

def alignUp (align pos : Nat) : Nat := pos + (align - pos % align) % align

/-- Zero bytes up to the next multiple of `align`. -/
def padding (align pos : Nat) : List UInt8 := List.replicate ((align - pos % align) % align) 0

namespace TableKind

def code : TableKind → Nat
  | .fixed => 2
  | .dynamic => 11

def tableName : TableKind → Text
  | .fixed => ".symtab".toList
  | .dynamic => ".dynsym".toList

def stringsName : TableKind → Text
  | .fixed => ".strtab".toList
  | .dynamic => ".dynstr".toList

def names (k : TableKind) : List UInt8 := k.tableName.ended ++ k.stringsName.ended

end TableKind

/-- An entry of the section table as it is written. -/
structure SectionRow where
  name : Nat := 0
  kind : Nat := 0
  flags : Nat := 0
  offset : Nat := 0
  size : Nat := 0
  link : Nat := 0
  info : Nat := 0
  align : Nat := 0
  entry : Nat := 0
  deriving DecidableEq, Repr

namespace SectionRow

def record (r : SectionRow) : Record :=
  [(4, r.name), (4, r.kind), (8, r.flags), (8, 0), (8, r.offset), (8, r.size), (4, r.link), (4, r.info), (8, r.align),
    (8, r.entry)]

def toSection (r : SectionRow) : Section := ⟨r.name, .ofCode r.kind, r.offset, r.size, r.link, r.info⟩

end SectionRow

structure SymbolRow where
  name : Nat := 0
  info : Nat := 0
  home : Nat := 0
  value : Nat := 0
  size : Nat := 0
  deriving DecidableEq, Repr

namespace SymbolRow

def record (r : SymbolRow) : Record :=
  [(4, r.name), (1, r.info), (1, 0), (2, r.home), (8, r.value), (8, r.size)]

def toSymbol (r : SymbolRow) : Symbol := ⟨r.name, r.home, r.value⟩

end SymbolRow

structure Load where
  vaddr : UInt64
  offset : UInt64
  size : UInt64
  deriving DecidableEq, Repr

namespace Load

/-- The segment of an image for which none is asked. -/
def standard : Load := ⟨0x400000, 0, 0x10000⟩

def record (s : Load) : Record :=
  [(4, 1), (4, 5), (8, s.offset.toNat), (8, s.vaddr.toNat), (8, s.vaddr.toNat), (8, s.size.toNat), (8, s.size.toNat),
    (8, 0x1000)]

def toSegment (s : Load) : Segment := ⟨true, s.offset.toNat, s.vaddr.toNat, s.size.toNat⟩

/-- The file offset of an address, if the segment holds it and neither the segment's end nor the offset needs more than 64
bits. -/
def place? (s : Load) (v : UInt64) : Option Nat :=
  if s.vaddr.toNat ≤ v.toNat ∧ v.toNat < s.vaddr.toNat + s.size.toNat ∧ s.vaddr.toNat + s.size.toNat < wordBound ∧
      s.offset.toNat + (v.toNat - s.vaddr.toNat) < wordBound
  then some (s.offset.toNat + (v.toNat - s.vaddr.toNat)) else none

end Load

/-- A symbol and its address.  The name is free of the character that would end it. -/
structure Entry where
  name : Text
  value : UInt64
  nul_not_mem : '\x00' ∉ name

namespace Entry

def row (k : Nat) (e : Entry) : SymbolRow :=
  { name := k, info := 0x12, home := 1, value := e.value.toNat, size := 16 }

def rows : Nat → List Entry → List SymbolRow
  | _, [] => []
  | k, e :: r => e.row k :: rows (k + e.name.ended.length) r

def plain : Entry := ⟨['f'], 0x400010, by decide⟩

/-- Another symbol there. -/
def other : Entry := ⟨['h'], 0x400010, by decide⟩

end Entry

structure Listing where
  kind : TableKind
  entries : List Entry

structure Cursor where
  pos : Nat
  index : Nat
  name : Nat
  deriving DecidableEq, Repr

namespace Listing

/-- The first symbol of a table has no name. -/
def rows (t : Listing) : List SymbolRow := {} :: Entry.rows 1 t.entries

/-- The first string of a table is empty. -/
def strings (t : Listing) : List UInt8 := 0 :: t.entries.flatMap fun e => e.name.ended

def stringsAt (t : Listing) (pos : Nat) : Nat := alignUp 8 pos + t.rows.length * Symbol.width

def stop (t : Listing) (pos : Nat) : Nat := t.stringsAt pos + t.strings.length

def body (o : ByteOrder) (t : Listing) (pos : Nat) : List UInt8 :=
  padding 8 pos ++ (t.rows.flatMap (fun r => r.record.bytes o) ++ t.strings)

def symbolsRow (t : Listing) (c : Cursor) : SectionRow :=
  { name := c.name, kind := t.kind.code, offset := alignUp 8 c.pos, size := t.rows.length * Symbol.width,
    link := c.index + 1, info := 1, align := 8, entry := Symbol.width }

def stringsRow (t : Listing) (c : Cursor) : SectionRow :=
  { name := c.name + t.kind.tableName.ended.length, kind := 3, offset := t.stringsAt c.pos, size := t.strings.length,
    align := 1 }

def lookup (name : Text) (t : Listing) : Option (TableKind × UInt64) :=
  (t.entries.find? fun e => decide (e.name = name)).map fun e => (t.kind, e.value)

end Listing

namespace Cursor

def past (c : Cursor) (t : Listing) : Cursor := ⟨t.stop c.pos, c.index + 2, c.name + t.kind.names.length⟩

/-- Behind all of the tables. -/
def along (c : Cursor) (ts : List Listing) : Cursor := ts.foldl past c

def bodies (o : ByteOrder) : Cursor → List Listing → List UInt8
  | _, [] => []
  | c, t :: ts => t.body o c.pos ++ bodies o (c.past t) ts

def rows : Cursor → List Listing → List SectionRow
  | _, [] => []
  | c, t :: ts => t.symbolsRow c :: t.stringsRow c :: rows (c.past t) ts

end Cursor

/-- What an image is to hold. -/
structure Blueprint where
  loads : List Load
  listings : List Listing

namespace Blueprint

def segments (d : Blueprint) : List Load := if d.loads.isEmpty then [.standard] else d.loads

/-! ## The image -/

def segmentsEnd (d : Blueprint) : Nat := Header.size + d.segments.length * Segment.width

def codeAt (d : Blueprint) : Nat := alignUp 16 d.segmentsEnd

def code : List UInt8 := List.replicate 64 0x90

def codeName : Text := ".text".toList

def namesName : Text := ".shstrtab".toList

/-- Where the first symbol table begins: two sections are written by then, and the name of one. -/
def start (d : Blueprint) : Cursor := ⟨d.codeAt + code.length, 2, 1 + codeName.ended.length⟩

def stop (d : Blueprint) : Cursor := d.start.along d.listings

def sectionNames (d : Blueprint) : List UInt8 :=
  [0] ++ (codeName.ended ++ (d.listings.flatMap (fun t => t.kind.names) ++ namesName.ended))

def rowsAt (d : Blueprint) : Nat := alignUp 8 (d.stop.pos + d.sectionNames.length)

def codeRow (d : Blueprint) : SectionRow :=
  { name := 1, kind := 1, flags := 6, offset := d.codeAt, size := code.length, align := 16 }

def namesRow (d : Blueprint) : SectionRow :=
  { name := d.stop.name, kind := 3, offset := d.stop.pos, size := d.sectionNames.length, align := 1 }

def rows (d : Blueprint) : List SectionRow := [{}, d.codeRow] ++ d.start.rows d.listings ++ [d.namesRow]

def identification (o : ByteOrder) : List UInt8 := Image.magic ++ [Image.class64, o.code, 1] ++ List.replicate 9 0

def header (d : Blueprint) : Record :=
  [(2, 2), (2, 62), (4, 1), (8, (d.segments.headD .standard).vaddr.toNat), (8, Header.size), (8, d.rowsAt), (4, 0),
    (2, Header.size), (2, Segment.width), (2, d.segments.length), (2, Section.width), (2, d.rows.length),
    (2, d.stop.index)]

def bytes (o : ByteOrder) (d : Blueprint) : List UInt8 :=
  identification o ++ (d.header.bytes o ++ (d.segments.flatMap (fun s => s.record.bytes o) ++
    (padding 16 d.segmentsEnd ++ (code ++ (d.start.bodies o d.listings ++ (d.sectionNames ++
      (padding 8 (d.stop.pos + d.sectionNames.length) ++ d.rows.flatMap fun r => r.record.bytes o)))))))

def image (o : ByteOrder) (d : Blueprint) : Image := (d.bytes o).toArray

/-- Every number that is written fits its field. -/
def Fits (d : Blueprint) : Prop :=
  d.header.Fits ∧ (∀ r ∈ d.rows, r.record.Fits) ∧ ∀ t ∈ d.listings, ∀ r ∈ t.rows, r.record.Fits

instance (d : Blueprint) : Decidable d.Fits :=
  inferInstanceAs (Decidable (d.header.Fits ∧ (∀ r ∈ d.rows, r.record.Fits) ∧ ∀ t ∈ d.listings, ∀ r ∈ t.rows, r.record.Fits))

/-! ## The answer -/

/-- The address a name has in the first table that lists it, and the kind of that table. -/
def lookup (d : Blueprint) (name : Text) : Option (TableKind × UInt64) := d.listings.findSome? (·.lookup name)

/-- Where a symbol is if these are the loaded segments. -/
def answerIn (d : Blueprint) (loads : List Load) (name : Text) : Except Unresolved Place :=
  match d.lookup name with
  | none => .error .symbolNotFound
  | some (k, v) =>
    if v = 0 ∨ name = [] then .error .symbolNotFound
    else
      match loads.findSome? fun s => s.place? v with
      | none => .error (.notMapped v.toNat)
      | some offset => .ok ⟨offset, v.toNat, k, some k.tableName⟩

def answer (d : Blueprint) (name : Text) : Except Unresolved Place := d.answerIn d.segments name

/-- One symbol, in the segment that needs no asking. -/
def small : Blueprint := ⟨[], [⟨.dynamic, [.plain]⟩]⟩

end Blueprint
end DelayProbe
