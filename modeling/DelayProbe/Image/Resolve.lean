import DelayProbe.Refusal
import DelayProbe.Image.SymbolTable
import DelayProbe.Text.Utf8
/-!
# Resolve — from a symbol's name to its place in the file

`Image.resolve` finds the first symbol of that name, in the order of sections and then of entries, and maps its address
through the first loaded segment that holds it.  That one symbol decides: a later one of the same name is never looked at,
even when the first is only mentioned and not defined.  Stages fail in order — format, identification, class, file header,
section table, symbol, segment table, segment — and the first failure is the answer.  `Image.findings` is what a watcher is
told on the way.
-/
namespace DelayProbe

/-- Where a symbol is: its offset in the file, its address, and the table that names it. -/
structure Place where
  offset : Nat
  vaddr : Nat
  table : TableKind
  tableName : Option Text
  deriving DecidableEq, Repr

namespace Image

def magic : List UInt8 := [0x7f, 0x45, 0x4c, 0x46]

/-- The class of images with 64-bit addresses. -/
def class64 : UInt8 := 2

def checkIdentification (im : Image) : Except Unresolved Unit :=
  if (im.extract 0 4).toList ≠ magic then .error .notElf
  else
    match im[4]? with
    | none => .error (.malformed .identification)
    | some c => if c = class64 then .ok () else .error .unsupportedClass

/-- The header is all there, in a known byte order and of the only version there is. -/
def hasHeader (im : Image) : Bool :=
  decide (Header.size ≤ im.size) && (ByteOrder.ofCode? (im.byte 5)).isSome && decide (im.byte 6 = 1)

/-- What has been read of an image once its section table is known to be good. -/
structure Contents where
  order : ByteOrder
  header : Header
  sections : List Section
  names : Strings
  deriving DecidableEq, Repr

def contents (im : Image) : Except Unresolved Contents :=
  match im.checkIdentification with
  | .error e => .error e
  | .ok () =>
    if im.hasHeader then
      match ByteOrder.ofCode? (im.byte 5) with
      | none => .error (.malformed .dataEncoding)
      | some o =>
        let h := Header.read im o
        match h.sections? im o with
        | none => .error (.malformed .sectionTable)
        | some sections =>
          match h.names? sections with
          | none => .error (.malformed .sectionTable)
          | some names => .ok ⟨o, h, sections, names⟩
    else .error (.malformed .fileHeader)

namespace Contents

def tables (c : Contents) (im : Image) : List SymbolTable := SymbolTable.all im c.order c.sections c.names

def find? (c : Contents) (im : Image) (name : Text) : Option (SymbolTable × Symbol) :=
  SymbolTable.findIn im name.bytes (c.tables im)

def place (c : Contents) (im : Image) (t : SymbolTable) (s : Symbol) : Except Unresolved Place :=
  match c.header.segments? im c.order with
  | none => .error (.malformed .segmentTable)
  | some segments =>
    match segments.findSome? (·.place? s.value) with
    | none => .error (.notMapped s.value)
    | some offset => .ok ⟨offset, s.value, t.kind, t.name.map Utf8.decode⟩

end Contents

def resolve (im : Image) (name : Text) : Except Unresolved Place :=
  match im.contents with
  | .error e => .error e
  | .ok c =>
    match c.find? im name with
    | none => .error .symbolNotFound
    | some (t, s) => if s.isDefined then c.place im t s else .error .symbolNotFound

inductive Finding where
  | skipped (table : Nat)
  | undefined (name : Text)
  | placed (name : Text) (place : Place)
  deriving DecidableEq, Repr

/-- The unreadable tables met before the symbol was found, or all of them if it was not. -/
def skippedTables (im : Image) (name : Text) (tables : List SymbolTable) : List Finding :=
  ((tables.takeWhile fun t => (t.find? im name.bytes).isNone).filter (·.content.isNone)).map fun t => .skipped t.index

def findings (im : Image) (name : Text) : List Finding :=
  match im.contents with
  | .error _ => []
  | .ok c =>
    skippedTables im name (c.tables im) ++
      match c.find? im name with
      | none => []
      | some (t, s) =>
        if s.isDefined then
          match c.place im t s with
          | .ok p => [.placed name p]
          | .error _ => []
        else [.undefined name]

end Image
end DelayProbe
