import DelayProbe.Image.Header
/-!
# SymbolTable — the symbols of an image

A section of symbols is readable when its entries lie in the image, its strings can be found, and every section of indexes
that belongs to it can be read too.  An unreadable one is passed over (`SymbolTable.content` is `none`), so it hides nothing
that another holds.  A name is matched byte for byte.
-/
namespace DelayProbe

inductive TableKind where
  | fixed
  | dynamic
  deriving DecidableEq, Repr

def TableKind.ofSection? : SectionKind → Option TableKind
  | .symbols => some .fixed
  | .dynamicSymbols => some .dynamic
  | _ => none

structure Symbol where
  name : Nat
  home : Nat
  value : Nat
  deriving DecidableEq, Repr

namespace Symbol

def width : Nat := 24

def read (im : Image) (o : ByteOrder) (pos : Nat) : Symbol where
  name := im.word o pos 4
  home := im.word o (pos + 6) 2
  value := im.word o (pos + 8) 8

/-- A symbol with an address in some section; the others are only mentioned. -/
def isDefined (s : Symbol) : Bool := decide (s.value ≠ 0) && decide (s.home ≠ 0)

end Symbol

namespace Section

/-- The section is an array in the image: entries of `width` bytes, the first at a multiple of `align`. -/
def isArray (s : Section) (im : Image) (width align : Nat) : Bool :=
  im.holds s.offset s.size align && decide (s.size % width = 0)

/-- The strings a symbol section links to.  Link 0 is a table without strings. -/
def linkedStrings? (s : Section) (sections : List Section) : Option Strings :=
  if s.link = 0 then some {}
  else
    match sections[s.link]? with
    | none => none
    | some t => if t.kind = .strings then t.strings? else none

/-- Whether the index sections that belong to section `index` are arrays of 32-bit numbers. -/
def indexesReadable (im : Image) (sections : List Section) (index : Nat) : Bool :=
  sections.all fun t => !(decide (t.kind = .symbolIndexes) && decide (t.link = index)) || t.isArray im 4 4

end Section

structure SymbolTable where
  index : Nat
  kind : TableKind
  name : Option (List UInt8)
  content : Option (List Symbol × Strings)
  deriving DecidableEq, Repr

namespace SymbolTable

/-- The symbols of a section and the strings that hold their names. -/
def content? (im : Image) (o : ByteOrder) (sections : List Section) (index : Nat) (s : Section) :
    Option (List Symbol × Strings) :=
  if s.isArray im Symbol.width 8 ∧ Section.indexesReadable im sections index then
    (s.linkedStrings? sections).map fun strings =>
      ((List.range (s.size / Symbol.width)).map fun i => Symbol.read im o (s.offset + i * Symbol.width), strings)
  else none

def all (im : Image) (o : ByteOrder) (sections : List Section) (names : Strings) : List SymbolTable :=
  sections.zipIdx.filterMap fun (s, i) =>
    (TableKind.ofSection? s.kind).map fun k => ⟨i, k, names.get? im s.name, content? im o sections i s⟩

def find? (t : SymbolTable) (im : Image) (name : List UInt8) : Option Symbol :=
  t.content.bind fun (symbols, strings) => symbols.find? fun s => decide (strings.get? im s.name = some name)

def findIn (im : Image) (name : List UInt8) (tables : List SymbolTable) : Option (SymbolTable × Symbol) :=
  tables.findSome? fun t => (t.find? im name).map fun s => (t, s)

end SymbolTable
end DelayProbe
