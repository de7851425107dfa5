import DelayProbe.Proofs.Diagnosis
/-!
# Metadata — the bytes of an image that are looked at

Whatever the length and the numbers in it say, an image is looked at in few places: its first 64 bytes, the tables of sections
and of segments, the sections of symbols, and the strings that name symbols and sections (`Image.metadata`).  Each function that
reads is shown to read the same of two images of one length that agree in the places it may look at, the scan for the end of a
string included, which stops at the end of its table.  So where a symbol is, or why it is nowhere, does not depend on what else
is in the file (`Image.resolve_of_metadata`): code, data and notes may hold anything, and may change.
-/
namespace DelayProbe

/-- Bytes of a file, one after the other. -/
structure Span where
  start : Nat
  length : Nat
  deriving DecidableEq, Repr

/-- The images have the same bytes there.  Past the end of both there is nothing to differ in. -/
def Span.Agrees (p : Span) (a b : Image) : Prop := ∀ i < p.length, a.byte (p.start + i) = b.byte (p.start + i)

instance (p : Span) (a b : Image) : Decidable (p.Agrees a b) :=
  inferInstanceAs (Decidable (∀ i < p.length, a.byte (p.start + i) = b.byte (p.start + i)))

/-- A byte that is changed elsewhere is no difference there. -/
theorem Span.agrees_setIfInBounds {p : Span} {im : Image} {i : Nat} (hi : i < p.start ∨ p.start + p.length ≤ i) (v : UInt8) :
    p.Agrees im (im.setIfInBounds i v) := fun j hj => by
  unfold Image.byte
  rw [Array.getElem?_setIfInBounds_ne (by omega)]

/-! ## Where an image is looked at -/

def Strings.spans (s : Strings) : List Span := s.range.toList.map fun (start, stop) => ⟨start, stop - start⟩

namespace Section

def holdsSymbols (s : Section) : Bool := (TableKind.ofSection? s.kind).isSome

/-- The data of a section of symbols, and of the strings it links to. -/
def symbolSpans (sections : List Section) (s : Section) : List Span :=
  ⟨s.offset, s.size⟩ :: (s.linkedStrings? sections).elim [] Strings.spans

end Section

namespace Header

/-- The first section where it stands in for a field of the header, the two tables, the strings that name the sections, and what
belongs to the sections of symbols. -/
def spans (h : Header) (im : Image) (o : ByteOrder) : List Span :=
  (if h.sectionCount = 0 ∨ h.segmentCount = 0xffff then [⟨h.sectionsAt, Section.width⟩] else []) ++
    (h.segments? im o).elim [] (fun segments => [⟨h.segmentsAt, segments.length * Segment.width⟩]) ++
    (h.sections? im o).elim [] fun sections =>
      ⟨h.sectionsAt, sections.length * Section.width⟩ :: (h.names? sections).elim [] Strings.spans ++
        (sections.filter (·.holdsSymbols)).flatMap (Section.symbolSpans sections)

end Header

/-- The places at which an image is looked at.  One without a good header is not looked at behind it. -/
def Image.metadata (im : Image) : List Span :=
  ⟨0, Header.size⟩ ::
    match im.checkIdentification, im.hasHeader, ByteOrder.ofCode? (im.byte 5) with
    | .ok (), true, some o => (Header.read im o).spans im o
    | _, _, _ => []

variable {a b : Image} {o : ByteOrder}

/-! ## Bytes, numbers and rows -/

namespace Span

theorem Agrees.sub {p : Span} (h : p.Agrees a b) {start length : Nat} (hstart : p.start ≤ start)
    (hstop : start + length ≤ p.start + p.length) : (Span.mk start length).Agrees a b := fun i hi => by
  have hi : i < length := hi
  have hbyte := h (start - p.start + i) (by omega)
  rwa [show p.start + (start - p.start + i) = start + i by omega] at hbyte

theorem Agrees.word_eq {start length : Nat} (h : (Span.mk start length).Agrees a b) {pos width : Nat} (hpos : start ≤ pos)
    (hstop : pos + width ≤ start + length) : a.word o pos width = b.word o pos width := by
  have hword := h.sub hpos hstop
  unfold Image.word
  congr 1
  exact List.map_congr_left fun i hi => hword i (List.mem_range.1 hi)

/-- **Rows are the same if each is read from the bytes of its own.** -/
theorem Agrees.rows_eq {start length : Nat} (h : (Span.mk start length).Agrees a b) {α : Type} (read : Image → Nat → α)
    {width n : Nat} (hread : ∀ pos, (Span.mk pos width).Agrees a b → read a pos = read b pos) (hn : n * width ≤ length) :
    (List.range n).map (fun i => read a (start + i * width)) = (List.range n).map fun i => read b (start + i * width) := by
  apply List.map_congr_left
  intro i hi
  have hrow : i * width + width ≤ n * width := by
    rw [← Nat.succ_mul]
    exact Nat.mul_le_mul_right width (List.mem_range.1 hi)
  exact hread _ (h.sub (Nat.le_add_right _ _) (by show start + i * width + width ≤ start + length; omega))

end Span

theorem Section.read_congr {pos : Nat} (h : (Span.mk pos Section.width).Agrees a b) :
    Section.read a o pos = Section.read b o pos := by
  unfold Section.width at h
  unfold Section.read
  congr 1
  · exact h.word_eq (by omega) (by omega)
  · rw [h.word_eq (by omega) (by omega)]
  all_goals exact h.word_eq (by omega) (by omega)

theorem Segment.read_congr {pos : Nat} (h : (Span.mk pos Segment.width).Agrees a b) :
    Segment.read a o pos = Segment.read b o pos := by
  unfold Segment.width at h
  unfold Segment.read
  rw [h.word_eq (by omega) (by omega)]
  congr 1 <;> exact h.word_eq (by omega) (by omega)

theorem Symbol.read_congr {pos : Nat} (h : (Span.mk pos Symbol.width).Agrees a b) :
    Symbol.read a o pos = Symbol.read b o pos := by
  unfold Symbol.width at h
  unfold Symbol.read
  congr 1 <;> exact h.word_eq (by omega) (by omega)

theorem Image.holds_congr (hsize : a.size = b.size) (start length align : Nat) :
    a.holds start length align = b.holds start length align := by
  rw [holds, holds, hsize]

/-! ## Strings -/

/-- **The scan for the end of a string stays among the bytes it is given.** -/
theorem Image.untilZero_congr : ∀ {n pos : Nat}, (Span.mk pos n).Agrees a b → a.untilZero n pos = b.untilZero n pos
  | 0, _, _ => rfl
  | n + 1, pos, h => by
    have hbyte : a.byte pos = b.byte pos := h 0 (Nat.succ_pos n)
    have hrest : (Span.mk (pos + 1) n).Agrees a b := h.sub (Nat.le_add_right _ _) (by show pos + 1 + n ≤ pos + (n + 1); omega)
    rw [untilZero, untilZero, hbyte, untilZero_congr hrest]

theorem Strings.get?_congr {s : Strings} (hsize : a.size = b.size) (h : ∀ p ∈ s.spans, p.Agrees a b) (offset : Nat) :
    s.get? a offset = s.get? b offset := by
  obtain ⟨range⟩ := s
  cases range with
  | none => rfl
  | some r =>
    obtain ⟨start, stop⟩ := r
    have hrange : (Span.mk start (stop - start)).Agrees a b := h _ List.mem_cons_self
    simp only [get?, Option.bind_some, hsize]
    by_cases hin : start + offset ≤ stop ∧ stop ≤ b.size
    · rw [if_pos hin, if_pos hin]
      apply Image.untilZero_congr
      exact hrange.sub (Nat.le_add_right _ _) (by show start + offset + (stop - (start + offset)) ≤ start + (stop - start); omega)
    · rw [if_neg hin, if_neg hin]

/-! ## The header and its tables -/

namespace Header

theorem read_congr (h : (Span.mk 0 size).Agrees a b) : read a o = read b o := by
  unfold size at h
  unfold read
  congr 1 <;> exact h.word_eq (by omega) (by omega)

variable {h : Header}

theorem firstSection_mem_spans (hcount : h.sectionCount = 0 ∨ h.segmentCount = 0xffff) :
    ⟨h.sectionsAt, Section.width⟩ ∈ h.spans a o := by
  simp [spans, hcount]

theorem segments_mem_spans {segments : List Segment} (hrows : h.segments? a o = some segments) :
    ⟨h.segmentsAt, segments.length * Segment.width⟩ ∈ h.spans a o := by
  simp [spans, hrows]

theorem sections_mem_spans {sections : List Section} (hrows : h.sections? a o = some sections) :
    ⟨h.sectionsAt, sections.length * Section.width⟩ ∈ h.spans a o := by
  simp [spans, hrows]

theorem names_mem_spans {sections : List Section} (hrows : h.sections? a o = some sections) {names : Strings}
    (hnames : h.names? sections = some names) {p : Span} (hp : p ∈ names.spans) : p ∈ h.spans a o := by
  simp [spans, hrows, hnames, hp]

theorem symbols_mem_spans {sections : List Section} (hrows : h.sections? a o = some sections) {s : Section} (hs : s ∈ sections)
    (hkind : s.holdsSymbols = true) {p : Span} (hp : p ∈ s.symbolSpans sections) : p ∈ h.spans a o := by
  have hmem : p ∈ (sections.filter (·.holdsSymbols)).flatMap (Section.symbolSpans sections) :=
    List.mem_flatMap.2 ⟨s, List.mem_filter.2 ⟨hs, hkind⟩, hp⟩
  simp only [spans, hrows, Option.elim_some]
  exact List.mem_append_right _ (List.mem_append_right _ hmem)

theorem firstSection?_congr (hsize : a.size = b.size) (hfirst : (Span.mk h.sectionsAt Section.width).Agrees a b) :
    h.firstSection? a o = h.firstSection? b o := by
  unfold firstSection?
  rw [Image.holds_congr hsize, Section.read_congr hfirst]

/-- **A table that lies in the images is read alike**, and one that does not is not read. -/
theorem table_congr {α : Type} (read : Image → Nat → α) {start n size width : Nat} (hsize : a.size = b.size)
    (hread : ∀ pos, (Span.mk pos width).Agrees a b → read a pos = read b pos)
    (htable : n ≠ 0 → size = width → start + n * width ≤ a.size → start % 8 = 0 → (Span.mk start (n * width)).Agrees a b) :
    (if n = 0 then some []
      else if size = width ∧ a.holds start (n * width) 8 then some ((List.range n).map fun i => read a (start + i * width))
      else none) =
    if n = 0 then some []
      else if size = width ∧ b.holds start (n * width) 8 then some ((List.range n).map fun i => read b (start + i * width))
      else none := by
  rw [← Image.holds_congr hsize]
  by_cases hn : n = 0
  · rw [if_pos hn, if_pos hn]
  · rw [if_neg hn, if_neg hn]
    by_cases hin : size = width ∧ a.holds start (n * width) 8
    · obtain ⟨inside, aligned⟩ := holds_iff.1 hin.2
      rw [if_pos hin, if_pos hin, (htable hn hin.1 inside aligned).rows_eq read hread (Nat.le_refl _)]
    · rw [if_neg hin, if_neg hin]

/-- **The sections are the same**, if the images agree where they are read, and where the first stands in for their number. -/
theorem sections?_congr (hsize : a.size = b.size) (hspans : ∀ p ∈ h.spans a o, p.Agrees a b) :
    h.sections? a o = h.sections? b o := by
  have htotal : h.sectionTotal? a o = h.sectionTotal? b o := by
    unfold sectionTotal?
    by_cases hcount : h.sectionCount = 0
    · rw [firstSection?_congr hsize (hspans _ (firstSection_mem_spans (.inl hcount)))]
    · rw [if_neg hcount, if_neg hcount]
  unfold sections?
  rw [← htotal]
  by_cases hat : h.sectionsAt = 0
  · rw [if_pos hat, if_pos hat]
  · rw [if_neg hat, if_neg hat]
    cases hn : h.sectionTotal? a o with
    | none => rfl
    | some n =>
      refine table_congr (Section.read · o) hsize (fun _ => Section.read_congr) fun hpos hwidth inside aligned => ?_
      have hrows := sections?_eq_some_iff.2 (.table hat ((sectionTotal?_eq_some_iff hat).1 hn) hpos hwidth inside aligned)
      simpa using hspans _ (sections_mem_spans hrows)

/-- **The same for the segments.** -/
theorem segments?_congr (hsize : a.size = b.size) (hspans : ∀ p ∈ h.spans a o, p.Agrees a b) :
    h.segments? a o = h.segments? b o := by
  have htotal : h.segmentTotal? a o = h.segmentTotal? b o := by
    unfold segmentTotal?
    by_cases hcount : h.segmentCount = 0xffff
    · rw [firstSection?_congr hsize (hspans _ (firstSection_mem_spans (.inr hcount)))]
    · rw [if_neg hcount, if_neg hcount]
  unfold segments?
  rw [← htotal]
  by_cases hat : h.segmentsAt = 0
  · rw [if_pos hat, if_pos hat]
  · rw [if_neg hat, if_neg hat]
    cases hn : h.segmentTotal? a o with
    | none => rfl
    | some n =>
      refine table_congr (Segment.read · o) hsize (fun _ => Segment.read_congr) fun hpos hwidth inside aligned => ?_
      have hrows := segments?_eq_some_iff.2 (.table hat (segmentTotal?_eq_some_iff.1 hn) hpos hwidth inside aligned)
      simpa using hspans _ (segments_mem_spans hrows)

end Header

/-! ## Symbols -/

namespace SymbolTable

variable {sections : List Section}

theorem content?_congr (hsize : a.size = b.size) {s : Section} (hdata : (Span.mk s.offset s.size).Agrees a b) (index : Nat) :
    content? a o sections index s = content? b o sections index s := by
  have harray : ∀ (t : Section) (width align : Nat), t.isArray a width align = t.isArray b width align := fun t width align => by
    rw [Section.isArray, Section.isArray, Image.holds_congr hsize]
  have hrows := hdata.rows_eq (Symbol.read · o) (fun _ => Symbol.read_congr) (Nat.div_mul_le_self s.size Symbol.width)
  unfold content? Section.indexesReadable
  simp only [harray, hrows]

/-- **The tables of symbols are the same**, those that cannot be read included. -/
theorem all_congr (hsize : a.size = b.size) {names : Strings} (hnames : ∀ p ∈ names.spans, p.Agrees a b)
    (hsymbols : ∀ s ∈ sections, s.holdsSymbols = true → (Span.mk s.offset s.size).Agrees a b) :
    all a o sections names = all b o sections names := by
  unfold all
  apply List.filterMap_congr
  rintro ⟨s, i⟩ hs
  show (TableKind.ofSection? s.kind).map _ = (TableKind.ofSection? s.kind).map _
  cases hk : TableKind.ofSection? s.kind with
  | none => rfl
  | some k =>
    have hdata := hsymbols s (List.fst_mem_of_mem_zipIdx hs) (by rw [Section.holdsSymbols, hk]; rfl)
    simp only [Strings.get?_congr hsize hnames, content?_congr hsize hdata]

/-- **A name is matched alike** against strings that agree in the images. -/
theorem find?_congr (hsize : a.size = b.size) {t : SymbolTable}
    (hstrings : ∀ symbols strings, t.content = some (symbols, strings) → ∀ p ∈ strings.spans, p.Agrees a b) (name : List UInt8) :
    t.find? a name = t.find? b name := by
  unfold find?
  cases hc : t.content with
  | none => rfl
  | some c =>
    obtain ⟨symbols, strings⟩ := c
    simp only [Option.bind_some, Strings.get?_congr hsize (hstrings symbols strings hc)]

theorem findIn_congr {name : List UInt8} : ∀ {tables : List SymbolTable}, (∀ t ∈ tables, t.find? a name = t.find? b name) →
    findIn a name tables = findIn b name tables
  | [], _ => rfl
  | t :: tables, h => by
    have ih := findIn_congr fun t ht => h t (List.mem_cons_of_mem _ ht)
    unfold findIn at ih ⊢
    rw [List.findSome?_cons, List.findSome?_cons, ih, h t List.mem_cons_self]

end SymbolTable

/-! ## The image -/

namespace Image

theorem getElem?_congr (hsize : a.size = b.size) {i : Nat} (h : a.byte i = b.byte i) : a[i]? = b[i]? := by
  unfold byte at h
  by_cases hi : i < a.size
  · rw [Array.getElem?_eq_getElem hi, Array.getElem?_eq_getElem (hsize ▸ hi)] at h ⊢
    exact congrArg some h
  · rw [Array.getElem?_eq_none (Nat.not_lt.1 hi), Array.getElem?_eq_none (hsize ▸ Nat.not_lt.1 hi)]

/-- **The format and the class are told by the first bytes.** -/
theorem checkIdentification_congr (hsize : a.size = b.size) (h : (Span.mk 0 Header.size).Agrees a b) :
    a.checkIdentification = b.checkIdentification := by
  have hbyte : ∀ i < Header.size, a[i]? = b[i]? := fun i hi => getElem?_congr hsize (by simpa using h i hi)
  have hmagic : (a.extract 0 4).toList = (b.extract 0 4).toList := by
    apply List.ext_getElem?
    intro i
    rw [Array.getElem?_toList, Array.getElem?_toList, Array.getElem?_extract, Array.getElem?_extract, hsize, Nat.zero_add]
    by_cases hi : i < min 4 b.size - 0
    · rw [if_pos hi, if_pos hi, hbyte i (by unfold Header.size; omega)]
    · rw [if_neg hi, if_neg hi]
  rw [checkIdentification, checkIdentification, hmagic, hbyte 4 (by decide)]

theorem hasHeader_congr (hsize : a.size = b.size) (h : (Span.mk 0 Header.size).Agrees a b) : a.hasHeader = b.hasHeader := by
  have h5 : a.byte 5 = b.byte 5 := h 5 (by decide)
  have h6 : a.byte 6 = b.byte 6 := h 6 (by decide)
  rw [hasHeader, hasHeader, hsize, h5, h6]

theorem mem_metadata {p : Span} (hcheck : a.checkIdentification = .ok ()) (hheader : a.hasHeader = true)
    (horder : ByteOrder.ofCode? (a.byte 5) = some o) (hp : p ∈ (Header.read a o).spans a o) : p ∈ a.metadata := by
  unfold metadata
  rw [hcheck, hheader, horder]
  exact List.mem_cons_of_mem _ hp

/-- **The contents are the same**, and so is what is wrong with them. -/
theorem contents_congr (hsize : a.size = b.size) (h : ∀ p ∈ a.metadata, p.Agrees a b) : a.contents = b.contents := by
  have hhead : (Span.mk 0 Header.size).Agrees a b := h _ List.mem_cons_self
  have hcode : a.byte 5 = b.byte 5 := hhead 5 (by decide)
  unfold contents
  rw [← checkIdentification_congr hsize hhead, ← hasHeader_congr hsize hhead, ← hcode]
  cases hcheck : a.checkIdentification with
  | error e => rfl
  | ok _ =>
    by_cases hheader : a.hasHeader = true
    · rw [if_pos hheader, if_pos hheader]
      cases horder : ByteOrder.ofCode? (a.byte 5) with
      | none => rfl
      | some o =>
        have hsections := Header.sections?_congr hsize fun p hp => h p (mem_metadata hcheck hheader horder hp)
        simp only
        rw [← Header.read_congr hhead, ← hsections]
    · rw [if_neg hheader, if_neg hheader]

/-- Contents come from a good header, and from tables that it leads to. -/
theorem of_contents {c : Contents} (hc : a.contents = .ok c) :
    c.header.sections? a c.order = some c.sections ∧ c.header.names? c.sections = some c.names ∧
      ∀ p ∈ c.header.spans a c.order, p ∈ a.metadata := by
  unfold contents at hc
  split at hc
  · cases hc
  · rename_i hcheck
    split at hc
    · rename_i hheader
      split at hc
      · cases hc
      · rename_i o horder
        simp only at hc
        split at hc
        · cases hc
        · rename_i sections hsections
          split at hc
          · cases hc
          · rename_i names hnames
            cases hc
            exact ⟨hsections, hnames, fun p hp => mem_metadata hcheck hheader horder hp⟩
    · cases hc

namespace Contents

variable {c : Contents} (hsize : a.size = b.size) (hsections : c.header.sections? a c.order = some c.sections)
  (hspans : ∀ p ∈ c.header.spans a c.order, p.Agrees a b)
include hsize hsections hspans

theorem tables_congr (hnames : c.header.names? c.sections = some c.names) : c.tables a = c.tables b := by
  apply SymbolTable.all_congr hsize
  · exact fun p hp => hspans p (Header.names_mem_spans hsections hnames hp)
  · exact fun s hs hkind => hspans _ (Header.symbols_mem_spans hsections hs hkind List.mem_cons_self)

/-- **The symbol found is the same one, in the same table.** -/
theorem find?_congr (hnames : c.header.names? c.sections = some c.names) (name : Text) : c.find? a name = c.find? b name := by
  unfold find?
  rw [← tables_congr hsize hsections hspans hnames]
  apply SymbolTable.findIn_congr
  intro t ht
  apply SymbolTable.find?_congr hsize
  intro symbols strings hcontent p hp
  obtain ⟨s, hs, hkind, -, hc⟩ := SymbolTable.mem_all_iff.1 ht
  obtain ⟨hreadable, -⟩ := SymbolTable.content?_eq_some_iff.1 (hc.symm.trans hcontent)
  have hlinked : s.linkedStrings? c.sections = some strings := Section.linkedStrings?_eq_some_iff.2 hreadable.links
  refine hspans p (Header.symbols_mem_spans hsections (List.mem_of_getElem? hs) (by rw [Section.holdsSymbols, hkind]; rfl) ?_)
  rw [Section.symbolSpans, hlinked]
  exact List.mem_cons_of_mem _ hp

omit hsections in
theorem place_congr (t : SymbolTable) (s : Symbol) : c.place a t s = c.place b t s := by
  rw [place, place, Header.segments?_congr hsize hspans]

end Contents

/-- **Where a symbol is depends on nothing but the metadata**: two images of one length that agree on the first 64 bytes, on the
tables of sections and segments, on the sections of symbols and on the strings that name symbols and sections give the same answer
for every name, be it a place or a failure. -/
theorem resolve_of_metadata {a b : Image} (hsize : a.size = b.size) (h : ∀ p ∈ a.metadata, p.Agrees a b) (name : Text) :
    a.resolve name = b.resolve name := by
  unfold resolve
  rw [← contents_congr hsize h]
  cases hc : a.contents with
  | error e => rfl
  | ok c =>
    obtain ⟨hsections, hnames, hmem⟩ := of_contents hc
    have hspans : ∀ p ∈ c.header.spans a c.order, p.Agrees a b := fun p hp => h p (hmem p hp)
    have hfind := Contents.find?_congr hsize hsections hspans hnames name
    simp only [hfind, Contents.place_congr hsize hspans]

/-- The small image with a trap where its code begins. -/
def trapped : Image := (Blueprint.small.image .little).setIfInBounds Blueprint.small.codeAt 0xcc

/-- A trap in the code moves no symbol. -/
theorem resolve_of_metadata_trapped :
    trapped.byte 128 = 0xcc ∧ (Blueprint.small.image .little).byte 128 = 0x90 ∧
      ∀ name, (Blueprint.small.image .little).resolve name = trapped.resolve name := by
  have haway : ∀ p ∈ (Blueprint.small.image .little).metadata,
      Blueprint.small.codeAt < p.start ∨ p.start + p.length ≤ Blueprint.small.codeAt := by decide +kernel
  have hsize : (Blueprint.small.image .little).size = trapped.size := Array.size_setIfInBounds.symm
  exact ⟨by decide +kernel, by decide +kernel, resolve_of_metadata hsize fun p hp => Span.agrees_setIfInBounds (haway p hp) _⟩

end Image
end DelayProbe
