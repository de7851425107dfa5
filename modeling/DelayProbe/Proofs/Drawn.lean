import DelayProbe.Proofs.Layout
/-!
# Drawn — what is read of an image that was drawn up

Every part of a drawn image stands where the header and the tables say (`Blueprint.Drawn`), so the header, the sections, the
names of the sections and the segments are read as they were meant (`Blueprint.contents_image`, `Blueprint.segments?_image`).
One count is not: 65535 segments fit their field, and yet that number there stands for a count kept elsewhere
(`Blueprint.segments?_image_escaped`).
-/
namespace DelayProbe

/-! ## Numbers and lengths -/

theorem le_alignUp (align pos : Nat) : pos ≤ alignUp align pos := Nat.le_add_right _ _

theorem alignUp_eight_mod (pos : Nat) : alignUp 8 pos % 8 = 0 := by
  unfold alignUp
  omega

theorem add_length_padding (align pos : Nat) : pos + (padding align pos).length = alignUp align pos := by
  rw [padding, List.length_replicate, alignUp]

theorem length_flatMap_of_forall {α : Type} {write : α → List UInt8} {w : Nat} :
    ∀ {l : List α}, (∀ x ∈ l, (write x).length = w) → (l.flatMap write).length = l.length * w
  | [], _ => by simp
  | x :: l, h => by
    have ih := length_flatMap_of_forall fun y hy => h y (List.mem_cons_of_mem _ hy)
    rw [List.flatMap_cons, List.length_append, h x List.mem_cons_self, ih, List.length_cons, Nat.succ_mul, Nat.add_comm]

/-! ## The tables of a header -/

namespace Header

variable {h : Header} {im : Image} {o : ByteOrder} {n : Nat}

theorem sections?_eq (hat : h.sectionsAt ≠ 0) (htotal : h.sectionTotal? im o = some n) (hn : n ≠ 0)
    (hsize : h.sectionSize = Section.width) (hholds : im.holds h.sectionsAt (n * Section.width) 8 = true) :
    h.sections? im o = some ((List.range n).map fun i => Section.read im o (h.sectionsAt + i * Section.width)) := by
  rw [sections?, if_neg hat, htotal]
  simp only
  rw [if_neg hn, if_pos ⟨hsize, hholds⟩]

theorem names?_eq {sections : List Section} {s : Section} (hdirect : h.namesIndex ≠ 0xffff) (h0 : h.namesIndex ≠ 0)
    (hs : sections[h.namesIndex]? = some s) (hk : s.kind ≠ .empty) : h.names? sections = s.strings? := by
  cases sections with
  | nil => cases hs
  | cons s0 r => simp only [names?, if_neg hdirect, if_neg h0, hs, if_neg hk]

theorem firstSection?_eq (hat : h.sectionsAt ≠ 0) (hsize : h.sectionSize = Section.width)
    (hholds : im.holds h.sectionsAt Section.width 8 = true) :
    h.firstSection? im o = some (some (Section.read im o h.sectionsAt)) := by
  rw [firstSection?, if_neg hat, if_pos ⟨hsize, hholds⟩]

theorem segmentTotal?_escaped {s : Section} (hcount : h.segmentCount = 0xffff)
    (hs : h.firstSection? im o = some (some s)) : h.segmentTotal? im o = some s.info := by
  rw [segmentTotal?, if_pos hcount, hs]

theorem segments?_zero (hat : h.segmentsAt ≠ 0) (htotal : h.segmentTotal? im o = some 0) :
    h.segments? im o = some [] := by
  rw [segments?, if_neg hat, htotal]
  rfl

theorem segments?_eq (hat : h.segmentsAt ≠ 0) (htotal : h.segmentTotal? im o = some n) (hn : n ≠ 0)
    (hsize : h.segmentSize = Segment.width) (hholds : im.holds h.segmentsAt (n * Segment.width) 8 = true) :
    h.segments? im o = some ((List.range n).map fun i => Segment.read im o (h.segmentsAt + i * Segment.width)) := by
  rw [segments?, if_neg hat, htotal]
  simp only
  rw [if_neg hn, if_pos ⟨hsize, hholds⟩]

end Header

/-! ## Rows -/

namespace SectionRow

theorem length_bytes (o : ByteOrder) (r : SectionRow) : (r.record.bytes o).length = Section.width :=
  Record.length_bytes o r.record

theorem read_eq {im : Image} {o : ByteOrder} {p : Nat} {r : SectionRow} (h : im.Has p (r.record.bytes o))
    (hf : r.record.Fits) : Section.read im o p = r.toSection := by
  have hread := h.fields hf
  simp only [record, Record.placed, List.forall_mem_cons, Nat.add_assoc, Nat.reduceAdd] at hread
  obtain ⟨hname, hkind, -, -, hoffset, hsize, hlink, hinfo, -⟩ := hread
  rw [Section.read, hname, hkind, hoffset, hsize, hlink, hinfo]
  rfl

end SectionRow

namespace SymbolRow

theorem length_bytes (o : ByteOrder) (r : SymbolRow) : (r.record.bytes o).length = Symbol.width :=
  Record.length_bytes o r.record

theorem read_eq {im : Image} {o : ByteOrder} {p : Nat} {r : SymbolRow} (h : im.Has p (r.record.bytes o))
    (hf : r.record.Fits) : Symbol.read im o p = r.toSymbol := by
  have hread := h.fields hf
  simp only [record, Record.placed, List.forall_mem_cons, Nat.add_assoc, Nat.reduceAdd] at hread
  obtain ⟨hname, -, -, hhome, hvalue, -⟩ := hread
  rw [Symbol.read, hname, hhome, hvalue]
  rfl

end SymbolRow

namespace Load

theorem length_bytes (o : ByteOrder) (s : Load) : (s.record.bytes o).length = Segment.width :=
  Record.length_bytes o s.record

theorem fits (s : Load) : s.record.Fits := by
  have hv := s.vaddr.toNat_lt
  have ho := s.offset.toNat_lt
  have hs := s.size.toNat_lt
  intro f hf
  simp only [record, List.mem_cons, List.not_mem_nil, or_false] at hf
  rcases hf with rfl | rfl | rfl | rfl | rfl | rfl | rfl | rfl <;> first | decide | assumption

theorem read_eq {im : Image} {o : ByteOrder} {p : Nat} {s : Load} (h : im.Has p (s.record.bytes o)) :
    Segment.read im o p = s.toSegment := by
  have hread := h.fields s.fits
  simp only [record, Record.placed, List.forall_mem_cons, Nat.add_assoc, Nat.reduceAdd] at hread
  obtain ⟨hkind, -, hoffset, hvaddr, -, -, hsize, -⟩ := hread
  rw [Segment.read, hkind, hoffset, hvaddr, hsize]
  rfl

/-- **A drawn segment places the addresses its load places.** -/
theorem place?_toSegment (s : Load) (v : UInt64) : s.toSegment.place? v.toNat = s.place? v := by
  unfold Segment.place? place?
  refine ite_congr (propext ?_) (fun _ => rfl) fun _ => rfl
  constructor
  · rintro ⟨-, hend, hlo, hhi, hoff⟩
    exact ⟨hlo, hhi, hend, hoff⟩
  · rintro ⟨hlo, hhi, hend, hoff⟩
    exact ⟨rfl, hend, hlo, hhi, hoff⟩

end Load

/-! ## Cursors -/

namespace Listing

theorem add_length_body (o : ByteOrder) (t : Listing) (pos : Nat) : pos + (t.body o pos).length = t.stop pos := by
  have hrows := length_flatMap_of_forall (l := t.rows) fun r _ => r.length_bytes o
  rw [body, List.length_append, List.length_append, hrows, ← Nat.add_assoc, add_length_padding, ← Nat.add_assoc]
  rfl

theorem le_stop (t : Listing) (pos : Nat) : pos ≤ t.stop pos := by
  have h := le_alignUp 8 pos
  unfold stop stringsAt
  omega

end Listing

namespace Cursor

theorem add_length_bodies (o : ByteOrder) : ∀ (ts : List Listing) (c : Cursor),
    c.pos + (c.bodies o ts).length = (c.along ts).pos
  | [], _ => rfl
  | t :: ts, c => by
    have ih := add_length_bodies o ts (c.past t)
    rw [bodies, List.length_append, ← Nat.add_assoc, t.add_length_body]
    exact ih

theorem le_pos_along : ∀ (ts : List Listing) (c : Cursor), c.pos ≤ (c.along ts).pos
  | [], _ => Nat.le_refl _
  | t :: ts, c => Nat.le_trans (t.le_stop c.pos) (le_pos_along ts (c.past t))

theorem index_along : ∀ (ts : List Listing) (c : Cursor), (c.along ts).index = c.index + 2 * ts.length
  | [], _ => rfl
  | t :: ts, c => by
    have ih := index_along ts (c.past t)
    have hpast : (c.past t).index = c.index + 2 := rfl
    have halong : c.along (t :: ts) = (c.past t).along ts := rfl
    rw [halong, ih, hpast, List.length_cons]
    omega

theorem length_rows : ∀ (ts : List Listing) (c : Cursor), (c.rows ts).length = 2 * ts.length
  | [], _ => rfl
  | t :: ts, c => by
    rw [rows, List.length_cons, List.length_cons, length_rows ts, List.length_cons]
    omega

theorem kind_ne_of_mem_rows : ∀ {ts : List Listing} {c : Cursor} {r : SectionRow}, r ∈ c.rows ts →
    r.toSection.kind ≠ .symbolIndexes
  | t :: ts, c, r, h => by
    rw [rows, List.mem_cons, List.mem_cons] at h
    rcases h with rfl | rfl | h
    · show SectionKind.ofCode t.kind.code ≠ .symbolIndexes
      cases t.kind <;> decide
    · show SectionKind.ofCode 3 ≠ .symbolIndexes
      decide
    · exact kind_ne_of_mem_rows h

end Cursor

/-! ## Where the parts stand -/

namespace Blueprint

/-- The parts of an image stand where the blueprint puts them. -/
structure Drawn (o : ByteOrder) (d : Blueprint) (im : Image) : Prop where
  identification : im.Has 0 (identification o)
  header : im.Has 16 (d.header.bytes o)
  segments : im.Has Header.size (d.segments.flatMap fun s => s.record.bytes o)
  bodies : im.Has d.start.pos (d.start.bodies o d.listings)
  names : im.Has d.stop.pos d.sectionNames
  rows : im.Has d.rowsAt (d.rows.flatMap fun r => r.record.bytes o)

theorem width_header (d : Blueprint) : d.header.width = 48 := by simp [header, Record.width]

theorem drawn_image (o : ByteOrder) (d : Blueprint) : d.Drawn o (d.image o) := by
  -- part by part: what is left begins where the part before it ends
  have h0 : (d.image o).Has 0 (d.bytes o) := Image.Has.whole _
  have h1 := h0.right
  have e1 : 0 + (Blueprint.identification o).length = 16 := by cases o <;> rfl
  rw [e1] at h1
  have h2 := h1.right
  have e2 : 16 + (d.header.bytes o).length = Header.size := by rw [Record.length_bytes, width_header, Header.size]
  rw [e2] at h2
  have h3 := h2.right
  have e3 : Header.size + (d.segments.flatMap fun s => s.record.bytes o).length = d.segmentsEnd := by
    rw [length_flatMap_of_forall fun s _ => s.length_bytes o]
    rfl
  rw [e3] at h3
  have h4 := h3.right
  rw [add_length_padding] at h4
  have h5 : (d.image o).Has d.start.pos _ := h4.right
  have h6 := h5.right
  have e6 : d.start.pos + (d.start.bodies o d.listings).length = d.stop.pos := Cursor.add_length_bodies o d.listings d.start
  rw [e6] at h6
  have h7 := h6.right.right
  rw [add_length_padding] at h7
  exact ⟨h0.left, h1.left, h2.left, h5.left, h6.left, h7⟩

theorem segments_ne_nil (d : Blueprint) : d.segments ≠ [] := by
  unfold segments
  cases hl : d.loads with
  | nil => simp
  | cons => simp

theorem index_stop (d : Blueprint) : d.stop.index = 2 + 2 * d.listings.length :=
  Cursor.index_along d.listings d.start

theorem length_rows (d : Blueprint) : d.rows.length = d.stop.index + 1 := by
  rw [rows, List.length_append, List.length_append, Cursor.length_rows, index_stop]
  rfl

theorem getElem?_rows_stop (d : Blueprint) : d.rows[d.stop.index]? = some d.namesRow := by
  have hlen : ([{}, d.codeRow] ++ d.start.rows d.listings).length = d.stop.index := by
    rw [List.length_append, Cursor.length_rows, index_stop]
    rfl
  rw [rows, List.getElem?_append_right (Nat.le_of_eq hlen), hlen, Nat.sub_self]
  rfl

theorem kind_ne_of_mem_rows {d : Blueprint} {r : SectionRow} (h : r ∈ d.rows) : r.toSection.kind ≠ .symbolIndexes := by
  unfold rows at h
  rcases List.mem_append.1 h with h | h
  · rcases List.mem_append.1 h with h | h
    · rw [List.mem_cons, List.mem_singleton] at h
      rcases h with rfl | rfl
      · decide
      · show SectionKind.ofCode 1 ≠ .symbolIndexes
        decide
    · exact Cursor.kind_ne_of_mem_rows h
  · obtain rfl := List.mem_singleton.1 h
    show SectionKind.ofCode 3 ≠ .symbolIndexes
    decide

namespace Fits

variable {d : Blueprint}

theorem rowsAt_lt (h : d.Fits) : d.rowsAt < wordBound := h.1 (8, d.rowsAt) (by simp [Blueprint.header])

theorem rows_lt (h : d.Fits) : d.rows.length < 65536 := h.1 (2, d.rows.length) (by simp [Blueprint.header])

theorem names_lt (h : d.Fits) : d.stop.pos + d.sectionNames.length < wordBound :=
  Nat.lt_of_le_of_lt (le_alignUp 8 _) h.rowsAt_lt

end Fits

/-! ## What is read -/

def head (d : Blueprint) : Header where
  segmentsAt := Header.size
  sectionsAt := d.rowsAt
  segmentSize := Segment.width
  segmentCount := d.segments.length
  sectionSize := Section.width
  sectionCount := d.rows.length
  namesIndex := d.stop.index

def sections (d : Blueprint) : List Section := d.rows.map (·.toSection)

def namesRead (d : Blueprint) : Strings := ⟨some (d.stop.pos, d.stop.pos + d.sectionNames.length)⟩

variable {o : ByteOrder} {d : Blueprint} {im : Image}

theorem head_read (hd : d.Drawn o im) (h : d.Fits) : Header.read im o = d.head := by
  have hread := hd.header.fields h.1
  simp only [header, Record.placed, List.forall_mem_cons, Nat.reduceAdd] at hread
  obtain ⟨-, -, -, -, hsegments, hsections, -, -, hsegmentSize, hsegmentCount, hsectionSize, hsectionCount, hnames, -⟩ :=
    hread
  rw [Header.read, hsegments, hsections, hsegmentSize, hsegmentCount, hsectionSize, hsectionCount, hnames]
  rfl

theorem rowsAt_ne_zero (d : Blueprint) : d.rowsAt ≠ 0 := by
  have h1 := le_alignUp 8 (d.stop.pos + d.sectionNames.length)
  have h2 : 0 < d.sectionNames.length := Nat.succ_pos _
  unfold rowsAt
  omega

theorem segmentsAt_ne_zero (d : Blueprint) : d.head.segmentsAt ≠ 0 := by
  show Header.size ≠ 0
  decide

theorem sections?_head (hd : d.Drawn o im) (h : d.Fits) : d.head.sections? im o = some d.sections := by
  have hcount : d.head.sectionCount ≠ 0 := by
    show d.rows.length ≠ 0
    rw [length_rows]
    exact Nat.succ_ne_zero _
  have htotal : d.head.sectionTotal? im o = some d.rows.length := if_neg hcount
  have hholds := Image.holds_eq_true 8 hd.rows (alignUp_eight_mod _)
  rw [length_flatMap_of_forall fun r _ => r.length_bytes o] at hholds
  have hread := hd.rows.table (fun r _ => r.length_bytes o) fun r hr p hp => r.read_eq hp (h.2.1 r hr)
  rw [Header.sections?_eq (h := d.head) d.rowsAt_ne_zero htotal hcount rfl hholds]
  exact congrArg some hread

theorem names?_head (h : d.Fits) : d.head.names? d.sections = some d.namesRead := by
  have hindex := d.index_stop
  have hrows := h.rows_lt
  rw [length_rows] at hrows
  -- the index is even, so it is not the one that refers to the first section
  have hdirect : d.head.namesIndex ≠ 0xffff := by
    show d.stop.index ≠ 0xffff
    omega
  have h0 : d.head.namesIndex ≠ 0 := by
    show d.stop.index ≠ 0
    omega
  have hs : d.sections[d.head.namesIndex]? = some d.namesRow.toSection := by
    rw [sections, List.getElem?_map]
    exact congrArg (Option.map SectionRow.toSection) d.getElem?_rows_stop
  have hkind : d.namesRow.toSection.kind ≠ .empty := by
    show SectionKind.ofCode 3 ≠ .empty
    decide
  rw [Header.names?_eq hdirect h0 hs hkind]
  exact if_pos h.names_lt

theorem checkIdentification_of_drawn (hd : d.Drawn o im) : im.checkIdentification = .ok () := by
  obtain ⟨before, after, him, hpos⟩ := hd.identification
  rw [List.eq_nil_of_length_eq_zero hpos, List.nil_append] at him
  have hmagic : (im.extract 0 4).toList = Image.magic := by
    rw [Array.toList_extract, him]
    cases o <;> rfl
  have hclass : im[4]? = some Image.class64 := by
    rw [hd.identification.getElem?_eq (i := 4) (by cases o <;> decide)]
    cases o <;> rfl
  rw [Image.checkIdentification, if_neg fun hne => hne hmagic, hclass]
  rfl

theorem byte_order_of_drawn (hd : d.Drawn o im) : im.byte 5 = o.code := by
  rw [hd.identification.byte_eq (i := 5) (by cases o <;> decide)]
  cases o <;> rfl

theorem hasHeader_of_drawn (hd : d.Drawn o im) : im.hasHeader = true := by
  have hsize : Header.size ≤ im.size := by
    have hle := hd.header.le_size
    rw [Record.length_bytes, width_header] at hle
    exact hle
  have hversion : im.byte 6 = 1 := by
    rw [hd.identification.byte_eq (i := 6) (by cases o <;> decide)]
    cases o <;> rfl
  rw [Image.hasHeader, byte_order_of_drawn hd, ByteOrder.ofCode?_code, hversion, decide_eq_true hsize]
  rfl

/-- **The contents of a drawn image are the header, the sections and the names that were written.** -/
theorem contents_image (hd : d.Drawn o im) (h : d.Fits) :
    im.contents = .ok ⟨o, d.head, d.sections, d.namesRead⟩ := by
  rw [Image.contents, checkIdentification_of_drawn hd]
  simp only
  rw [if_pos (hasHeader_of_drawn hd), byte_order_of_drawn hd, ByteOrder.ofCode?_code]
  simp only
  rw [head_read hd h, sections?_head hd h]
  simp only
  rw [names?_head h]

/-- **The segments that are read are those that were written, if there are fewer than 65535.** -/
theorem segments?_image (hd : d.Drawn o im) (hn : d.segments.length ≠ 0xffff) :
    d.head.segments? im o = some (d.segments.map (·.toSegment)) := by
  have htotal : d.head.segmentTotal? im o = some d.segments.length := if_neg hn
  have hcount : d.segments.length ≠ 0 := fun h0 => d.segments_ne_nil (List.eq_nil_of_length_eq_zero h0)
  have hholds := Image.holds_eq_true 8 hd.segments rfl
  rw [length_flatMap_of_forall fun s _ => s.length_bytes o] at hholds
  have hread := hd.segments.table (fun s _ => s.length_bytes o) fun s _ p hp => s.read_eq hp
  rw [Header.segments?_eq (h := d.head) d.segmentsAt_ne_zero htotal hcount rfl hholds]
  exact congrArg some hread

/-- **Of 65535 segments none is read**: the number in the header refers to the first section, where there is none. -/
theorem segments?_image_escaped (hd : d.Drawn o im) (hn : d.segments.length = 0xffff) :
    d.head.segments? im o = some [] := by
  have hfirst : im.Has d.rowsAt (({} : SectionRow).record.bytes o) := Image.Has.left hd.rows
  have hholds := Image.holds_eq_true 8 hfirst (alignUp_eight_mod _)
  rw [SectionRow.length_bytes] at hholds
  have hread : Section.read im o d.rowsAt = ({} : SectionRow).toSection := SectionRow.read_eq hfirst (by decide)
  have hsection : d.head.firstSection? im o = some (some ({} : SectionRow).toSection) :=
    (Header.firstSection?_eq (h := d.head) d.rowsAt_ne_zero rfl hholds).trans (congrArg (fun s => some (some s)) hread)
  have htotal : d.head.segmentTotal? im o = some 0 := Header.segmentTotal?_escaped hn hsection
  exact Header.segments?_zero d.segmentsAt_ne_zero htotal

end Blueprint
end DelayProbe
