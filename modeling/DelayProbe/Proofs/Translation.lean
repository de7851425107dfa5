import DelayProbe.Proofs.Mention
/-!
# Translation — from an address to a place in the file

The segments of an image are the rows of a table that the header points to (`Header.HasSegments`).  Once a symbol has an
address, the first segment that holds it gives the offset, and nothing that stands before that segment in the table, whether
loaded or not, changes the answer (`Image.resolve_translates`).
-/
namespace DelayProbe

/-! ## The table of segments -/

namespace Header

/-- How many segments there are: the header says it, or, where its field is not wide enough, the first section does. -/
inductive CountsSegments (h : Header) (im : Image) (o : ByteOrder) : Nat → Prop
  | field (hcount : h.segmentCount ≠ 0xffff) : CountsSegments h im o h.segmentCount
  | firstSection (hcount : h.segmentCount = 0xffff) (hat : h.sectionsAt ≠ 0) (hsize : h.sectionSize = Section.width)
      (inside : h.sectionsAt + Section.width ≤ im.size) (aligned : h.sectionsAt % 8 = 0) :
      CountsSegments h im o (Section.read im o h.sectionsAt).info

/-- The table of segments can be read, and these are its rows: there is no table, or it lies in the image, at a multiple of 8,
and has rows of the right width. -/
inductive HasSegments (h : Header) (im : Image) (o : ByteOrder) : List Segment → Prop
  | nowhere (hat : h.segmentsAt = 0) : HasSegments h im o []
  | empty (hat : h.segmentsAt ≠ 0) (hn : h.CountsSegments im o 0) : HasSegments h im o []
  | table {n : Nat} (hat : h.segmentsAt ≠ 0) (hn : h.CountsSegments im o n) (hpos : n ≠ 0)
      (hsize : h.segmentSize = Segment.width) (inside : h.segmentsAt + n * Segment.width ≤ im.size)
      (aligned : h.segmentsAt % 8 = 0) :
      HasSegments h im o ((List.range n).map fun i => Segment.read im o (h.segmentsAt + i * Segment.width))

variable {h : Header} {im : Image} {o : ByteOrder}

theorem holds_iff {start length align : Nat} :
    im.holds start length align = true ↔ start + length ≤ im.size ∧ start % align = 0 := by
  simp [Image.holds]

theorem segmentTotal?_eq_some_iff {n : Nat} : h.segmentTotal? im o = some n ↔ h.CountsSegments im o n := by
  unfold segmentTotal? firstSection?
  constructor
  · intro hn
    split at hn
    · rename_i hcount
      split at hn
      · rename_i s hs
        split at hs
        · cases hs
        · rename_i hat
          split at hs
          · rename_i hin
            obtain ⟨inside, aligned⟩ := holds_iff.1 hin.2
            cases hs
            cases hn
            exact .firstSection hcount hat hin.1 inside aligned
          · cases hs
      · cases hn
    · rename_i hcount
      cases hn
      exact .field hcount
  · intro hn
    cases hn with
    | field hcount => rw [if_neg hcount]
    | firstSection hcount hat hsize inside aligned =>
      rw [if_pos hcount, if_neg hat, if_pos ⟨hsize, holds_iff.2 ⟨inside, aligned⟩⟩]

/-- Rows are read if there are none, or if they have the right width and lie in the image, at a multiple of 8. -/
theorem rows_eq_some_iff {α : Type} (read : Nat → α) (start n : Nat) {size width : Nat} {rows : List α} :
    (if n = 0 then some []
      else if size = width ∧ im.holds start (n * width) 8 then some ((List.range n).map fun i => read (start + i * width))
      else none) = some rows ↔
      n = 0 ∧ rows = [] ∨ (n ≠ 0 ∧ size = width ∧ start + n * width ≤ im.size ∧ start % 8 = 0) ∧
        rows = (List.range n).map fun i => read (start + i * width) := by
  by_cases hn : n = 0
  · simp [hn, eq_comm]
  · rw [if_neg hn, Option.ite_none_right_eq_some, holds_iff, Option.some.injEq]
    simp [hn, eq_comm]

/-- **The table is read exactly if it can be**, row by row. -/
theorem segments?_eq_some_iff {segments : List Segment} :
    h.segments? im o = some segments ↔ h.HasSegments im o segments := by
  unfold segments?
  constructor
  · intro hs
    split at hs
    · rename_i hat
      cases hs
      exact .nowhere hat
    · rename_i hat
      split at hs
      · cases hs
      · rename_i n hn
        have hcounts := segmentTotal?_eq_some_iff.1 hn
        rcases (rows_eq_some_iff (Segment.read im o) h.segmentsAt n).1 hs with
          ⟨rfl, rfl⟩ | ⟨⟨hpos, hsize, inside, aligned⟩, rfl⟩
        · exact .empty hat hcounts
        · exact .table hat hcounts hpos hsize inside aligned
  · intro hs
    cases hs with
    | nowhere hat => rw [if_pos hat]
    | empty hat hn =>
      rw [if_neg hat, segmentTotal?_eq_some_iff.2 hn]
      rfl
    | table hat hn hpos hsize inside aligned =>
      rw [if_neg hat, segmentTotal?_eq_some_iff.2 hn]
      exact (rows_eq_some_iff (Segment.read im o) h.segmentsAt _).2 (.inr ⟨⟨hpos, hsize, inside, aligned⟩, rfl⟩)

end Header

/-! ## The answer -/

namespace Image

variable {c : Contents} {im : Image} {name : Text}

/-- **The address of a symbol is translated exactly.**  Its offset is that of the first loaded segment that holds it, less the
distance to the segment's first address, and nothing is cut off at 64 bits on the way: a segment that would need more holds
nothing.  If no segment holds the address it is not mapped; there is no other way to fail once the table of segments is read. -/
theorem resolve_translates (h : im.contents = .ok c) {m : Mention} (hm : c.First im name m) (hvalue : m.symbol.value ≠ 0)
    (hhome : m.symbol.home ≠ 0) {segments : List Segment} (hsegments : c.header.HasSegments im c.order segments) :
    (∀ p, im.resolve name = .ok p ↔ ∃ s, Segment.FirstHolding segments m.symbol.value s ∧
        p = ⟨s.offset + (m.symbol.value - s.vaddr), m.symbol.value, m.kind, m.tableName.map Utf8.decode⟩) ∧
      ((∃ p, im.resolve name = .ok p) ↔ ∃ s ∈ segments, s.Holds m.symbol.value) ∧
      ∀ u, im.resolve name = .error u ↔ u = .notMapped m.symbol.value ∧ ∀ s ∈ segments, ¬ s.Holds m.symbol.value := by
  have hanswer := resolve_of_first h hm
  rw [Header.segments?_eq_some_iff.2 hsegments] at hanswer
  generalize im.resolve name = answer at hanswer ⊢
  cases hanswer with
  | undefined hundefined => exact absurd hundefined (not_or.2 ⟨hvalue, hhome⟩)
  | notMapped _ _ hnone =>
    refine ⟨fun p => ⟨fun hp => (by cases hp), ?_⟩, ⟨fun ⟨p, hp⟩ => (by cases hp), ?_⟩, fun u => ⟨fun hu => ?_, ?_⟩⟩
    · rintro ⟨s, hs, -⟩
      exact absurd hs.1 (hnone s hs.mem)
    · rintro ⟨s, hs, hholds⟩
      exact absurd hholds (hnone s hs)
    · cases hu
      exact ⟨rfl, hnone⟩
    · rintro ⟨rfl, -⟩
      rfl
  | placed _ _ hs =>
    refine ⟨fun p => ⟨fun hp => ?_, ?_⟩, ⟨fun _ => ⟨_, hs.mem, hs.1⟩, fun _ => ⟨_, rfl⟩⟩,
      fun u => ⟨fun hu => (by cases hu), ?_⟩⟩
    · cases hp
      exact ⟨_, hs, rfl⟩
    · rintro ⟨t, ht, rfl⟩
      rw [ht.offset_eq hs]
    · rintro ⟨-, hnone⟩
      exact absurd hs.1 (hnone _ hs.mem)

end Image

namespace Blueprint

/-- Five segments around the address of a symbol.  The first two would hold it if 64 bits were not all there is, the third ends
there, the fourth holds it, and so does the last. -/
def overlapping : Blueprint :=
  ⟨[⟨0x400000, 0, 0xffffffffffffffff⟩, ⟨0x400000, 0xfffffffffffffff8, 0x1000⟩, ⟨0x400000, 0, 0x10⟩, ⟨0x400010, 0x100, 1⟩,
      ⟨0x400000, 0, 0x1000⟩],
    [⟨.dynamic, [.plain]⟩]⟩

def overlappingContents : Image.Contents := ⟨.little, overlapping.head, overlapping.sections, overlapping.namesRead⟩

end Blueprint

namespace Image

open Blueprint (overlapping overlappingContents contents_image segments?_image drawn_image)

theorem resolve_translates_overlapping :
    ∃ m, overlappingContents.First (overlapping.image .little) ['f'] m ∧ m.symbol.value = 0x400010 ∧ m.symbol.home = 1 ∧
      overlappingContents.header.HasSegments (overlapping.image .little) .little (overlapping.segments.map Load.toSegment) ∧
      (overlapping.image .little).resolve ['f'] = .ok ⟨0x100, 0x400010, .dynamic, some ".dynsym".toList⟩ := by
  let m : Mention := ⟨2, 1, .dynamic, some TableKind.dynamic.tableName.bytes, ⟨1, 1, 0x400010⟩⟩
  have hcontents : (overlapping.image .little).contents = .ok overlappingContents :=
    contents_image (drawn_image .little overlapping) (by decide)
  have hhead : (overlappingContents.mentions (overlapping.image .little) ['f']).head? = some m := by decide +kernel
  have hfirst := Contents.head?_mentions_eq_some_iff.1 hhead
  have hsegments : overlappingContents.header.HasSegments (overlapping.image .little) .little
      (overlapping.segments.map Load.toSegment) :=
    Header.segments?_eq_some_iff.1 (segments?_image (drawn_image .little overlapping) (by decide))
  obtain ⟨hanswer, -, -⟩ := resolve_translates hcontents hfirst (by decide) (by decide) hsegments
  have hholding : Segment.FirstHolding (overlapping.segments.map Load.toSegment) 0x400010 ⟨true, 0x100, 0x400010, 1⟩ :=
    ⟨by decide, (overlapping.segments.take 3).map Load.toSegment, [⟨true, 0, 0x400000, 0x1000⟩], rfl, by decide⟩
  exact ⟨m, hfirst, rfl, rfl, hsegments, (hanswer _).2 ⟨_, hholding, by decide +kernel⟩⟩

end Image
end DelayProbe
