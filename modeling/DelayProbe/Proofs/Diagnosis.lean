import DelayProbe.Proofs.Objection
import DelayProbe.Proofs.Translation
/-!
# Diagnosis — what is wrong with an image in which a symbol has no place

An image is looked at from its first bytes on: its format, its class, the file header (`Image.Headed`), the table of sections
and the names in it (`Image.Reads`), the first mention of the symbol, and only then the table of segments.  Each failure says
that everything before it is in order (`Image.Fails`), so an image fails in one way at most, and what comes later hides nothing
that comes first.  An addition passes the failure on as it is, and tells an image of the wrong format from one in which only
the symbol has no place (`Image.resolve_diagnosed`).
-/
namespace DelayProbe

/-! ## The table of sections -/

namespace Header

/-- How many sections there are: the header says it, or, where its field is not wide enough, the first section does. -/
inductive CountsSections (h : Header) (im : Image) (o : ByteOrder) : Nat → Prop
  | field (hcount : h.sectionCount ≠ 0) : CountsSections h im o h.sectionCount
  | firstSection (hcount : h.sectionCount = 0) (hsize : h.sectionSize = Section.width)
      (inside : h.sectionsAt + Section.width ≤ im.size) (aligned : h.sectionsAt % 8 = 0) :
      CountsSections h im o (Section.read im o h.sectionsAt).size

/-- The table of sections can be read, and these are its rows: there is no table, or it lies in the image, at a multiple of 8,
and has rows of the right width. -/
inductive HasSections (h : Header) (im : Image) (o : ByteOrder) : List Section → Prop
  | nowhere (hat : h.sectionsAt = 0) : HasSections h im o []
  | empty (hat : h.sectionsAt ≠ 0) (hn : h.CountsSections im o 0) : HasSections h im o []
  | table {n : Nat} (hat : h.sectionsAt ≠ 0) (hn : h.CountsSections im o n) (hpos : n ≠ 0)
      (hsize : h.sectionSize = Section.width) (inside : h.sectionsAt + n * Section.width ≤ im.size)
      (aligned : h.sectionsAt % 8 = 0) :
      HasSections h im o ((List.range n).map fun i => Section.read im o (h.sectionsAt + i * Section.width))

/-- The index of the section that names the others: the header has it, or, where its field is not wide enough, the first
section does. -/
inductive NamesAt (h : Header) : List Section → Nat → Prop
  | field {sections : List Section} (hindex : h.namesIndex ≠ 0xffff) : NamesAt h sections h.namesIndex
  | firstSection {s : Section} {rest : List Section} (hindex : h.namesIndex = 0xffff) : NamesAt h (s :: rest) s.link

/-- These are the strings that name the sections.  Without sections there is nothing to name, and an empty section names
none. -/
inductive HasNames (h : Header) : List Section → Strings → Prop
  | nowhere : HasNames h [] {}
  | empty {sections : List Section} {i : Nat} {s : Section} (hi : h.NamesAt sections i) (hpos : i ≠ 0)
      (hs : sections[i]? = some s) (hkind : s.kind = .empty) : HasNames h sections {}
  | strings {sections : List Section} {i : Nat} {s : Section} (hi : h.NamesAt sections i) (hpos : i ≠ 0)
      (hs : sections[i]? = some s) (hkind : s.kind ≠ .empty) (hend : s.offset + s.size < wordBound) :
      HasNames h sections ⟨some (s.offset, s.offset + s.size)⟩

variable {h : Header} {im : Image} {o : ByteOrder}

theorem sectionTotal?_eq_some_iff (hat : h.sectionsAt ≠ 0) {n : Nat} :
    h.sectionTotal? im o = some n ↔ h.CountsSections im o n := by
  unfold sectionTotal? firstSection?
  rw [if_neg hat]
  constructor
  · intro hn
    split at hn
    · rename_i hcount
      obtain ⟨s, hs, rfl⟩ := Option.map_eq_some_iff.1 hn
      split at hs
      · rename_i hin
        obtain ⟨inside, aligned⟩ := holds_iff.1 hin.2
        cases hs
        exact .firstSection hcount hin.1 inside aligned
      · cases hs
    · rename_i hcount
      cases hn
      exact .field hcount
  · intro hn
    cases hn with
    | field hcount => rw [if_neg hcount]
    | firstSection hcount hsize inside aligned =>
      rw [if_pos hcount, if_pos ⟨hsize, holds_iff.2 ⟨inside, aligned⟩⟩]
      rfl

/-- **The table is read exactly if it can be**, row by row. -/
theorem sections?_eq_some_iff {sections : List Section} :
    h.sections? im o = some sections ↔ h.HasSections im o sections := by
  unfold sections?
  constructor
  · intro hs
    split at hs
    · rename_i hat
      cases hs
      exact .nowhere hat
    · rename_i hat
      split at hs
      · cases hs
      · rename_i n hn
        have hcounts := (sectionTotal?_eq_some_iff hat).1 hn
        rcases (rows_eq_some_iff (Section.read im o) h.sectionsAt n).1 hs with
          ⟨rfl, rfl⟩ | ⟨⟨hpos, hsize, inside, aligned⟩, rfl⟩
        · exact .empty hat hcounts
        · exact .table hat hcounts hpos hsize inside aligned
  · intro hs
    cases hs with
    | nowhere hat => rw [if_pos hat]
    | empty hat hn =>
      rw [if_neg hat, (sectionTotal?_eq_some_iff hat).2 hn]
      rfl
    | table hat hn hpos hsize inside aligned =>
      rw [if_neg hat, (sectionTotal?_eq_some_iff hat).2 hn]
      exact (rows_eq_some_iff (Section.read im o) h.sectionsAt _).2 (.inr ⟨⟨hpos, hsize, inside, aligned⟩, rfl⟩)

theorem namesAt_cons_iff {s : Section} {rest : List Section} {i : Nat} :
    h.NamesAt (s :: rest) i ↔ (if h.namesIndex = 0xffff then s.link else h.namesIndex) = i := by
  by_cases hindex : h.namesIndex = 0xffff
  · rw [if_pos hindex]
    constructor
    · rintro (hne | -)
      · exact absurd hindex hne
      · rfl
    · rintro rfl
      exact .firstSection hindex
  · rw [if_neg hindex]
    constructor
    · rintro (- | heq)
      · rfl
      · exact absurd heq hindex
    · rintro rfl
      exact .field hindex

/-- **The names are found exactly where they can be.** -/
theorem names?_eq_some_iff {sections : List Section} {names : Strings} :
    h.names? sections = some names ↔ h.HasNames sections names := by
  cases sections with
  | nil =>
    constructor
    · rintro ⟨⟩
      exact .nowhere
    · intro hnames
      cases hnames with
      | nowhere => rfl
      | empty _ _ hs => cases hs
      | strings _ _ hs => cases hs
  | cons s₀ rest =>
    unfold names?
    simp only
    constructor
    · intro hnames
      generalize hi : (if h.namesIndex = 0xffff then s₀.link else h.namesIndex) = i at hnames
      split at hnames
      · cases hnames
      · rename_i hpos
        split at hnames
        · cases hnames
        · rename_i s hs
          split at hnames
          · rename_i hkind
            cases hnames
            exact .empty (namesAt_cons_iff.2 hi) hpos hs hkind
          · rename_i hkind
            unfold Section.strings? at hnames
            split at hnames
            · rename_i hend
              cases hnames
              exact .strings (namesAt_cons_iff.2 hi) hpos hs hkind hend
            · cases hnames
    · intro hnames
      cases hnames with
      | empty hi hpos hs hkind =>
        rw [namesAt_cons_iff.1 hi, if_neg hpos, hs]
        exact if_pos hkind
      | strings hi hpos hs hkind hend =>
        rw [namesAt_cons_iff.1 hi, if_neg hpos, hs]
        simp only [if_neg hkind, Section.strings?, if_pos hend]

end Header

/-! ## The header -/

theorem ByteOrder.ofCode?_eq_some_iff {b : UInt8} {o : ByteOrder} : ofCode? b = some o ↔ b = o.code := by
  constructor
  · intro h
    unfold ofCode? at h
    split at h
    · rename_i hb
      cases h
      exact hb
    · split at h
      · rename_i hb
        cases h
        exact hb
      · cases h
  · rintro rfl
    exact ofCode?_code o

namespace Image

/-- The image starts as every image of this format does. -/
def IsElf (im : Image) : Prop := magic <+: im.toList

/-- The image has 64-bit addresses. -/
def Has64 (im : Image) : Prop := im.IsElf ∧ im[4]? = some class64

/-- There is all of a file header, of the only version there is, and it names the byte order of the image. -/
structure Headed (im : Image) (o : ByteOrder) : Prop where
  has64 : im.Has64
  size_le : Header.size ≤ im.size
  order : im.byte 5 = o.code
  version : im.byte 6 = 1

/-- This is what the image holds up to the names of its sections. -/
structure Reads (im : Image) (c : Contents) : Prop where
  headed : im.Headed c.order
  header_eq : c.header = .read im c.order
  sections : c.header.HasSections im c.order c.sections
  names : c.header.HasNames c.sections c.names

/-- The first mention of the name is of a symbol that is defined, at this address. -/
def Contents.Defines (c : Contents) (im : Image) (name : Text) (vaddr : Nat) : Prop :=
  vaddr ≠ 0 ∧ ∃ m, c.First im name m ∧ m.symbol.value = vaddr ∧ m.symbol.home ≠ 0

/-- Why the symbol has no place in the image.  Everything that comes before what fails is in order. -/
inductive Fails (im : Image) (name : Text) : Unresolved → Prop
  | notElf (h : ¬ im.IsElf) : Fails im name .notElf
  | identification (h : im.toList = magic) : Fails im name (.malformed .identification)
  | unsupportedClass {b : UInt8} (helf : im.IsElf) (hb : im[4]? = some b) (h : b ≠ class64) : Fails im name .unsupportedClass
  | fileHeader (h64 : im.Has64) (h : im.size < Header.size ∨ (∀ o : ByteOrder, im.byte 5 ≠ o.code) ∨ im.byte 6 ≠ 1) :
      Fails im name (.malformed .fileHeader)
  | sectionTable {o : ByteOrder} (hhead : im.Headed o) (h : ∀ c, ¬ im.Reads c) : Fails im name (.malformed .sectionTable)
  | symbolNotFound {c : Contents} (hc : im.Reads c) (h : ∀ v, ¬ c.Defines im name v) : Fails im name .symbolNotFound
  | segmentTable {c : Contents} {v : Nat} (hc : im.Reads c) (hv : c.Defines im name v)
      (h : ∀ segments, ¬ c.header.HasSegments im c.order segments) : Fails im name (.malformed .segmentTable)
  | notMapped {c : Contents} {v : Nat} {segments : List Segment} (hc : im.Reads c) (hv : c.Defines im name v)
      (hsegments : c.header.HasSegments im c.order segments) (h : ∀ s ∈ segments, ¬ s.Holds v) :
      Fails im name (.notMapped v)

variable {im : Image} {name : Text} {c : Contents} {o : ByteOrder}

theorem isElf_iff : im.IsElf ↔ (im.extract 0 4).toList = magic := by
  rw [IsElf, List.prefix_iff_eq_take, Array.toList_extract, List.extract_eq_take_drop, List.drop_zero, eq_comm]
  rfl

/-- An image that has nothing behind its format is just that. -/
theorem IsElf.getElem?_eq_none_iff (h : im.IsElf) : im[4]? = none ↔ im.toList = magic := by
  obtain ⟨rest, hrest⟩ := h
  have hsize : im.size = 4 + rest.length := by
    rw [← Array.length_toList, ← hrest, List.length_append]
    rfl
  rw [Array.getElem?_eq_none_iff, hsize, ← hrest]
  cases rest <;> simp

theorem checkIdentification_of_isElf (h : im.IsElf) {b : UInt8} (hb : im[4]? = some b) :
    im.checkIdentification = if b = class64 then .ok () else .error .unsupportedClass := by
  rw [checkIdentification, if_neg (not_not.2 (isElf_iff.1 h)), hb]

theorem headed_iff : im.Headed o ↔ im.Has64 ∧ im.hasHeader = true ∧ ByteOrder.ofCode? (im.byte 5) = some o := by
  rw [ByteOrder.ofCode?_eq_some_iff, hasHeader, Bool.and_eq_true, Bool.and_eq_true, decide_eq_true_iff, decide_eq_true_iff]
  constructor
  · intro h
    refine ⟨h.has64, ⟨⟨h.size_le, ?_⟩, h.version⟩, h.order⟩
    rw [h.order, ByteOrder.ofCode?_code]
    rfl
  · rintro ⟨h64, ⟨⟨hsize, -⟩, hversion⟩, horder⟩
    exact ⟨h64, hsize, horder, hversion⟩

theorem contents_of_check {u : Unresolved} (h : im.checkIdentification = .error u) : im.contents = .error u := by
  rw [contents, h]

theorem not_headed_iff (h64 : im.Has64) :
    (¬ ∃ o, im.Headed o) ↔ im.size < Header.size ∨ (∀ o : ByteOrder, im.byte 5 ≠ o.code) ∨ im.byte 6 ≠ 1 := by
  have hsome : (∃ o, im.Headed o) ↔ Header.size ≤ im.size ∧ (∃ o : ByteOrder, im.byte 5 = o.code) ∧ im.byte 6 = 1 :=
    ⟨fun ⟨o, h⟩ => ⟨h.size_le, ⟨o, h.order⟩, h.version⟩, fun ⟨hsize, ⟨o, ho⟩, hversion⟩ => ⟨o, h64, hsize, ho, hversion⟩⟩
  rw [hsome, not_and_or, not_and_or, not_exists, Nat.not_le]

theorem contents_of_not_headed (h64 : im.Has64) (h : ¬ ∃ o, im.Headed o) : im.contents = .error (.malformed .fileHeader) := by
  have hnone : im.hasHeader = false := by
    rw [← Bool.not_eq_true]
    intro hheader
    have hparts := hheader
    simp only [hasHeader, Bool.and_eq_true] at hparts
    obtain ⟨o, ho⟩ := Option.isSome_iff_exists.1 hparts.1.2
    exact h ⟨o, headed_iff.2 ⟨h64, hheader, ho⟩⟩
  rw [contents, checkIdentification_of_isElf h64.1 h64.2, if_pos rfl, hnone]
  rfl

/-- What follows a good header is read table by table. -/
theorem contents_of_headed (h : im.Headed o) :
    im.contents = (((Header.read im o).sections? im o).bind fun sections =>
      ((Header.read im o).names? sections).map fun names => ⟨o, .read im o, sections, names⟩).elim
        (.error (.malformed .sectionTable)) .ok := by
  obtain ⟨h64, hheader, horder⟩ := headed_iff.1 h
  rw [contents, checkIdentification_of_isElf h64.1 h64.2, if_pos rfl]
  simp only [hheader, if_true, horder]
  cases (Header.read im o).sections? im o with
  | none => rfl
  | some sections =>
    simp only [Option.bind_some]
    cases (Header.read im o).names? sections <;> rfl

theorem Headed.unique {o' : ByteOrder} (h : im.Headed o) (h' : im.Headed o') : o = o' :=
  Option.some.inj ((headed_iff.1 h).2.2.symm.trans (headed_iff.1 h').2.2)

/-- **What is read is what the image holds.** -/
theorem contents_eq_ok_iff (h : im.Headed o) : im.contents = .ok c ↔ im.Reads c := by
  have hok (x : Option Contents) :
      x.elim (.error (Unresolved.malformed .sectionTable)) .ok = Except.ok c ↔ x = some c := by
    cases x <;> simp
  rw [contents_of_headed h, hok, Option.bind_eq_some_iff]
  simp only [Option.map_eq_some_iff, Header.sections?_eq_some_iff, Header.names?_eq_some_iff]
  constructor
  · rintro ⟨sections, hsections, names, hnames, rfl⟩
    exact ⟨h, rfl, hsections, hnames⟩
  · rintro ⟨hhead, hheader, hsections, hnames⟩
    obtain ⟨order, header, sections, names⟩ := c
    obtain rfl := h.unique hhead
    have hheader : header = .read im o := hheader
    subst hheader
    exact ⟨sections, hsections, names, hnames, rfl⟩

theorem Reads.contents_eq (h : im.Reads c) : im.contents = .ok c := (contents_eq_ok_iff h.headed).2 h

theorem contents_of_unread (hhead : im.Headed o) (h : ∀ c, ¬ im.Reads c) :
    im.contents = .error (.malformed .sectionTable) := by
  obtain ⟨x, hx⟩ : ∃ x : Option Contents, im.contents = x.elim (.error (.malformed .sectionTable)) .ok :=
    ⟨_, contents_of_headed hhead⟩
  cases x with
  | none => exact hx
  | some c => exact absurd ((contents_eq_ok_iff hhead).1 hx) (h c)

/-! ## The failures -/

theorem resolve_of_contents_error {u : Unresolved} (h : im.contents = .error u) (name : Text) :
    im.resolve name = .error u := by
  rw [resolve, h]

theorem resolve_of_undefined (hc : im.Reads c) (h : ∀ v, ¬ c.Defines im name v) :
    im.resolve name = .error .symbolNotFound := by
  by_cases hsome : ∃ m, c.Mentions im name m
  · obtain ⟨m, hm⟩ := Contents.exists_first hsome
    have hundefined : m.symbol.value = 0 ∨ m.symbol.home = 0 := by
      by_contra hdefined
      obtain ⟨hvalue, hhome⟩ := not_or.1 hdefined
      exact h _ ⟨hvalue, m, hm, rfl, hhome⟩
    exact (resolve_of_first hc.contents_eq hm).unique (.undefined hundefined)
  · exact resolve_of_unmentioned hc.contents_eq fun m hm => hsome ⟨m, hm⟩

/-- **What is wrong with an image is what it is refused for.** -/
theorem Fails.resolve_eq {u : Unresolved} (h : im.Fails name u) : im.resolve name = .error u := by
  cases h with
  | notElf h =>
    refine resolve_of_contents_error (contents_of_check ?_) name
    rw [checkIdentification, if_pos fun he => h (isElf_iff.2 he)]
  | identification h =>
    have helf : im.IsElf := ⟨[], (List.append_nil _).trans h.symm⟩
    refine resolve_of_contents_error (contents_of_check ?_) name
    rw [checkIdentification, if_neg (not_not.2 (isElf_iff.1 helf)), helf.getElem?_eq_none_iff.2 h]
  | unsupportedClass helf hb h =>
    refine resolve_of_contents_error (contents_of_check ?_) name
    rw [checkIdentification_of_isElf helf hb, if_neg h]
  | fileHeader h64 h => exact resolve_of_contents_error (contents_of_not_headed h64 ((not_headed_iff h64).2 h)) name
  | sectionTable hhead h => exact resolve_of_contents_error (contents_of_unread hhead h) name
  | symbolNotFound hc h => exact resolve_of_undefined hc h
  | segmentTable hc hv h =>
    obtain ⟨hvalue, m, hm, rfl, hhome⟩ := hv
    have hnone : _ = none :=
      Option.eq_none_iff_forall_ne_some.2 fun segments hs => h segments (Header.segments?_eq_some_iff.1 hs)
    have hanswer := resolve_of_first hc.contents_eq hm
    rw [hnone] at hanswer
    exact hanswer.unique (.unreadable hvalue hhome)
  | notMapped hc hv hsegments h =>
    obtain ⟨hvalue, m, hm, rfl, hhome⟩ := hv
    have hanswer := resolve_of_first hc.contents_eq hm
    rw [Header.segments?_eq_some_iff.2 hsegments] at hanswer
    exact hanswer.unique (.notMapped hvalue hhome h)

theorem exists_resolve_of_holds {v : Nat} {segments : List Segment} (hc : im.Reads c) (hv : c.Defines im name v)
    (hsegments : c.header.HasSegments im c.order segments) {s : Segment} (hs : s ∈ segments) (hholds : s.Holds v) :
    ∃ p, im.resolve name = .ok p := by
  obtain ⟨hvalue, m, hm, rfl, hhome⟩ := hv
  have hanswer := resolve_of_first hc.contents_eq hm
  rw [Header.segments?_eq_some_iff.2 hsegments] at hanswer
  generalize im.resolve name = answer at hanswer ⊢
  cases hanswer with
  | undefined hundefined => exact absurd hundefined (not_or.2 ⟨hvalue, hhome⟩)
  | notMapped _ _ hnone => exact absurd hholds (hnone s hs)
  | placed => exact ⟨_, rfl⟩

/-- **An image in which a symbol has no place fails in some way.** -/
theorem fails_or_resolves (im : Image) (name : Text) : (∃ u, im.Fails name u) ∨ ∃ p, im.resolve name = .ok p := by
  -- one stage after the other: what is in order so far goes into the failure of the next
  by_cases helf : im.IsElf
  case neg => exact .inl ⟨_, .notElf helf⟩
  cases hb : im[4]? with
  | none => exact .inl ⟨_, .identification (helf.getElem?_eq_none_iff.1 hb)⟩
  | some b =>
    by_cases hclass : b = class64
    case neg => exact .inl ⟨_, .unsupportedClass helf hb hclass⟩
    have h64 : im.Has64 := ⟨helf, hclass ▸ hb⟩
    by_cases hhead : ∃ o, im.Headed o
    case neg => exact .inl ⟨_, .fileHeader h64 ((not_headed_iff h64).1 hhead)⟩
    obtain ⟨o, hhead⟩ := hhead
    by_cases hread : ∃ c, im.Reads c
    case neg => exact .inl ⟨_, .sectionTable hhead (not_exists.1 hread)⟩
    obtain ⟨c, hc⟩ := hread
    by_cases hdefined : ∃ v, c.Defines im name v
    case neg => exact .inl ⟨_, .symbolNotFound hc (not_exists.1 hdefined)⟩
    obtain ⟨v, hv⟩ := hdefined
    by_cases htable : ∃ segments, c.header.HasSegments im c.order segments
    case neg => exact .inl ⟨_, .segmentTable hc hv (not_exists.1 htable)⟩
    obtain ⟨segments, hsegments⟩ := htable
    by_cases hmapped : ∃ s ∈ segments, s.Holds v
    case neg => exact .inl ⟨_, .notMapped hc hv hsegments fun s hs hholds => hmapped ⟨s, hs, hholds⟩⟩
    obtain ⟨s, hs, hholds⟩ := hmapped
    exact .inr (exists_resolve_of_holds hc hv hsegments hs hholds)

/-- **A symbol has no place in an image for what is wrong with the image, and for nothing else.** -/
theorem resolve_eq_error_iff {u : Unresolved} : im.resolve name = .error u ↔ im.Fails name u := by
  constructor
  · intro hu
    rcases fails_or_resolves im name with ⟨u', hfails⟩ | ⟨p, hp⟩
    · have hsame := hfails.resolve_eq
      rw [hu] at hsame
      cases hsame
      exact hfails
    · rw [hu] at hp
      cases hp
  · exact Fails.resolve_eq

end Image

/-! ## Additions -/

/-- Why a symbol had no place, where that is what a request was refused for. -/
def Refusal.cause? : Refusal → Option Unresolved
  | .resolutionFailed u | .notExecutable u => some u
  | _ => none

theorem Refusal.cause?_ofUnresolved (u : Unresolved) : (ofUnresolved u).cause? = some u := by
  unfold ofUnresolved
  split <;> rfl

namespace Registry

variable {r : Registry} {key : Key} {delay : UInt64} {e : Refusal}

theorem cause?_of_checkAdd (h : r.checkAdd key delay = .error e) : e.cause? = none := by
  unfold checkAdd Limits.checkDelay checkInsertable at h
  by_cases hdelay : r.limits.longestDelay < delay
  · simp only [if_pos hdelay] at h
    cases h
    rfl
  · simp only [if_neg hdelay] at h
    split at h
    · cases h
      rfl
    · split at h
      · cases h
        rfl
      · cases h

/-- **An addition that gets as far as the image passes on why its symbol has no place there.** -/
theorem add_eq_error_iff {pid : Option UInt32} {u : Unresolved} (he : e.cause? = some u) :
    (r.add key delay pid).reply = .error e ↔
      r.checkAdd key delay = .ok () ∧ (∃ im, r.backend.file? key.path = some im ∧ im.Fails key.symbol u) ∧
        e = .ofUnresolved u := by
  cases hc : r.checkAdd key delay with
  | error e' =>
    rw [add_of_checkAdd hc]
    constructor
    · intro h
      cases h
      rw [cause?_of_checkAdd hc] at he
      cases he
    · rintro ⟨h, -⟩
      cases h
  | ok _ =>
    cases hf : r.backend.file? key.path with
    | none =>
      rw [add_of_no_file hc hf]
      constructor
      · intro h
        cases h
        cases he
      · rintro ⟨-, ⟨im, him, -⟩, -⟩
        cases him
    | some im =>
      cases hu : im.resolve key.symbol with
      | ok p =>
        constructor
        · intro h
          obtain ⟨-, ⟨f, -, hreply, -⟩ | ⟨-, hreply, -⟩⟩ := add_arms hc hf hu pid
          · rw [hreply] at h
            cases h
            cases he
          · rw [hreply] at h
            cases h
        · rintro ⟨-, ⟨im, him, hfails⟩, -⟩
          cases him
          rw [hfails.resolve_eq] at hu
          cases hu
      | error u' =>
        rw [add_of_unresolved hc hf hu]
        constructor
        · intro h
          cases h
          rw [Refusal.cause?_ofUnresolved] at he
          cases he
          exact ⟨rfl, ⟨im, rfl, Image.resolve_eq_error_iff.1 hu⟩, rfl⟩
        · rintro ⟨-, ⟨im, him, hfails⟩, rfl⟩
          cases him
          rw [hfails.resolve_eq] at hu
          cases hu
          rfl

end Registry

/-- **Every symbol without a place in an image is told what is wrong with the image, the first thing first.**  No image is told
that its byte order is unknown, for that is part of the header.  An addition of a target refuses an image of another format or
class as not executable, and refuses it as a failed resolution whatever else is wrong. -/
theorem Image.resolve_diagnosed :
    (∀ (im : Image) (name : Text) (u : Unresolved), im.resolve name = .error u ↔ im.Fails name u) ∧
      (∀ (im : Image) (name : Text), im.resolve name ≠ .error (.malformed .dataEncoding)) ∧
      ∀ (r : Registry) (key : Key) (delay : UInt64) (pid : Option UInt32) (u : Unresolved),
        ((r.add key delay pid).reply = .error (.notExecutable u) ↔
          r.checkAdd key delay = .ok () ∧ (∃ im, r.backend.file? key.path = some im ∧ im.Fails key.symbol u) ∧
            (u = .notElf ∨ u = .unsupportedClass)) ∧
        ((r.add key delay pid).reply = .error (.resolutionFailed u) ↔
          r.checkAdd key delay = .ok () ∧ (∃ im, r.backend.file? key.path = some im ∧ im.Fails key.symbol u) ∧
            ¬ (u = .notElf ∨ u = .unsupportedClass)) ∧
        (Refusal.notExecutable u).errno = .notExecutable ∧ (Refusal.resolutionFailed u).errno = .noEntry := by
  refine ⟨fun _ _ _ => resolve_eq_error_iff, fun _ _ h => (by cases resolve_eq_error_iff.1 h), fun r key delay pid u => ?_⟩
  refine ⟨?_, ?_, rfl, rfl⟩
  · rw [Registry.add_eq_error_iff rfl, Refusal.ofUnresolved_eq]
    split <;> simp [*]
  · rw [Registry.add_eq_error_iff rfl, Refusal.ofUnresolved_eq]
    split <;> simp [*]

/-- The class is looked at before anything is missed that should follow it. -/
example : Image.resolve #[0x7f, 0x45, 0x4c, 0x46, 1] ['f'] = .error .unsupportedClass := by decide

end DelayProbe
