import DelayProbe.Proofs.Agreement
/-!
# Mention — the entries that name a symbol, and the one that decides

A name is mentioned where a readable table of symbols has an entry whose own name is readable and is that name, byte for byte
(`Image.Contents.Mentions`).  Of all mentions in an image the first, by section and then by entry, decides where the symbol is
(`Image.resolve_decided`), and if it gives no address, no later one does.  What is no mention has no say.

An address lies in a loaded segment that holds it.  A segment holds the addresses from its first up to its end, the end itself
excepted, if that end and the file offset of the address can be written in 64 bits (`Segment.Holds`).
-/
namespace DelayProbe

/-! ## Strings -/

namespace Image

variable {im : Image} {pos : Nat} {bs : List UInt8}

theorem has_iff : im.Has pos bs ↔ pos ≤ im.size ∧ bs <+: im.toList.drop pos := by
  constructor
  · rintro ⟨before, after, him, rfl⟩
    have hlen := congrArg List.length him
    rw [Array.length_toList, List.length_append, List.length_append] at hlen
    refine ⟨by omega, after, ?_⟩
    rw [him, List.append_assoc, List.drop_left]
  · rintro ⟨hle, after, h⟩
    refine ⟨im.toList.take pos, after, ?_, ?_⟩
    · rw [List.append_assoc, h, List.take_append_drop]
    · rw [List.length_take, Array.length_toList, Nat.min_eq_left hle]

theorem Has.cons_byte (hlt : pos < im.size) (h : im.Has (pos + 1) bs) : im.Has pos (im.byte pos :: bs) := by
  have hlist : pos < im.toList.length := by rwa [Array.length_toList]
  have hbyte : im.byte pos = im.toList[pos] := by
    rw [byte, Array.getElem?_eq_getElem hlt, Array.getElem_toList]
    rfl
  refine has_iff.2 ⟨Nat.le_of_lt hlt, ?_⟩
  rw [List.drop_eq_getElem_cons hlist, hbyte]
  exact List.cons_prefix_cons.2 ⟨rfl, (has_iff.1 h).2⟩

/-- Bytes that are read up to a zero stand in the image, and the zero behind them. -/
theorem Has.of_untilZero : ∀ {n pos : Nat} {bs : List UInt8}, pos + n ≤ im.size → im.untilZero n pos = some bs →
    bs.length < n ∧ im.Has pos (bs ++ [0]) ∧ 0 ∉ bs
  | 0, _, _, _, h => by cases h
  | n + 1, pos, bs, hle, h => by
    rw [untilZero] at h
    by_cases hzero : im.byte pos = 0
    · rw [if_pos hzero] at h
      cases h
      have hhere := Has.cons_byte (by omega) (has_iff.2 ⟨(by omega : pos + 1 ≤ im.size), List.nil_prefix⟩)
      rw [hzero] at hhere
      exact ⟨Nat.succ_pos n, hhere, List.not_mem_nil⟩
    · rw [if_neg hzero] at h
      obtain ⟨rest, hrest, rfl⟩ := Option.map_eq_some_iff.1 h
      obtain ⟨hlt, hhas, hnot⟩ := of_untilZero (by omega) hrest
      refine ⟨Nat.succ_lt_succ hlt, Has.cons_byte (by omega) hhas, fun hm => ?_⟩
      rcases List.mem_cons.1 hm with he | hm
      · exact hzero he.symm
      · exact hnot hm

end Image

/-- **A string is read at an offset exactly if it stands there**, has no zero byte in it, and has one behind it. -/
theorem Strings.get?_eq_some_iff {s : Strings} {im : Image} {k : Nat} {bs : List UInt8} :
    s.get? im k = some bs ↔ s.Has im k (bs ++ [0]) ∧ 0 ∉ bs := by
  refine ⟨fun h => ?_, fun ⟨h, h0⟩ => h.get?_eq h0⟩
  rw [get?, Option.bind_eq_some_iff] at h
  obtain ⟨⟨start, stop⟩, hrange, h⟩ := h
  simp only at h
  split at h
  · rename_i hin
    obtain ⟨hlt, hhas, hnot⟩ := Image.Has.of_untilZero (by omega) h
    refine ⟨⟨start, stop, hrange, hin.2, hhas, ?_⟩, hnot⟩
    rw [List.length_append, List.length_singleton]
    omega
  · cases h

/-! ## Tables -/

namespace Section

/-- The strings that name the entries of a section of symbols: none at all, or those of the section it links to. -/
inductive Links (sections : List Section) (s : Section) : Strings → Prop
  | nowhere (hlink : s.link = 0) : Links sections s {}
  | strings {t : Section} (hlink : s.link ≠ 0) (ht : sections[s.link]? = some t) (hkind : t.kind = .strings)
      (hend : t.offset + t.size < wordBound) : Links sections s ⟨some (t.offset, t.offset + t.size)⟩

theorem linkedStrings?_eq_some_iff {sections : List Section} {s : Section} {strings : Strings} :
    s.linkedStrings? sections = some strings ↔ s.Links sections strings := by
  constructor
  · intro h
    unfold linkedStrings? at h
    split at h
    · rename_i hlink
      cases h
      exact .nowhere hlink
    · rename_i hlink
      split at h
      · cases h
      · rename_i t ht
        split at h
        · rename_i hkind
          unfold strings? at h
          split at h
          · rename_i hend
            cases h
            exact .strings hlink ht hkind hend
          · cases h
        · cases h
  · intro h
    unfold linkedStrings?
    cases h with
    | nowhere hlink => rw [if_pos hlink]
    | strings hlink ht hkind hend =>
      rw [if_neg hlink, ht]
      simp only
      rw [if_pos hkind, strings?, if_pos hend]

/-- The section at `index` holds symbols that can be read, and `strings` are their names. -/
structure Readable (im : Image) (sections : List Section) (index : Nat) (s : Section) (strings : Strings) : Prop where
  inside : s.offset + s.size ≤ im.size
  aligned : s.offset % 8 = 0
  whole : s.size % Symbol.width = 0
  links : s.Links sections strings
  indexes : ∀ t ∈ sections, t.kind = .symbolIndexes → t.link = index →
    t.offset + t.size ≤ im.size ∧ t.offset % 4 = 0 ∧ t.size % 4 = 0

theorem isArray_iff {s : Section} {im : Image} {width align : Nat} :
    s.isArray im width align = true ↔ s.offset + s.size ≤ im.size ∧ s.offset % align = 0 ∧ s.size % width = 0 := by
  simp [isArray, Image.holds, and_assoc]

theorem indexesReadable_iff {im : Image} {sections : List Section} {index : Nat} :
    indexesReadable im sections index = true ↔ ∀ t ∈ sections, t.kind = .symbolIndexes → t.link = index →
      t.offset + t.size ≤ im.size ∧ t.offset % 4 = 0 ∧ t.size % 4 = 0 := by
  simp only [indexesReadable, List.all_eq_true, Bool.or_eq_true, Bool.not_eq_true', Bool.and_eq_false_imp, decide_eq_true_eq,
    decide_eq_false_iff_not, isArray_iff]
  refine forall₂_congr fun t _ => ?_
  by_cases hkind : t.kind = .symbolIndexes <;> by_cases hlink : t.link = index <;> simp [hkind, hlink]

end Section

namespace SymbolTable

variable {im : Image} {o : ByteOrder} {sections : List Section}

/-- **A table has content exactly if it is readable**, and then it is the entries of the section, one after the other. -/
theorem content?_eq_some_iff {index : Nat} {s : Section} {symbols : List Symbol} {strings : Strings} :
    content? im o sections index s = some (symbols, strings) ↔
      s.Readable im sections index strings ∧
        symbols = (List.range (s.size / Symbol.width)).map fun i => Symbol.read im o (s.offset + i * Symbol.width) := by
  unfold content?
  constructor
  · intro h
    split at h
    · rename_i hin
      obtain ⟨strings, hstrings, he⟩ := Option.map_eq_some_iff.1 h
      cases he
      obtain ⟨hinside, haligned, hwhole⟩ := Section.isArray_iff.1 hin.1
      exact ⟨⟨hinside, haligned, hwhole, Section.linkedStrings?_eq_some_iff.1 hstrings, Section.indexesReadable_iff.1 hin.2⟩,
        rfl⟩
    · cases h
  · rintro ⟨h, rfl⟩
    have hin := And.intro (Section.isArray_iff.2 ⟨h.inside, h.aligned, h.whole⟩) (Section.indexesReadable_iff.2 h.indexes)
    rw [if_pos hin, Section.linkedStrings?_eq_some_iff.2 h.links]
    rfl

theorem mem_all_iff {names : Strings} {t : SymbolTable} :
    t ∈ all im o sections names ↔ ∃ s, sections[t.index]? = some s ∧ TableKind.ofSection? s.kind = some t.kind ∧
      t.name = names.get? im s.name ∧ t.content = content? im o sections t.index s := by
  rw [all_eq, List.mem_filterMap]
  constructor
  · rintro ⟨⟨s, i⟩, hs, ht⟩
    obtain ⟨k, hk, rfl⟩ := Option.map_eq_some_iff.1 ht
    exact ⟨s, List.mk_mem_zipIdx_iff_getElem?.1 hs, hk, rfl, rfl⟩
  · rintro ⟨s, hs, hk, hname, hcontent⟩
    refine ⟨(s, t.index), List.mk_mem_zipIdx_iff_getElem?.2 hs, ?_⟩
    rw [ofSection?, hk, Option.map_some, ← hname, ← hcontent]

end SymbolTable

theorem pairwise_zipIdx {α : Type} (l : List α) : l.zipIdx.Pairwise fun a b => a.2 < b.2 := by
  rw [← List.pairwise_map, List.zipIdx_map_snd]
  exact List.pairwise_lt_range' 1

theorem SymbolTable.pairwise_all (im : Image) (o : ByteOrder) (sections : List Section) (names : Strings) :
    (all im o sections names).Pairwise fun a b => a.index < b.index := by
  rw [all_eq, List.pairwise_filterMap]
  refine (pairwise_zipIdx sections).imp fun {p q} hlt t ht u hu => ?_
  obtain ⟨k, -, rfl⟩ := Option.map_eq_some_iff.1 ht
  obtain ⟨k', -, rfl⟩ := Option.map_eq_some_iff.1 hu
  exact hlt

/-! ## Mentions -/

/-- The head of a list in order is the member that is before all others. -/
theorem head?_eq_some_iff_of_pairwise {α : Type} {R : α → α → Prop} (hasymm : ∀ a b, R a b → ¬ R b a) {l : List α}
    (hl : l.Pairwise R) {a : α} : l.head? = some a ↔ a ∈ l ∧ ∀ b ∈ l, b ≠ a → R a b := by
  cases l with
  | nil => exact ⟨fun h => (by cases h), fun h => absurd h.1 List.not_mem_nil⟩
  | cons x rest =>
    rw [List.head?_cons, Option.some.injEq]
    constructor
    · rintro rfl
      exact ⟨List.mem_cons_self, fun b hb hne => List.rel_of_pairwise_cons hl ((List.mem_cons.1 hb).resolve_left hne)⟩
    · rintro ⟨hmem, hleast⟩
      rcases List.mem_cons.1 hmem with rfl | hmem
      · rfl
      · have hbefore := List.rel_of_pairwise_cons hl hmem
        refine Classical.byContradiction fun hne => ?_
        exact hasymm _ _ hbefore (hleast x List.mem_cons_self hne)

/-! ## Segments -/

namespace Segment

/-- The address lies in the segment as it is loaded, and so does its offset in what 64 bits can write. -/
structure Holds (s : Segment) (vaddr : Nat) : Prop where
  loaded : s.isLoaded = true
  start_le : s.vaddr ≤ vaddr
  lt_end : vaddr < s.vaddr + s.size
  end_fits : s.vaddr + s.size < wordBound
  offset_fits : s.offset + (vaddr - s.vaddr) < wordBound

/-- The segment holds the address, and none before it in the table does. -/
def FirstHolding (segments : List Segment) (vaddr : Nat) (s : Segment) : Prop :=
  s.Holds vaddr ∧ ∃ before after, segments = before ++ s :: after ∧ ∀ t ∈ before, ¬ t.Holds vaddr

variable {s : Segment} {segments : List Segment} {vaddr offset : Nat}

theorem holds_iff : s.Holds vaddr ↔
    s.isLoaded ∧ s.vaddr + s.size < wordBound ∧ s.vaddr ≤ vaddr ∧ vaddr < s.vaddr + s.size ∧
      s.offset + (vaddr - s.vaddr) < wordBound :=
  ⟨fun h => ⟨h.loaded, h.end_fits, h.start_le, h.lt_end, h.offset_fits⟩,
    fun ⟨hl, he, hs, hlt, ho⟩ => ⟨hl, hs, hlt, he, ho⟩⟩

instance (s : Segment) (vaddr : Nat) : Decidable (s.Holds vaddr) := decidable_of_iff _ holds_iff.symm

theorem place?_eq_some_iff : s.place? vaddr = some offset ↔ s.Holds vaddr ∧ s.offset + (vaddr - s.vaddr) = offset := by
  unfold place?
  rw [Option.ite_none_right_eq_some, Option.some.injEq, holds_iff]

theorem place?_eq_none_iff : s.place? vaddr = none ↔ ¬ s.Holds vaddr := by
  rw [Option.eq_none_iff_forall_ne_some]
  exact ⟨fun h hs => h _ (place?_eq_some_iff.2 ⟨hs, rfl⟩), fun h _ hs => h (place?_eq_some_iff.1 hs).1⟩

/-- **Segments are searched for the first that holds the address.** -/
theorem findSome?_place?_eq_some_iff : segments.findSome? (·.place? vaddr) = some offset ↔
    ∃ s, FirstHolding segments vaddr s ∧ s.offset + (vaddr - s.vaddr) = offset := by
  rw [List.findSome?_eq_some_iff]
  constructor
  · rintro ⟨before, s, after, hsplit, hplace, hbefore⟩
    obtain ⟨hs, ho⟩ := place?_eq_some_iff.1 hplace
    exact ⟨s, ⟨hs, before, after, hsplit, fun t ht => place?_eq_none_iff.1 (hbefore t ht)⟩, ho⟩
  · rintro ⟨s, ⟨hs, before, after, hsplit, hbefore⟩, ho⟩
    exact ⟨before, s, after, hsplit, place?_eq_some_iff.2 ⟨hs, ho⟩, fun t ht => place?_eq_none_iff.2 (hbefore t ht)⟩

/-- The first segment that holds the address gives one offset. -/
theorem FirstHolding.offset_eq {t : Segment} (h : FirstHolding segments vaddr s) (h' : FirstHolding segments vaddr t) :
    s.offset + (vaddr - s.vaddr) = t.offset + (vaddr - t.vaddr) := by
  have hs := findSome?_place?_eq_some_iff.2 ⟨s, h, rfl⟩
  have ht := findSome?_place?_eq_some_iff.2 ⟨t, h', rfl⟩
  exact Option.some.inj (hs.symm.trans ht)

theorem FirstHolding.mem (h : FirstHolding segments vaddr s) : s ∈ segments := by
  obtain ⟨-, before, after, rfl, -⟩ := h
  exact List.mem_append_right _ List.mem_cons_self

end Segment

/-! ## Mentions -/

/-- An entry of a table of symbols: which section and which entry it is, the kind of the section and its name, and what the
entry says. -/
structure Mention where
  table : Nat
  index : Nat
  kind : TableKind
  tableName : Option (List UInt8)
  symbol : Symbol
  deriving DecidableEq, Repr

namespace Mention

/-- In an earlier section, or in the same section and earlier there. -/
def Before (a b : Mention) : Prop := a.table < b.table ∨ a.table = b.table ∧ a.index < b.index

theorem Before.not_before {a b : Mention} (h : a.Before b) : ¬ b.Before a := by
  unfold Before at *
  omega

/-- The answers that an entry can lead to, by the segments of the image if these can be read.  The first segment that holds
its address gives the offset. -/
inductive Answered (m : Mention) : Option (List Segment) → Except Unresolved Place → Prop
  | undefined {segments : Option (List Segment)} (h : m.symbol.value = 0 ∨ m.symbol.home = 0) :
      Answered m segments (.error .symbolNotFound)
  | unreadable (hvalue : m.symbol.value ≠ 0) (hhome : m.symbol.home ≠ 0) : Answered m none (.error (.malformed .segmentTable))
  | notMapped {segments : List Segment} (hvalue : m.symbol.value ≠ 0) (hhome : m.symbol.home ≠ 0)
      (h : ∀ s ∈ segments, ¬ s.Holds m.symbol.value) :
      Answered m (some segments) (.error (.notMapped m.symbol.value))
  | placed {segments : List Segment} {s : Segment} (hvalue : m.symbol.value ≠ 0) (hhome : m.symbol.home ≠ 0)
      (h : Segment.FirstHolding segments m.symbol.value s) :
      Answered m (some segments)
        (.ok ⟨s.offset + (m.symbol.value - s.vaddr), m.symbol.value, m.kind, m.tableName.map Utf8.decode⟩)

/-- An entry leads to one answer. -/
theorem Answered.unique {m : Mention} {segments : Option (List Segment)} {a b : Except Unresolved Place}
    (ha : m.Answered segments a) (hb : m.Answered segments b) : a = b := by
  cases ha with
  | undefined h =>
    cases hb with
    | undefined => rfl
    | unreadable hvalue hhome | notMapped hvalue hhome | placed hvalue hhome => exact absurd h (not_or.2 ⟨hvalue, hhome⟩)
  | unreadable hvalue hhome =>
    cases hb with
    | undefined h => exact absurd h (not_or.2 ⟨hvalue, hhome⟩)
    | unreadable => rfl
  | notMapped hvalue hhome hnone =>
    cases hb with
    | undefined h => exact absurd h (not_or.2 ⟨hvalue, hhome⟩)
    | notMapped => rfl
    | placed _ _ hs => exact absurd hs.1 (hnone _ hs.mem)
  | placed hvalue hhome hs =>
    cases hb with
    | undefined h => exact absurd h (not_or.2 ⟨hvalue, hhome⟩)
    | notMapped _ _ hnone => exact absurd hs.1 (hnone _ hs.mem)
    | placed _ _ ht => rw [hs.offset_eq ht]

end Mention

namespace SymbolTable

variable {im : Image} {name : List UInt8}

/-- The entries of a table with a name. -/
def mentions (im : Image) (name : List UInt8) (t : SymbolTable) : List Mention :=
  t.content.elim [] fun (symbols, strings) =>
    (symbols.zipIdx.filter fun p => decide (strings.get? im p.1.name = some name)).map fun p =>
      ⟨t.index, p.2, t.kind, t.name, p.1⟩

theorem mem_mentions_iff {t : SymbolTable} {m : Mention} :
    m ∈ t.mentions im name ↔ (m.table = t.index ∧ m.kind = t.kind ∧ m.tableName = t.name) ∧
      ∃ symbols strings, t.content = some (symbols, strings) ∧ symbols[m.index]? = some m.symbol ∧
        strings.get? im m.symbol.name = some name := by
  unfold mentions
  cases hcontent : t.content with
  | none => simp
  | some c =>
    obtain ⟨symbols, strings⟩ := c
    simp only [Option.elim_some, List.mem_map, List.mem_filter, List.mem_zipIdx_iff_getElem?, decide_eq_true_eq]
    constructor
    · rintro ⟨⟨symbol, i⟩, ⟨hi, hget⟩, rfl⟩
      exact ⟨⟨rfl, rfl, rfl⟩, symbols, strings, rfl, hi, hget⟩
    · rintro ⟨⟨htable, hkind, hname⟩, _, _, he, hi, hget⟩
      cases he
      refine ⟨(m.symbol, m.index), ⟨hi, hget⟩, ?_⟩
      rw [← htable, ← hkind, ← hname]

theorem pairwise_mentions (t : SymbolTable) : (t.mentions im name).Pairwise Mention.Before := by
  unfold mentions
  cases t.content with
  | none => exact List.Pairwise.nil
  | some c => exact ((pairwise_zipIdx c.1).filter _).map _ fun _ _ hlt => .inr ⟨rfl, hlt⟩

/-- **A table is searched for its first mention.** -/
theorem head?_mentions (t : SymbolTable) :
    (t.mentions im name).head?.map (fun m => (m.kind, m.tableName, m.symbol)) =
      (t.find? im name).map fun s => (t.kind, t.name, s) := by
  unfold mentions find?
  cases t.content with
  | none => rfl
  | some c =>
    obtain ⟨symbols, strings⟩ := c
    simp only [Option.elim_some, Option.bind_some]
    conv => rhs; rw [← List.zipIdx_map_fst 0 symbols, List.find?_map]
    rw [List.head?_map, List.head?_filter, Option.map_map, Option.map_map]
    rfl

end SymbolTable

namespace Image
namespace Contents

variable {c : Contents} {im : Image} {name : Text} {m : Mention}

/-- The entry is in a section of symbols that can be read, and its own name can be read and is that name. -/
def Mentions (c : Contents) (im : Image) (name : Text) (m : Mention) : Prop :=
  ∃ s strings, c.sections[m.table]? = some s ∧ TableKind.ofSection? s.kind = some m.kind ∧
    m.tableName = c.names.get? im s.name ∧ s.Readable im c.sections m.table strings ∧ m.index < s.size / Symbol.width ∧
    m.symbol = Symbol.read im c.order (s.offset + m.index * Symbol.width) ∧
    strings.Has im m.symbol.name name.ended ∧ 0 ∉ name.bytes

/-- The entry mentions the name before any other that does. -/
structure First (c : Contents) (im : Image) (name : Text) (m : Mention) : Prop where
  mentions : c.Mentions im name m
  least : ∀ m', c.Mentions im name m' → m' ≠ m → m.Before m'

theorem First.unique {m' : Mention} (h : c.First im name m) (h' : c.First im name m') : m' = m := by
  by_cases hne : m' = m
  · exact hne
  · exact absurd (h'.least m h.mentions (Ne.symm hne)) (h.least m' h'.mentions hne).not_before

/-- The mentions of a name, table by table. -/
def mentions (c : Contents) (im : Image) (name : Text) : List Mention := (c.tables im).flatMap (·.mentions im name.bytes)

theorem mem_mentions_iff : m ∈ c.mentions im name ↔ c.Mentions im name m := by
  unfold mentions Mentions tables
  simp only [List.mem_flatMap, SymbolTable.mem_all_iff, SymbolTable.mem_mentions_iff, Strings.get?_eq_some_iff]
  constructor
  · rintro ⟨t, ⟨s, hs, hkind, hname, hcontent⟩, ⟨htable, hk, hn⟩, symbols, strings, hc, hi, hhas, hnot⟩
    obtain ⟨hreadable, rfl⟩ := SymbolTable.content?_eq_some_iff.1 (hcontent.symm.trans hc)
    obtain ⟨hlt, hsymbol⟩ := List.getElem?_eq_some_iff.1 hi
    rw [List.length_map, List.length_range] at hlt
    rw [List.getElem_map, List.getElem_range] at hsymbol
    rw [← htable] at hs hreadable
    exact ⟨s, strings, hs, hk ▸ hkind, hn.trans hname, hreadable, hlt, hsymbol.symm, hhas, hnot⟩
  · rintro ⟨s, strings, hs, hkind, hname, hreadable, hlt, hsymbol, hhas, hnot⟩
    refine ⟨⟨m.table, m.kind, m.tableName, SymbolTable.content? im c.order c.sections m.table s⟩,
      ⟨s, hs, hkind, hname, rfl⟩, ⟨rfl, rfl, rfl⟩, _, strings, SymbolTable.content?_eq_some_iff.2 ⟨hreadable, rfl⟩, ?_, hhas,
      hnot⟩
    rw [List.getElem?_map, List.getElem?_range hlt, Option.map_some, ← hsymbol]

theorem pairwise_mentions (c : Contents) (im : Image) (name : Text) : (c.mentions im name).Pairwise Mention.Before := by
  refine List.pairwise_flatMap.2 ⟨fun t _ => t.pairwise_mentions, ?_⟩
  refine (SymbolTable.pairwise_all im c.order c.sections c.names).imp fun {t u} hlt a ha b hb => .inl ?_
  rw [(SymbolTable.mem_mentions_iff.1 ha).1.1, (SymbolTable.mem_mentions_iff.1 hb).1.1]
  exact hlt

/-- **The first of the list is the first there is.** -/
theorem head?_mentions_eq_some_iff : (c.mentions im name).head? = some m ↔ c.First im name m := by
  rw [head?_eq_some_iff_of_pairwise (fun _ _ h => h.not_before) (pairwise_mentions c im name), mem_mentions_iff]
  constructor
  · exact fun ⟨hm, hleast⟩ => ⟨hm, fun m' hm' => hleast m' (mem_mentions_iff.2 hm')⟩
  · exact fun h => ⟨h.mentions, fun m' hm' => h.least m' (mem_mentions_iff.1 hm')⟩

theorem first_of_mentions_eq {m' : Mention} {rest : List Mention} (h : c.mentions im name = m :: m' :: rest) :
    c.First im name m ∧ c.Mentions im name m' ∧ m.Before m' := by
  have hpairwise := pairwise_mentions c im name
  rw [h] at hpairwise
  refine ⟨head?_mentions_eq_some_iff.1 (congrArg List.head? h), mem_mentions_iff.1 ?_,
    List.rel_of_pairwise_cons hpairwise List.mem_cons_self⟩
  rw [h]
  exact List.mem_cons_of_mem _ List.mem_cons_self

theorem head?_mentions (c : Contents) (im : Image) (name : Text) :
    (c.mentions im name).head?.map (fun m => (m.kind, m.tableName, m.symbol)) =
      (c.find? im name).map fun p => (p.1.kind, p.1.name, p.2) := by
  unfold mentions find? SymbolTable.findIn
  rw [List.head?_flatMap, List.map_findSome?, List.map_findSome?]
  refine congrArg (fun f => (c.tables im).findSome? f) (funext fun t => ?_)
  rw [Function.comp_apply, Function.comp_apply, SymbolTable.head?_mentions, Option.map_map]
  rfl

theorem find?_eq_none_iff : c.find? im name = none ↔ ∀ m, ¬ c.Mentions im name m := by
  have hhead := head?_mentions c im name
  rw [← Option.map_eq_none_iff, ← hhead, Option.map_eq_none_iff, List.head?_eq_none_iff, List.eq_nil_iff_forall_not_mem]
  exact forall_congr' fun m => not_congr mem_mentions_iff

/-- **What is found is what the first mention says.** -/
theorem find?_of_first (h : c.First im name m) :
    ∃ t, c.find? im name = some (t, m.symbol) ∧ t.kind = m.kind ∧ t.name = m.tableName := by
  have hhead := head?_mentions c im name
  rw [head?_mentions_eq_some_iff.2 h, Option.map_some] at hhead
  obtain ⟨⟨t, s⟩, hfind, he⟩ := Option.map_eq_some_iff.1 hhead.symm
  simp only [Prod.mk.injEq] at he
  obtain ⟨hkind, hname, rfl⟩ := he
  exact ⟨t, hfind, hkind, hname⟩

theorem exists_first (h : ∃ m, c.Mentions im name m) : ∃ m, c.First im name m := by
  obtain ⟨m, hm⟩ := h
  cases hlist : c.mentions im name with
  | nil =>
    have hmem := mem_mentions_iff.2 hm
    rw [hlist] at hmem
    cases hmem
  | cons m rest => exact ⟨m, head?_mentions_eq_some_iff.1 (by rw [hlist]; rfl)⟩

/-- **Where a mention is placed is one of the answers it can lead to.** -/
theorem answered_place {t : SymbolTable} (hvalue : m.symbol.value ≠ 0) (hhome : m.symbol.home ≠ 0) (hkind : t.kind = m.kind)
    (hname : t.name = m.tableName) : m.Answered (c.header.segments? im c.order) (c.place im t m.symbol) := by
  unfold place
  cases c.header.segments? im c.order with
  | none => exact .unreadable hvalue hhome
  | some segments =>
    simp only
    cases hplace : segments.findSome? (·.place? m.symbol.value) with
    | none =>
      refine .notMapped hvalue hhome fun s hs => ?_
      exact Segment.place?_eq_none_iff.1 (List.findSome?_eq_none_iff.1 hplace s hs)
    | some offset =>
      obtain ⟨s, hs, rfl⟩ := Segment.findSome?_place?_eq_some_iff.1 hplace
      simp only [hkind, hname]
      exact .placed hvalue hhome hs

end Contents

variable {c : Contents} {im : Image} {name : Text}

theorem resolve_of_contents (h : im.contents = .ok c) (name : Text) :
    im.resolve name = (c.find? im name).elim (.error .symbolNotFound) fun p =>
      if p.2.isDefined then c.place im p.1 p.2 else .error .symbolNotFound := by
  unfold resolve
  rw [h]
  cases hfind : c.find? im name with
  | none => simp only [hfind, Option.elim_none]
  | some p => simp only [hfind, Option.elim_some]

theorem resolve_of_unmentioned (h : im.contents = .ok c) (hnone : ∀ m, ¬ c.Mentions im name m) :
    im.resolve name = .error .symbolNotFound := by
  rw [resolve_of_contents h, Contents.find?_eq_none_iff.2 hnone, Option.elim_none]

theorem resolve_of_first {m : Mention} (h : im.contents = .ok c) (hm : c.First im name m) :
    m.Answered (c.header.segments? im c.order) (im.resolve name) := by
  obtain ⟨t, hfind, hkind, hname⟩ := Contents.find?_of_first hm
  rw [resolve_of_contents h, hfind, Option.elim_some]
  by_cases hvalue : m.symbol.value = 0
  · rw [if_neg (by simp [Symbol.isDefined, hvalue])]
    exact .undefined (.inl hvalue)
  · by_cases hhome : m.symbol.home = 0
    · rw [if_neg (by simp [Symbol.isDefined, hhome])]
      exact .undefined (.inr hhome)
    · rw [if_pos (by simp [Symbol.isDefined, hvalue, hhome])]
      exact Contents.answered_place hvalue hhome hkind hname

/-- **The first mention of a name decides where it is.**  If there is none, or the first gives no address, the symbol is not
found, whatever the later ones say; otherwise its address is placed in the segments.  Nothing but the mentions of the name and
the segments has a say: where these are the same, so is the answer. -/
theorem resolve_decided (h : im.contents = .ok c) (name : Text) :
    ((∀ m, ¬ c.Mentions im name m) → im.resolve name = .error .symbolNotFound) ∧
      ((∃ m, c.Mentions im name m) →
        ∃ m, c.First im name m ∧ (∀ m', c.First im name m' → m' = m) ∧
          m.Answered (c.header.segments? im c.order) (im.resolve name)) ∧
      ∀ (im' : Image) (c' : Contents), im'.contents = .ok c' → (∀ m, c.Mentions im name m ↔ c'.Mentions im' name m) →
        c.header.segments? im c.order = c'.header.segments? im' c'.order → im.resolve name = im'.resolve name := by
  refine ⟨resolve_of_unmentioned h, fun hsome => ?_, fun im' c' h' hsame hsegments => ?_⟩
  · obtain ⟨m, hm⟩ := Contents.exists_first hsome
    exact ⟨m, hm, fun _ => hm.unique, resolve_of_first h hm⟩
  · by_cases hsome : ∃ m, c.Mentions im name m
    · obtain ⟨m, hm⟩ := Contents.exists_first hsome
      have hm' : c'.First im' name m :=
        ⟨(hsame m).1 hm.mentions, fun m' hmentions => hm.least m' ((hsame m').2 hmentions)⟩
      have hanswer := resolve_of_first h hm
      rw [hsegments] at hanswer
      exact hanswer.unique (resolve_of_first h' hm')
    · have hnone : ∀ m, ¬ c.Mentions im name m := fun m hm => hsome ⟨m, hm⟩
      rw [resolve_of_unmentioned h hnone, resolve_of_unmentioned h' fun m hm => hnone m ((hsame m).2 hm)]

end Image

namespace Blueprint

/-- Two symbols in two tables.  The first table lists one of them without an address, and the other at another address than the
second table does. -/
def shadowed : Blueprint :=
  ⟨[], [⟨.fixed, [{ Entry.plain with value := 0 }, .other]⟩, ⟨.dynamic, [.plain, { Entry.other with value := 0x400020 }]⟩]⟩

def shadowedContents (o : ByteOrder) : Image.Contents := ⟨o, shadowed.head, shadowed.sections, shadowed.namesRead⟩

theorem contents_shadowed (o : ByteOrder) : (shadowed.image o).contents = .ok (shadowedContents o) :=
  contents_image (drawn_image o shadowed) (by decide)

theorem segments?_shadowed (o : ByteOrder) :
    (shadowedContents o).header.segments? (shadowed.image o) o = some [Load.standard.toSegment] :=
  segments?_image (drawn_image o shadowed) (by decide)

theorem mentions_shadowed (o : ByteOrder) : (shadowedContents o).mentions (shadowed.image o) ['f'] =
    [⟨2, 1, .fixed, some TableKind.fixed.tableName.bytes, ⟨1, 1, 0⟩⟩,
      ⟨4, 1, .dynamic, some TableKind.dynamic.tableName.bytes, ⟨1, 1, 0x400010⟩⟩] := by
  cases o <;> decide +kernel

theorem mentions_shadowing : (shadowedContents .little).mentions (shadowed.image .little) ['h'] =
    [⟨2, 2, .fixed, some TableKind.fixed.tableName.bytes, ⟨3, 1, 0x400010⟩⟩,
      ⟨4, 2, .dynamic, some TableKind.dynamic.tableName.bytes, ⟨3, 1, 0x400020⟩⟩] := by
  decide +kernel

end Blueprint

namespace Image

open Blueprint (shadowed shadowedContents)

theorem resolve_decided_shadowed :
    (∃ m m' : Mention, (shadowedContents .little).First (shadowed.image .little) ['f'] m ∧
      (shadowedContents .little).Mentions (shadowed.image .little) ['f'] m' ∧ m.Before m' ∧
      m.symbol.value = 0 ∧ m'.symbol.value = 0x400010 ∧ m'.symbol.home = 1 ∧
      (shadowed.image .little).resolve ['f'] = .error .symbolNotFound ∧
      (shadowed.image .big).resolve ['f'] = .error .symbolNotFound) ∧
    ∃ m m' : Mention, (shadowedContents .little).First (shadowed.image .little) ['h'] m ∧
      (shadowedContents .little).Mentions (shadowed.image .little) ['h'] m' ∧ m.Before m' ∧
      m.symbol.value = 0x400010 ∧ m'.symbol.value = 0x400020 ∧
      (shadowed.image .little).resolve ['h'] = .ok ⟨16, 0x400010, .fixed, some ".symtab".toList⟩ := by
  have decided := resolve_decided (Blueprint.contents_shadowed .little)
  constructor
  · have hlist := Blueprint.mentions_shadowed
    obtain ⟨-, hsome, hother⟩ := decided ['f']
    have hresolve := hother _ _ (Blueprint.contents_shadowed .big)
      (fun m => by rw [← Contents.mem_mentions_iff, ← Contents.mem_mentions_iff, hlist, hlist])
      ((Blueprint.segments?_shadowed .little).trans (Blueprint.segments?_shadowed .big).symm)
    obtain ⟨hfirst, hlater, hbefore⟩ := Contents.first_of_mentions_eq (hlist .little)
    obtain ⟨m, hm, -, hanswer⟩ := hsome ⟨_, hfirst.mentions⟩
    cases hfirst.unique hm
    have hnone : (shadowed.image .little).resolve ['f'] = .error .symbolNotFound :=
      hanswer.unique (.undefined (.inl rfl))
    exact ⟨_, _, hfirst, hlater, hbefore, rfl, rfl, rfl, hnone, hresolve ▸ hnone⟩
  · obtain ⟨hfirst, hlater, hbefore⟩ := Contents.first_of_mentions_eq Blueprint.mentions_shadowing
    obtain ⟨m, hm, -, hanswer⟩ := (decided ['h']).2.1 ⟨_, hfirst.mentions⟩
    cases hfirst.unique hm
    have hsegments : (shadowedContents .little).header.segments? (shadowed.image .little) (shadowedContents .little).order =
        some [Load.standard.toSegment] := Blueprint.segments?_shadowed .little
    rw [hsegments] at hanswer
    have hholding : Segment.FirstHolding [Load.standard.toSegment] 0x400010 Load.standard.toSegment :=
      ⟨by decide, [], [], rfl, fun _ ht => (by cases ht)⟩
    have hplaced := hanswer.unique (.placed (by decide) (by decide) hholding)
    exact ⟨_, _, hfirst, hlater, hbefore, rfl, rfl, hplaced.trans (congrArg Except.ok (by decide +kernel))⟩

end Image

end DelayProbe
