import DelayProbe.Proofs.Drawn
/-!
# Agreement — an image answers what its blueprint says

A name is searched in the drawn tables as it is in the listings: each table is read with its own symbols and strings
(`Blueprint.tables_image`), and the first symbol of a name is the one the first entry of that name became
(`Cursor.findIn_tables`).  So `Image.resolve` gives the answer of the blueprint.
-/
namespace DelayProbe

/-! ## Names as bytes -/

namespace Text

theorem toByteArray_bytes (t : Text) : t.bytes.toByteArray = (String.ofList t).toByteArray := by
  rw [String.toByteArray_ofList]
  rfl

theorem bytes_inj {a b : Text} : a.bytes = b.bytes ↔ a = b := by
  constructor
  · intro h
    have hb := congrArg List.toByteArray h
    rw [toByteArray_bytes, toByteArray_bytes, String.toByteArray_inj, String.ofList_inj] at hb
    exact hb
  · exact congrArg Text.bytes

/-- **Only the NUL character has a zero byte.** -/
theorem eq_nul_of_zero_mem {c : Char} (h : 0 ∈ String.utf8EncodeChar c) : c = '\x00' := by
  have hz : ∀ n : Nat, 0 = UInt8.ofNat n → n % 256 = 0 := by
    intro n hn
    have hm := congrArg UInt8.toNat hn
    rw [UInt8.toNat_ofNat'] at hm
    exact hm.symm
  have hc : c.val.toNat = 0 := by
    unfold String.utf8EncodeChar at h
    simp only at h
    split at h
    · have h1 := hz _ (List.mem_singleton.1 h)
      omega
    · split at h
      · simp only [List.mem_cons, List.not_mem_nil, or_false] at h
        rcases h with h | h <;> have h1 := hz _ h <;> omega
      · split at h
        · simp only [List.mem_cons, List.not_mem_nil, or_false] at h
          rcases h with h | h | h <;> have h1 := hz _ h <;> omega
        · simp only [List.mem_cons, List.not_mem_nil, or_false] at h
          rcases h with h | h | h | h <;> have h1 := hz _ h <;> omega
  exact Char.ext (UInt32.toNat_inj.1 hc)

theorem zero_not_mem_bytes {t : Text} (h : '\x00' ∉ t) : 0 ∉ t.bytes := by
  intro hm
  obtain ⟨c, hc, h0⟩ := List.mem_flatMap.1 hm
  exact h (eq_nul_of_zero_mem h0 ▸ hc)

end Text

namespace TableKind

theorem ofSection?_code (k : TableKind) : ofSection? (.ofCode k.code) = some k := by
  cases k <;> rfl

theorem zero_not_mem_tableName (k : TableKind) : 0 ∉ k.tableName.bytes := by
  cases k <;> decide

theorem decode_tableName (k : TableKind) : Utf8.decode k.tableName.bytes = k.tableName := by
  cases k <;> decide

end TableKind

/-! ## Symbols -/

def Symbol.isNamed (im : Image) (strings : Strings) (name : Text) (s : Symbol) : Bool :=
  decide (strings.get? im s.name = some name.bytes)

/-- **The entries are searched by name as the written symbols are by the strings they point to.** -/
theorem Entry.find?_rows {im : Image} {strings : Strings} {name : Text} : ∀ {es : List Entry} {k : Nat},
    strings.Has im k (es.flatMap fun e => e.name.ended) →
      (((Entry.rows k es).map (·.toSymbol)).find? (Symbol.isNamed im strings name)).map (fun s => (s.home, s.value)) =
        (es.find? fun e => decide (e.name = name)).map fun e => (1, e.value.toNat)
  | [], _, _ => rfl
  | e :: es, k, h => by
    have hget : strings.get? im (e.row k).toSymbol.name = some e.name.bytes :=
      h.left.get?_eq (Text.zero_not_mem_bytes e.nul_not_mem)
    have ih := @find?_rows im strings name es _ h.right
    rw [rows, List.map_cons]
    by_cases he : e.name = name
    · have hnamed : Symbol.isNamed im strings name (e.row k).toSymbol = true := by
        rw [Symbol.isNamed, hget, he, decide_eq_true rfl]
      rw [List.find?_cons_of_pos hnamed, List.find?_cons_of_pos (p := fun e : Entry => decide (e.name = name))
        (decide_eq_true he)]
      rfl
    · have hnamed : ¬ Symbol.isNamed im strings name (e.row k).toSymbol = true := by
        rw [Symbol.isNamed, hget, decide_eq_true_eq, Option.some.injEq, Text.bytes_inj]
        exact he
      rw [List.find?_cons_of_neg hnamed, List.find?_cons_of_neg (by simpa using he)]
      exact ih

namespace Listing

variable {im : Image} {strings : Strings} {t : Listing}

theorem get?_first (h : strings.Has im 0 t.strings) : strings.get? im ({} : SymbolRow).toSymbol.name = some [] :=
  Strings.Has.get?_eq (Strings.Has.left (a := [0]) h) List.not_mem_nil

/-- The first symbol of a table, which has no name, is the one found by no name at all. -/
theorem find?_nil (h : strings.Has im 0 t.strings) :
    (t.rows.map (·.toSymbol)).find? (Symbol.isNamed im strings []) = some ⟨0, 0, 0⟩ := by
  have hnamed : Symbol.isNamed im strings [] ({} : SymbolRow).toSymbol = true := by
    rw [Symbol.isNamed, get?_first h]
    rfl
  exact List.find?_cons_of_pos hnamed

theorem find?_rows {name : Text} (hname : name ≠ []) (h : strings.Has im 0 t.strings) :
    ((t.rows.map (·.toSymbol)).find? (Symbol.isNamed im strings name)).map (fun s => (s.home, s.value)) =
      (t.entries.find? fun e => decide (e.name = name)).map fun e => (1, e.value.toNat) := by
  have hnamed : ¬ Symbol.isNamed im strings name ({} : SymbolRow).toSymbol = true := by
    rw [Symbol.isNamed, get?_first h, decide_eq_true_eq, Option.some.injEq]
    exact fun he => hname (Text.bytes_inj.1 he.symm)
  rw [rows, List.map_cons, List.find?_cons_of_neg hnamed]
  exact Entry.find?_rows (Strings.Has.right (a := [0]) h)

end Listing

/-! ## Tables -/

/-- The table of symbols a section is, if it is one. -/
def SymbolTable.ofSection? (im : Image) (o : ByteOrder) (sections : List Section) (names : Strings) (p : Section × Nat) :
    Option SymbolTable :=
  (TableKind.ofSection? p.1.kind).map fun k => ⟨p.2, k, names.get? im p.1.name, content? im o sections p.2 p.1⟩

theorem SymbolTable.all_eq (im : Image) (o : ByteOrder) (sections : List Section) (names : Strings) :
    all im o sections names = sections.zipIdx.filterMap (ofSection? im o sections names) := rfl

namespace Listing

def stringsRead (t : Listing) (c : Cursor) : Strings := ⟨some (t.stringsAt c.pos, t.stop c.pos)⟩

def table (t : Listing) (c : Cursor) : SymbolTable where
  index := c.index
  kind := t.kind
  name := some t.kind.tableName.bytes
  content := some (t.rows.map (·.toSymbol), t.stringsRead c)

end Listing

namespace Cursor

def tables : Cursor → List Listing → List SymbolTable
  | _, [] => []
  | c, t :: ts => t.table c :: tables (c.past t) ts

/-- The tables from here on stand in the image, and so do the names of their sections. -/
structure Placed (o : ByteOrder) (im : Image) (names : Strings) (c : Cursor) (ts : List Listing) : Prop where
  bodies : im.Has c.pos (c.bodies o ts)
  names : names.Has im c.name (ts.flatMap fun t => t.kind.names)
  fits : ∀ t ∈ ts, ∀ r ∈ t.rows, r.record.Fits
  stop_lt : (c.along ts).pos < wordBound

namespace Placed

variable {o : ByteOrder} {im : Image} {names : Strings} {c : Cursor} {t : Listing} {ts : List Listing}

theorem tail (h : Placed o im names c (t :: ts)) : Placed o im names (c.past t) ts := by
  have hbodies := h.bodies.right
  rw [t.add_length_body] at hbodies
  exact ⟨hbodies, h.names.right, fun u hu => h.fits u (List.mem_cons_of_mem _ hu), h.stop_lt⟩

theorem symbols (h : Placed o im names c (t :: ts)) :
    im.Has (alignUp 8 c.pos) (t.rows.flatMap fun r => r.record.bytes o) := by
  have hrows := h.bodies.left.right
  rw [add_length_padding] at hrows
  exact hrows.left

theorem strings (h : Placed o im names c (t :: ts)) : im.Has (t.stringsAt c.pos) t.strings := by
  have hrows := h.bodies.left.right
  rw [add_length_padding] at hrows
  have hstrings := hrows.right
  rw [length_flatMap_of_forall fun r _ => r.length_bytes o] at hstrings
  exact hstrings

theorem stringsRead (h : Placed o im names c (t :: ts)) :
    (t.stringsRead c).Has im 0 t.strings :=
  Strings.Has.whole h.strings

theorem name_eq (h : Placed o im names c (t :: ts)) : names.get? im c.name = some t.kind.tableName.bytes :=
  h.names.left.left.get?_eq t.kind.zero_not_mem_tableName

/-- **A table is read with the symbols and the strings that were written for it.** -/
theorem content?_eq (h : Placed o im names c (t :: ts)) {sections : List Section}
    (hstrings : sections[c.index + 1]? = some (t.stringsRow c).toSection)
    (hkinds : ∀ s ∈ sections, s.kind ≠ .symbolIndexes) :
    SymbolTable.content? im o sections c.index (t.symbolsRow c).toSection =
      some (t.rows.map (·.toSymbol), t.stringsRead c) := by
  have hholds := Image.holds_eq_true 8 h.symbols (alignUp_eight_mod _)
  rw [length_flatMap_of_forall fun r _ => r.length_bytes o] at hholds
  have harray : (t.symbolsRow c).toSection.isArray im Symbol.width 8 = true := by
    rw [Section.isArray, Bool.and_eq_true, decide_eq_true_eq]
    exact ⟨hholds, Nat.mul_mod_left _ _⟩
  have hindexes : Section.indexesReadable im sections c.index = true := by
    refine List.all_eq_true.2 fun s hs => ?_
    simp [hkinds s hs]
  have hlt : t.stringsAt c.pos + t.strings.length < wordBound :=
    Nat.lt_of_le_of_lt (le_pos_along ts (c.past t)) h.stop_lt
  have hlinked : (t.symbolsRow c).toSection.linkedStrings? sections = some (t.stringsRead c) := by
    have hlink : (t.symbolsRow c).toSection.link ≠ 0 := Nat.succ_ne_zero _
    have hkind : (t.stringsRow c).toSection.kind = .strings := rfl
    have hget : sections[(t.symbolsRow c).toSection.link]? = some (t.stringsRow c).toSection := hstrings
    rw [Section.linkedStrings?, if_neg hlink, hget]
    simp only
    rw [if_pos hkind, Section.strings?]
    exact if_pos hlt
  have hcount : (t.symbolsRow c).toSection.size / Symbol.width = t.rows.length := Nat.mul_div_cancel _ (by decide)
  have hread := h.symbols.table (fun r _ => r.length_bytes o) fun r hr p hp =>
    r.read_eq hp (h.fits t List.mem_cons_self r hr)
  rw [SymbolTable.content?, if_pos ⟨harray, hindexes⟩, hlinked, hcount]
  exact congrArg (fun l => some (l, _)) hread

/-- **The sections of a listing are read as its table and as nothing else.** -/
theorem ofSection?_symbolsRow (h : Placed o im names c (t :: ts)) {sections : List Section}
    (hstrings : sections[c.index + 1]? = some (t.stringsRow c).toSection)
    (hkinds : ∀ s ∈ sections, s.kind ≠ .symbolIndexes) :
    SymbolTable.ofSection? im o sections names ((t.symbolsRow c).toSection, c.index) = some (t.table c) := by
  have hkind : TableKind.ofSection? (t.symbolsRow c).toSection.kind = some t.kind := t.kind.ofSection?_code
  have hname : names.get? im (t.symbolsRow c).toSection.name = some t.kind.tableName.bytes := h.name_eq
  have hcontent := h.content?_eq hstrings hkinds
  rw [SymbolTable.ofSection?, hkind, hname, hcontent]
  rfl

end Placed

variable {o : ByteOrder} {im : Image} {names : Strings}

/-- The sections of the listings from here on are read as their tables, whatever stands before and behind them. -/
theorem filterMap_rows {sections : List Section} (hkinds : ∀ s ∈ sections, s.kind ≠ .symbolIndexes) :
    ∀ {ts : List Listing} {c : Cursor} {before after : List Section},
      sections = before ++ ((c.rows ts).map (·.toSection) ++ after) → before.length = c.index →
      Placed o im names c ts →
      (((c.rows ts).map (·.toSection)).zipIdx c.index).filterMap (SymbolTable.ofSection? im o sections names) = c.tables ts
  | [], _, _, _, _, _, _ => rfl
  | t :: ts, c, before, after, hsections, hlen, h => by
    have hstrings : sections[c.index + 1]? = some (t.stringsRow c).toSection := by
      rw [hsections, ← hlen, List.getElem?_append_right (Nat.le_succ _), Nat.succ_sub (Nat.le_refl _), Nat.sub_self]
      rfl
    have hrest : sections = (before ++ [(t.symbolsRow c).toSection, (t.stringsRow c).toSection]) ++
        (((c.past t).rows ts).map (·.toSection) ++ after) := by
      rw [hsections, List.append_assoc]
      rfl
    have hindex : (before ++ [(t.symbolsRow c).toSection, (t.stringsRow c).toSection]).length = (c.past t).index := by
      rw [List.length_append, hlen]
      rfl
    -- the two sections of `t` become part of what stands before the rest
    have ih := filterMap_rows hkinds hrest hindex h.tail
    have hnone : SymbolTable.ofSection? im o sections names ((t.stringsRow c).toSection, c.index + 1) = none := rfl
    rw [rows, List.map_cons, List.map_cons, List.zipIdx_cons, List.zipIdx_cons,
      List.filterMap_cons_some (h.ofSection?_symbolsRow hstrings hkinds), List.filterMap_cons_none hnone]
    exact congrArg (t.table c :: ·) ih

theorem find?_table (name : Text) (c : Cursor) (t : Listing) :
    (t.table c).find? im name.bytes = (t.rows.map (·.toSymbol)).find? (Symbol.isNamed im (t.stringsRead c) name) := rfl

/-- **The first table that has a name is read as the first listing that has it.** -/
theorem findIn_tables {name : Text} (hname : name ≠ []) : ∀ {ts : List Listing} {c : Cursor},
    Placed o im names c ts →
      (SymbolTable.findIn im name.bytes (c.tables ts)).map (fun p => (p.1.kind, p.1.name, p.2.home, p.2.value)) =
        (ts.findSome? (·.lookup name)).map fun q => (q.1, some q.1.tableName.bytes, 1, q.2.toNat)
  | [], _, _ => rfl
  | t :: ts, c, h => by
    have ih := findIn_tables hname h.tail
    have hfind := Listing.find?_rows hname h.stringsRead
    rw [← find?_table name c t] at hfind
    rw [tables, SymbolTable.findIn, List.findSome?_cons, List.findSome?_cons, Listing.lookup]
    cases he : t.entries.find? fun e => decide (e.name = name) with
    | none =>
      rw [he, Option.map_none, Option.map_eq_none_iff] at hfind
      rw [hfind]
      exact ih
    | some e =>
      rw [he, Option.map_some, Option.map_eq_some_iff] at hfind
      obtain ⟨s, hs, hsame⟩ := hfind
      obtain ⟨hhome, hvalue⟩ := Prod.mk.inj hsame
      rw [hs]
      simp [Listing.table, hhome, hvalue]

/-- No name at all is found, where there is a table, in a symbol that is not defined. -/
theorem findIn_tables_nil : ∀ {ts : List Listing} {c : Cursor} {p : SymbolTable × Symbol}, Placed o im names c ts →
    SymbolTable.findIn im (Text.bytes []) (c.tables ts) = some p → p.2.isDefined = false
  | t :: ts, c, p, h, hp => by
    have hfind : (t.table c).find? im (Text.bytes []) = some ⟨0, 0, 0⟩ := Listing.find?_nil h.stringsRead
    rw [tables, SymbolTable.findIn, List.findSome?_cons, hfind] at hp
    obtain rfl := Option.some.inj hp
    rfl

end Cursor

/-! ## The answer -/

namespace Blueprint

variable {o : ByteOrder} {d : Blueprint} {im : Image}

theorem placed_image (hd : d.Drawn o im) (h : d.Fits) : d.start.Placed o im d.namesRead d.listings := by
  have hnames : d.namesRead.Has im 0 d.sectionNames := Strings.Has.whole hd.names
  have hstart : d.namesRead.Has im d.start.name (d.listings.flatMap (fun t => t.kind.names) ++ namesName.ended) :=
    (Strings.Has.right (a := [0] ++ codeName.ended) hnames)
  exact ⟨hd.bodies, hstart.left, h.2.2, Nat.lt_of_le_of_lt (Nat.le_add_right _ _) h.names_lt⟩

/-- **The tables of a drawn image are its listings, in their order.** -/
theorem tables_image (hd : d.Drawn o im) (h : d.Fits) :
    SymbolTable.all im o d.sections d.namesRead = d.start.tables d.listings := by
  have hkinds : ∀ s ∈ d.sections, s.kind ≠ .symbolIndexes := by
    intro s hs
    obtain ⟨r, hr, rfl⟩ := List.mem_map.1 hs
    exact kind_ne_of_mem_rows hr
  have hsections : d.sections = [({} : SectionRow).toSection, d.codeRow.toSection] ++
      ((d.start.rows d.listings).map (·.toSection) ++ [d.namesRow.toSection]) := by
    rw [sections, rows, List.map_append, List.map_append, List.append_assoc]
    rfl
  have hrows := Cursor.filterMap_rows hkinds hsections rfl (placed_image hd h)
  have hindexed : d.sections.zipIdx = [(({} : SectionRow).toSection, 0), (d.codeRow.toSection, 1)] ++
      (((d.start.rows d.listings).map (·.toSection)).zipIdx d.start.index ++
        [(d.namesRow.toSection, 2 + ((d.start.rows d.listings).map (·.toSection)).length)]) := by
    rw [hsections, List.zipIdx_append, List.zipIdx_append]
    rfl
  rw [SymbolTable.all_eq, hindexed, List.filterMap_append, List.filterMap_append, hrows]
  exact List.append_nil _

theorem answerIn_nil (d : Blueprint) (loads : List Load) : d.answerIn loads [] = .error .symbolNotFound := by
  unfold answerIn
  cases d.lookup [] with
  | none => rfl
  | some q => exact if_pos (.inr rfl)

/-- **A symbol is placed as its address is by the loads**, in the table that names it. -/
theorem place_image {loads : List Load} {k : TableKind} {v : UInt64} {t : SymbolTable} {s : Symbol}
    (hs : d.head.segments? im o = some (loads.map (·.toSegment))) (hkind : t.kind = k)
    (hname : t.name = some k.tableName.bytes) (hvalue : s.value = v.toNat) :
    (⟨o, d.head, d.sections, d.namesRead⟩ : Image.Contents).place im t s =
      match loads.findSome? fun s => s.place? v with
      | none => .error (.notMapped v.toNat)
      | some offset => .ok ⟨offset, v.toNat, k, some k.tableName⟩ := by
  have hplace : (loads.map (·.toSegment)).findSome? (·.place? v.toNat) = loads.findSome? fun s => s.place? v := by
    rw [List.findSome?_map]
    exact congrArg (fun f => loads.findSome? f) (funext fun s => s.place?_toSegment v)
  rw [Image.Contents.place, hs, hvalue, hkind, hname, Option.map_some, k.decode_tableName]
  cases hl : loads.findSome? fun s => s.place? v with
  | none => simp only [hplace, hl]
  | some offset => simp only [hplace, hl]

/-- **An image answers as its blueprint does by the segments that are read.** -/
theorem resolve_of_segments? {loads : List Load} (hd : d.Drawn o im) (h : d.Fits)
    (hs : d.head.segments? im o = some (loads.map (·.toSegment))) (name : Text) :
    im.resolve name = d.answerIn loads name := by
  have hplaced := placed_image hd h
  have hfound : (⟨o, d.head, d.sections, d.namesRead⟩ : Image.Contents).find? im name =
      SymbolTable.findIn im name.bytes (d.start.tables d.listings) :=
    congrArg (SymbolTable.findIn im name.bytes) (tables_image hd h)
  rw [Image.resolve, contents_image hd h]
  simp only
  rw [hfound]
  -- no name at all is found as the first symbol of a table, which stands for no entry
  by_cases hname : name = []
  · subst hname
    rw [answerIn_nil]
    cases hf : SymbolTable.findIn im (Text.bytes []) (d.start.tables d.listings) with
    | none => rfl
    | some p =>
      have hundefined := Cursor.findIn_tables_nil hplaced hf
      exact if_neg (by rw [hundefined]; decide)
  · have hfind := Cursor.findIn_tables hname hplaced
    rw [answerIn]
    cases hl : d.lookup name with
    | none =>
      rw [show d.listings.findSome? (·.lookup name) = none from hl, Option.map_none, Option.map_eq_none_iff] at hfind
      rw [hfind]
    | some q =>
      obtain ⟨k, v⟩ := q
      rw [show d.listings.findSome? (·.lookup name) = some (k, v) from hl, Option.map_some,
        Option.map_eq_some_iff] at hfind
      obtain ⟨⟨t, s⟩, hts, hsame⟩ := hfind
      simp only [Prod.mk.injEq] at hsame
      obtain ⟨hkind, htable, hhome, hvalue⟩ := hsame
      rw [hts]
      simp only
      by_cases hv : v = 0
      · have hundefined : s.isDefined = false := by rw [Symbol.isDefined, hvalue, hv]; rfl
        rw [if_neg (by rw [hundefined]; decide), if_pos (.inl hv)]
      · have hv0 : s.value ≠ 0 := fun h0 => hv (UInt64.toNat_inj.1 (hvalue.symm.trans h0))
        have hdefined : s.isDefined = true := by
          rw [Symbol.isDefined, decide_eq_true hv0, hhome]
          rfl
        rw [if_pos hdefined, if_neg (not_or.2 ⟨hv, hname⟩)]
        exact place_image hs hkind htable hvalue

/-- **An image drawn up from a blueprint gives its answer for every name**, except that of 65535 segments none is seen. -/
theorem resolve_image (o : ByteOrder) (d : Blueprint) (h : d.Fits) (name : Text) :
    (d.image o).resolve name = if d.segments.length = 0xffff then d.answerIn [] name else d.answer name := by
  have hd := drawn_image o d
  by_cases hn : d.segments.length = 0xffff
  · have hs : d.head.segments? (d.image o) o = some (([] : List Load).map (·.toSegment)) := segments?_image_escaped hd hn
    rw [if_pos hn]
    exact resolve_of_segments? hd h hs name
  · rw [if_neg hn]
    exact resolve_of_segments? hd h (segments?_image hd hn) name

theorem resolve_small : small.Fits ∧
    (small.image .big).resolve ['f'] = .ok ⟨16, 0x400010, .dynamic, some ".dynsym".toList⟩ := by
  have hfits : small.Fits := by decide
  refine ⟨hfits, ?_⟩
  rw [resolve_image .big small hfits]
  rfl

/-- As many segments as their field can count. -/
def crowded : Blueprint := ⟨List.replicate 0xffff .standard, [⟨.fixed, [.plain]⟩]⟩

theorem segments_crowded : crowded.segments = List.replicate 0xffff .standard := rfl

theorem fits_crowded : crowded.Fits := by
  have hlen : crowded.segments.length = 0xffff := by rw [segments_crowded, List.length_replicate]
  have hstart : crowded.start = ⟨3670096, 2, 7⟩ := by
    rw [start, codeAt, segmentsEnd, hlen]
    decide
  have hstop : crowded.stop = ⟨3670147, 4, 23⟩ := by
    rw [stop, hstart]
    decide
  have hrowsAt : crowded.rowsAt = 3670184 := by
    rw [rowsAt, hstop]
    decide
  refine ⟨?_, ?_, by decide⟩
  · rw [header, hlen, hrowsAt, length_rows, hstop, segments_crowded]
    decide
  · rw [rows, codeRow, namesRow, codeAt, segmentsEnd, hlen, hstart, hstop]
    decide

/-- **The segments of a crowded image hold its symbol, and yet it is not found in them.** -/
theorem resolve_crowded : crowded.Fits ∧ crowded.answer ['f'] = .ok ⟨16, 0x400010, .fixed, some ".symtab".toList⟩ ∧
    (crowded.image .little).resolve ['f'] = .error (.notMapped 0x400010) := by
  have hlen : crowded.segments.length = 0xffff := by rw [segments_crowded, List.length_replicate]
  have hd := drawn_image .little crowded
  have hs : crowded.head.segments? (crowded.image .little) .little = some (([] : List Load).map (·.toSegment)) :=
    segments?_image_escaped hd hlen
  refine ⟨fits_crowded, rfl, ?_⟩
  rw [resolve_of_segments? hd fits_crowded hs]
  rfl

end Blueprint
end DelayProbe
