import DelayProbe.Image.SymbolTable
import Mathlib.Algebra.Group.Nat.Defs
/-!
# Placed — bytes written into an image, and what is read where they stand

A number is written in the byte order of its image (`ByteOrder.bytes`), a record field by field (`Record.bytes`), and a table
record by record.  `Image.Has` puts bytes at a position; what is written is then what is read there, be it a field
(`Image.Has.fields`), a table (`Image.Has.table`) or a string (`Strings.Has.get?_eq`).
-/
namespace DelayProbe

namespace ByteOrder

/-- The `width` lowest bytes of a number, the least significant first. -/
def littleBytes : Nat → Nat → List UInt8
  | 0, _ => []
  | w + 1, v => UInt8.ofNat v :: littleBytes w (v / 256)

def bytes : ByteOrder → Nat → Nat → List UInt8
  | .little, w, v => littleBytes w v
  | .big, w, v => (littleBytes w v).reverse

def code : ByteOrder → UInt8
  | .little => 1
  | .big => 2

theorem ofCode?_code (o : ByteOrder) : ofCode? o.code = some o := by
  cases o <;> rfl

theorem length_littleBytes : ∀ w v, (littleBytes w v).length = w
  | 0, _ => rfl
  | w + 1, v => by rw [littleBytes, List.length_cons, length_littleBytes w]

theorem length_bytes (o : ByteOrder) (w v : Nat) : (o.bytes w v).length = w := by
  cases o with
  | little => exact length_littleBytes w v
  | big => rw [bytes, List.length_reverse, length_littleBytes]

theorem littleValue_littleBytes : ∀ {w v : Nat}, v < 256 ^ w → littleValue (littleBytes w v) = v
  | 0, v, h => by
    rw [Nat.pow_zero] at h
    rw [littleBytes, littleValue]
    omega
  | w + 1, v, h => by
    have hdiv : v / 256 < 256 ^ w := Nat.div_lt_of_lt_mul (by rwa [Nat.pow_succ, Nat.mul_comm] at h)
    rw [littleBytes, littleValue, littleValue_littleBytes hdiv, UInt8.toNat_ofNat']
    omega

/-- **A number that fits is the number that is read back**, in either byte order. -/
theorem value_bytes (o : ByteOrder) {w v : Nat} (h : v < 256 ^ w) : o.value (o.bytes w v) = v := by
  cases o with
  | little => exact littleValue_littleBytes h
  | big =>
    rw [bytes, value, List.reverse_reverse]
    exact littleValue_littleBytes h

end ByteOrder

/-- The widths and values of the fields of a record, in order. -/
abbrev Record := List (Nat × Nat)

namespace Record

def bytes (o : ByteOrder) (r : Record) : List UInt8 := r.flatMap fun f => o.bytes f.1 f.2

def width : Record → Nat
  | [] => 0
  | f :: r => f.1 + width r

/-- Position, width and value of each field of a record that stands at a position. -/
def placed : Nat → Record → List (Nat × Nat × Nat)
  | _, [] => []
  | p, (w, v) :: r => (p, w, v) :: placed (p + w) r

/-- Every number fits its field. -/
def Fits (r : Record) : Prop := ∀ f ∈ r, f.2 < 256 ^ f.1

instance (r : Record) : Decidable r.Fits := inferInstanceAs (Decidable (∀ f ∈ r, f.2 < 256 ^ f.1))

theorem length_bytes (o : ByteOrder) : ∀ r : Record, (r.bytes o).length = r.width
  | [] => rfl
  | f :: r => by
    have hcons : Record.bytes o (f :: r) = o.bytes f.1 f.2 ++ Record.bytes o r := rfl
    rw [hcons, List.length_append, o.length_bytes, length_bytes o r]
    rfl

end Record

namespace Image

/-- The bytes `bs` stand at `pos`. -/
def Has (im : Image) (pos : Nat) (bs : List UInt8) : Prop :=
  ∃ before after, im.toList = before ++ bs ++ after ∧ before.length = pos

namespace Has

variable {im : Image} {o : ByteOrder} {pos : Nat} {a b bs : List UInt8}

theorem whole (bs : List UInt8) : Image.Has bs.toArray 0 bs := ⟨[], [], by simp, rfl⟩

theorem left (h : im.Has pos (a ++ b)) : im.Has pos a := by
  obtain ⟨before, after, him, hpos⟩ := h
  refine ⟨before, b ++ after, ?_, hpos⟩
  rw [him, List.append_assoc, List.append_assoc, List.append_assoc]

theorem right (h : im.Has pos (a ++ b)) : im.Has (pos + a.length) b := by
  obtain ⟨before, after, him, hpos⟩ := h
  refine ⟨before ++ a, after, ?_, ?_⟩
  · rw [him, List.append_assoc before a b]
  · rw [List.length_append, hpos]

theorem le_size (h : im.Has pos bs) : pos + bs.length ≤ im.size := by
  obtain ⟨before, after, him, hpos⟩ := h
  rw [← Array.length_toList, him, List.length_append, List.length_append, hpos]
  exact Nat.le_add_right _ _

theorem getElem?_eq (h : im.Has pos bs) {i : Nat} (hi : i < bs.length) : im[pos + i]? = some bs[i] := by
  obtain ⟨before, after, him, hpos⟩ := h
  rw [← Array.getElem?_toList, him, ← hpos, List.append_assoc, List.getElem?_append_right (Nat.le_add_right _ _),
    Nat.add_sub_cancel_left, List.getElem?_append_left hi, List.getElem?_eq_getElem hi]

theorem byte_eq (h : im.Has pos bs) {i : Nat} (hi : i < bs.length) : im.byte (pos + i) = bs[i] := by
  rw [byte, h.getElem?_eq hi]
  rfl

theorem map_byte (h : im.Has pos bs) : (List.range bs.length).map (fun i => im.byte (pos + i)) = bs := by
  refine List.ext_getElem (by simp) fun i hi hi' => ?_
  rw [List.getElem_map, List.getElem_range, h.byte_eq hi']

/-- **A number that fits is read where it was written.** -/
theorem word_eq {w v : Nat} (h : im.Has pos (o.bytes w v)) (hv : v < 256 ^ w) : im.word o pos w = v := by
  have hbytes := h.map_byte
  rw [o.length_bytes] at hbytes
  rw [word, hbytes, o.value_bytes hv]

/-- **Every field of a record that fits is read where the fields before it end.** -/
theorem fields : ∀ {r : Record} {pos : Nat}, im.Has pos (r.bytes o) → r.Fits →
    ∀ f ∈ r.placed pos, im.word o f.1 f.2.1 = f.2.2
  | [], _, _, _, _, hm => by cases hm
  | (w, v) :: r, pos, h, hf, f, hm => by
    have htail := right (a := o.bytes w v) h
    rw [o.length_bytes] at htail
    rcases List.mem_cons.1 hm with rfl | hm
    · exact word_eq (left h) (hf (w, v) List.mem_cons_self)
    · exact fields htail (fun g hg => hf g (List.mem_cons_of_mem _ hg)) f hm

/-- **A table whose records all have one width is read record by record.** -/
theorem table {α β : Type} {w : Nat} {write : β → List UInt8} {read : Nat → α} {g : β → α} :
    ∀ {l : List β} {pos : Nat}, im.Has pos (l.flatMap write) → (∀ x ∈ l, (write x).length = w) →
      (∀ x ∈ l, ∀ p, im.Has p (write x) → read p = g x) →
      (List.range l.length).map (fun i => read (pos + i * w)) = l.map g
  | [], _, _, _, _ => rfl
  | x :: l, pos, h, hw, hr => by
    have hx := List.mem_cons_self (a := x) (l := l)
    have htail := right (a := write x) (b := l.flatMap write) h
    rw [hw x hx] at htail
    have ih := table htail (fun y hy => hw y (List.mem_cons_of_mem _ hy)) fun y hy => hr y (List.mem_cons_of_mem _ hy)
    rw [List.length_cons, List.range_succ_eq_map, List.map_cons, List.map_map, List.map_cons, ← ih, Nat.zero_mul,
      Nat.add_zero, hr x hx pos (left (a := write x) (b := l.flatMap write) h)]
    refine congrArg (g x :: ·) (List.map_congr_left fun i _ => ?_)
    rw [Function.comp_apply, Nat.succ_mul, Nat.add_comm (i * w), Nat.add_assoc]

/-- **Bytes without a zero among them are read up to the zero behind them.** -/
theorem untilZero_eq : ∀ {bs : List UInt8} {pos n : Nat}, im.Has pos (bs ++ [0]) → 0 ∉ bs → bs.length < n →
    im.untilZero n pos = some bs
  | [], pos, n + 1, h, _, _ => by
    have hb : im.byte pos = 0 := h.byte_eq (i := 0) (by simp)
    rw [untilZero, if_pos hb]
  | b :: bs, pos, n + 1, h, h0, hn => by
    have hb : im.byte pos = b := h.byte_eq (i := 0) (by simp)
    have hne : b ≠ 0 := fun he => h0 (he ▸ List.mem_cons_self)
    have hrest : im.Has (pos + 1) (bs ++ [0]) := right (a := [b]) h
    have ih := untilZero_eq hrest (fun hm => h0 (List.mem_cons_of_mem _ hm)) (Nat.lt_of_succ_lt_succ hn)
    rw [untilZero, hb, if_neg hne, ih]
    rfl

end Has

theorem holds_eq_true {im : Image} {pos : Nat} {bs : List UInt8} (align : Nat) (h : im.Has pos bs)
    (ha : pos % align = 0) : im.holds pos bs.length align = true := by
  rw [holds, decide_eq_true h.le_size, decide_eq_true ha]
  rfl

end Image

namespace Strings

/-- The bytes `bs` stand in a table of strings, from offset `k` on. -/
def Has (s : Strings) (im : Image) (k : Nat) (bs : List UInt8) : Prop :=
  ∃ start stop, s.range = some (start, stop) ∧ stop ≤ im.size ∧ im.Has (start + k) bs ∧ start + k + bs.length ≤ stop

namespace Has

variable {s : Strings} {im : Image} {k : Nat} {a b : List UInt8}

theorem whole {start : Nat} {bs : List UInt8} (h : im.Has start bs) :
    Strings.Has ⟨some (start, start + bs.length)⟩ im 0 bs :=
  ⟨start, start + bs.length, rfl, h.le_size, h, Nat.le_refl _⟩

theorem left (h : s.Has im k (a ++ b)) : s.Has im k a := by
  obtain ⟨start, stop, hr, hs, hb, hle⟩ := h
  rw [List.length_append] at hle
  exact ⟨start, stop, hr, hs, hb.left, by omega⟩

theorem right (h : s.Has im k (a ++ b)) : s.Has im (k + a.length) b := by
  obtain ⟨start, stop, hr, hs, hb, hle⟩ := h
  rw [List.length_append] at hle
  have hright := hb.right
  rw [Nat.add_assoc] at hright
  exact ⟨start, stop, hr, hs, hright, by omega⟩

/-- **A string is read at its offset**, up to the zero byte that ends it. -/
theorem get?_eq {bs : List UInt8} (h : s.Has im k (bs ++ [0])) (h0 : 0 ∉ bs) : s.get? im k = some bs := by
  obtain ⟨start, stop, hr, hs, hb, hle⟩ := h
  rw [List.length_append, List.length_singleton] at hle
  have hread := hb.untilZero_eq (n := stop - (start + k)) h0 (by omega)
  rw [get?, hr, Option.bind_some]
  exact (if_pos ⟨by omega, hs⟩).trans hread

end Has

end Strings

end DelayProbe
