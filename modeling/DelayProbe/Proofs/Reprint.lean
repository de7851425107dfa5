import DelayProbe.Proofs.RoundTrip
/-!
# Reprint — a line that was read, written, and read again

A line can ask only for what is in range (`Spec.Says.askable`), so the command it says is read again when it is written.  One
thing is lost on the way: a symbol ends at the line end when nothing is behind it, so one that was read up to a space, with a
line end before the space, comes back without it (`Command.trimmed`).  After that nothing changes any more
(`Command.reread`).
-/
namespace DelayProbe

namespace Text

theorem trims_stripLineEnd (t : Text) : Trims isLineEnd t t.stripLineEnd := trimEnd_eq_iff.1 rfl

theorem stripLineEnd_eq_self_iff {t : Text} : t.stripLineEnd = t ↔ t.KeepsEnd := trimEnd_eq_iff.trans trims_self_iff

theorem keepsEnd_stripLineEnd (t : Text) : t.stripLineEnd.KeepsEnd := by
  obtain ⟨-, -, -, h⟩ := trims_stripLineEnd t
  exact h

theorem stripLineEnd_append (t : Text) : ∃ e, t = t.stripLineEnd ++ e := by
  obtain ⟨e, h, -⟩ := trims_stripLineEnd t
  exact ⟨e, h⟩

theorem byteLength_stripLineEnd_le (t : Text) : t.stripLineEnd.byteLength ≤ t.byteLength := by
  obtain ⟨e, h⟩ := stripLineEnd_append t
  conv => rhs; rw [h, byteLength_append]
  exact Nat.le_add_right _ _

theorem mem_of_mem_stripLineEnd {t : Text} {c : Char} (hc : c ∈ t.stripLineEnd) : c ∈ t := by
  obtain ⟨e, h⟩ := stripLineEnd_append t
  rw [h]
  exact List.mem_append_left _ hc

/-- A text that starts with something else than a line end still does so without its line end. -/
theorem head?_stripLineEnd {t : Text} {c : Char} (h : t.head? = some c) (hc : isLineEnd c = false) :
    t.stripLineEnd.head? = some c := by
  obtain ⟨e, ht, he, -⟩ := trims_stripLineEnd t
  rw [ht] at h
  cases hs : t.stripLineEnd with
  | nil =>
    rw [hs, List.nil_append] at h
    rw [he c (List.mem_of_head? h)] at hc
    cases hc
  | cons x r =>
    rw [hs] at h
    exact h

theorem isLineEnd_of_starts {c : Char} (h : c = '_' ∨ c.isAlpha = true) : isLineEnd c = false := by
  unfold isLineEnd
  rw [Bool.or_eq_false_iff, beq_eq_false_iff_ne, beq_eq_false_iff_ne]
  constructor <;> rintro rfl <;> revert h <;> decide

end Text

namespace Key

variable {l : Limits} {k : Key}

/-- The name without the line end of its symbol. -/
def trimmed (k : Key) : Key := ⟨k.path, k.symbol.stripLineEnd⟩

theorem trimmed_eq_self_iff : k.trimmed = k ↔ k.symbol.KeepsEnd := by
  rw [← Text.stripLineEnd_eq_self_iff]
  constructor
  · exact fun h => congrArg Key.symbol h
  · exact fun h => congrArg (Key.mk k.path) h

namespace Addable

theorem path_fits (h : k.Addable l) : k.path.Fits l.pathBytes :=
  ⟨fun he => (by have habs := h.absolute; rw [he] at habs; cases habs), h.path_lt⟩

theorem symbol_fits (h : k.Addable l) : k.symbol.Fits l.symbolBytes := by
  refine ⟨fun he => ?_, h.symbol_lt⟩
  obtain ⟨c, hc, -⟩ := h.starts
  rw [he] at hc
  cases hc

theorem trimmed (h : k.Addable l) : k.trimmed.Addable l := by
  obtain ⟨c, hc, hstart⟩ := h.starts
  exact ⟨h.absolute, h.no_colon, h.path_lt, ⟨c, Text.head?_stripLineEnd hc (Text.isLineEnd_of_starts hstart), hstart⟩,
    fun hm => h.no_space (Text.mem_of_mem_stripLineEnd hm),
    Nat.lt_of_le_of_lt (Text.byteLength_stripLineEnd_le _) h.symbol_lt⟩

end Addable

end Key

/-! ## What a line can ask for -/

namespace Spec

variable {l : Limits} {t : Text} {s : Spec} {symbol : Text} {d : Option UInt64} {p : Option UInt32}

theorem SaysFields.in_range (h : SaysFields l t d p) :
    (∀ n ∈ d, n ≤ l.longestDelay) ∧ ∀ n ∈ p, 1 ≤ n.toNat ∧ n.toNat ≤ Decimal.int32Max := by
  cases h with
  | delay _ _ hd => exact ⟨fun n hn => Option.some.inj hn ▸ hd.2, fun n hn => (by cases hn)⟩
  | pid _ _ _ _ hle => exact ⟨fun n hn => (by cases hn), fun n hn => pidFor_eq_some hle hn⟩
  | both _ _ hd _ _ hle => exact ⟨fun n hn => Option.some.inj hn ▸ hd.2, fun n hn => pidFor_eq_some hle hn⟩

theorem SaysTail.in_range (h : SaysTail l t symbol d p) :
    (∀ n ∈ d, n ≤ l.longestDelay) ∧ ∀ n ∈ p, 1 ≤ n.toNat ∧ n.toNat ≤ Decimal.int32Max := by
  cases h with
  | bare => exact ⟨fun n hn => (by cases hn), fun n hn => (by cases hn)⟩
  | fields _ hfields => exact hfields.in_range

theorem SaysTail.symbol_prefix (h : SaysTail l t symbol d p) : symbol <+: t ∧ ' ' ∉ symbol := by
  cases h with
  | bare hspace hend =>
    obtain ⟨e, rfl, -⟩ := hend
    exact ⟨⟨e, rfl⟩, fun hm => hspace (List.mem_append_left _ hm)⟩
  | fields hspace => exact ⟨⟨_, rfl⟩, hspace⟩

/-- **What a line says is in range.** -/
theorem Says.askable (h : s.Says l t) : s.Askable l := by
  obtain ⟨rest, -, hcolon, habs, hpath, hsymbol, hstarts, htail⟩ := h
  obtain ⟨hd, hp⟩ := htail.in_range
  exact ⟨⟨habs, hcolon, hpath.2, hstarts, htail.symbol_prefix.2, hsymbol.2⟩, hd, hp⟩

/-- The symbol ends at the line end if nothing is asked of the target. -/
def trimmed (s : Spec) : Spec := if s.delay = none ∧ s.pid = none then { s with key := s.key.trimmed } else s

/-- If nothing is behind the symbol, it is without a line end. -/
def KeepsEnd (s : Spec) : Prop := s.delay = none → s.pid = none → s.key.symbol.KeepsEnd

theorem trimmed_eq_self_iff : s.trimmed = s ↔ s.KeepsEnd := by
  unfold trimmed KeepsEnd
  by_cases hbare : s.delay = none ∧ s.pid = none
  · rw [if_pos hbare, ← Key.trimmed_eq_self_iff]
    constructor
    · exact fun h _ _ => congrArg Spec.key h
    · exact fun h => by rw [h hbare.1 hbare.2]
  · rw [if_neg hbare]
    exact ⟨fun _ hd hp => absurd ⟨hd, hp⟩ hbare, fun _ => rfl⟩

theorem keepsEnd_trimmed (s : Spec) : s.trimmed.KeepsEnd := by
  intro hd hp
  unfold trimmed at hd hp ⊢
  by_cases hbare : s.delay = none ∧ s.pid = none
  · rw [if_pos hbare]
    exact Text.keepsEnd_stripLineEnd _
  · rw [if_neg hbare] at hd hp
    exact absurd ⟨hd, hp⟩ hbare

/-- **What is in range is said by its own text**, but for the line end of a symbol with nothing behind it. -/
theorem Askable.trimmed_says (h : s.Askable l) : s.trimmed.Says l s.text := by
  unfold trimmed
  by_cases hbare : s.delay = none ∧ s.pid = none
  · obtain ⟨hd, hp⟩ := hbare
    have hk := h.key.trimmed
    have htext : s.text = s.key.path ++ ':' :: s.key.symbol := by
      rw [text_eq, hd, hp]
      exact congrArg (fun r => s.key.path ++ ':' :: r) (List.append_nil _)
    rw [if_pos ⟨hd, hp⟩, htext]
    refine ⟨s.key.symbol, rfl, hk.no_colon, hk.absolute, hk.path_fits, hk.symbol_fits, hk.starts, ?_⟩
    simp only [hd, hp]
    exact .bare h.key.no_space (Text.trims_stripLineEnd _)
  · rw [if_neg hbare]
    exact says_text_iff.2 (printable_iff.2 ⟨h, fun hd hp => absurd ⟨hd, hp⟩ hbare⟩)

end Spec

/-! ## Reading again -/

namespace Command

variable {l : Limits} {line : Text} {c : Command}

/-- What a line that is read starts with, and what it is then read as. -/
theorem read_cases (h : read l line = .ok c) :
    ∃ t, (line = '+' :: t ∧ ∃ s : Spec, c = .add s ∧ s.Says l t) ∨ (line = '=' :: t ∧ ∃ s : Spec, c = .update s ∧ s.Says l t) ∨
      (line = '-' :: t ∧ readRemove l t = .ok c) := by
  obtain ⟨hne, hlen⟩ := byteLength_le_of_read h
  cases line with
  | nil => exact absurd rfl hne
  | cons op t =>
    refine ⟨t, ?_⟩
    rw [read_cons hlen] at h
    by_cases hplus : op = '+'
    · rw [if_pos hplus] at h
      exact .inl ⟨by rw [hplus], map_read_eq_ok_iff.1 h⟩
    · rw [if_neg hplus] at h
      by_cases hminus : op = '-'
      · rw [if_pos hminus] at h
        exact .inr (.inr ⟨by rw [hminus], h⟩)
      · rw [if_neg hminus] at h
        by_cases hequals : op = '='
        · rw [if_pos hequals] at h
          exact .inr (.inl ⟨by rw [hequals], map_read_eq_ok_iff.1 h⟩)
        · rw [if_neg hequals] at h
          cases h

theorem says_of_read_add {s : Spec} (h : read l line = .ok (.add s)) : ∃ t, line = '+' :: t ∧ s.Says l t := by
  obtain ⟨t, ⟨rfl, s', he, hs⟩ | ⟨-, _, he, -⟩ | ⟨-, h⟩⟩ := read_cases h
  · cases he
    exact ⟨t, rfl, hs⟩
  · cases he
  · obtain ⟨-, he⟩ | ⟨-, _, he, -⟩ := readRemove_eq_ok_iff.1 h <;> cases he

theorem printable_of_readRemove {t : Text} {k : Key} (h : readRemove l t = .ok (.remove k)) : k.Printable l := by
  obtain ⟨-, he⟩ | ⟨hstar, k', he, rest, rfl, hcolon, hpath, hsymbol, e, -, -, hkeep⟩ := readRemove_eq_ok_iff.1 h
  · cases he
  · cases he
    refine ⟨hpath.1, hpath.2, hcolon, fun hp => ?_, hsymbol.1, hsymbol.2, hkeep⟩
    rw [isStar_iff.2 (.inr (hp.trans (List.prefix_append _ _)))] at hstar
    cases hstar

/-- What a command that was read comes back as when it is written. -/
def trimmed : Command → Command
  | .add s => .add s.trimmed
  | .update s => .update s.trimmed
  | c => c

/-- The command names no symbol with a line end and nothing behind it. -/
def KeepsEnd : Command → Prop
  | .add s | .update s => s.KeepsEnd
  | _ => True

theorem trimmed_eq_self_iff : ∀ {c : Command}, c.trimmed = c ↔ c.KeepsEnd
  | .add _ => Command.add.injEq .. ▸ Spec.trimmed_eq_self_iff
  | .update _ => Command.update.injEq .. ▸ Spec.trimmed_eq_self_iff
  | .remove _ | .removeAll => ⟨fun _ => trivial, fun _ => rfl⟩

theorem keepsEnd_trimmed : ∀ c : Command, c.trimmed.KeepsEnd
  | .add s | .update s => s.keepsEnd_trimmed
  | .remove _ | .removeAll => trivial

theorem byteLength_cons_le (op : Char) {t : Text} (hop : op.utf8Size = 1) (h : t.byteLength + 1 ≤ 512) :
    Text.byteLength (op :: t) ≤ ({} : Limits).lineBytes := by
  rw [Text.byteLength_cons, hop, Nat.add_comm]
  exact h

/-- **A command that was read is read again when it is written**, but for a line end that was no part of the line. -/
theorem read_text_trimmed (h : read {} line = .ok c) : read {} c.text = .ok c.trimmed := by
  obtain ⟨t, ⟨-, s, rfl, hs⟩ | ⟨-, s, rfl, hs⟩ | ⟨-, hr⟩⟩ := read_cases h
  · have hlen := byteLength_cons_le '+' (by decide) hs.askable.byteLength_le
    exact (read_plus_eq_ok_iff hlen).2 ⟨s.trimmed, rfl, hs.askable.trimmed_says⟩
  · have hlen := byteLength_cons_le '=' (by decide) hs.askable.byteLength_le
    exact (read_equals_eq_ok_iff hlen).2 ⟨s.trimmed, rfl, hs.askable.trimmed_says⟩
  · cases c with
    | removeAll => rfl
    | remove k =>
      have hk := printable_of_readRemove hr
      have hlen := byteLength_cons_le '-' (by decide) hk.byteLength_le
      obtain ⟨hstar, hsays⟩ := Key.says_text_iff.2 hk
      exact (read_minus_eq_ok_iff hlen).2 (.inr ⟨hstar, k, rfl, hsays⟩)
    | add | update => obtain ⟨-, he⟩ | ⟨-, _, he, -⟩ := readRemove_eq_ok_iff.1 hr <;> cases he

/-- **What was read once and written is read as the same again exactly if no symbol in it has a line end and nothing behind
it.**  Such a line end is lost, and with that the command has settled: written and read any further, it stays what it is. -/
theorem reread (h : read {} line = .ok c) :
    (read {} c.text = .ok c ↔ c.KeepsEnd) ∧ read {} c.text = .ok c.trimmed ∧ read {} c.trimmed.text = .ok c.trimmed := by
  have hread := read_text_trimmed h
  refine ⟨?_, hread, ?_⟩
  · rw [hread, Except.ok.injEq]
    exact trimmed_eq_self_iff
  · have hagain := read_text_trimmed hread
    rwa [trimmed_eq_self_iff.2 (keepsEnd_trimmed c)] at hagain

/-- A plus sign before the delay, which is stuck to a process number that asks for no filter. -/
theorem reread_stuckDelay :
    read {} "+/a:b\n +007pid=0\r".toList = .ok (.add ⟨⟨"/a".toList, "b\n".toList⟩, some 7, none⟩) ∧
      read {} "+/a:b\n 7".toList = .ok (.add ⟨⟨"/a".toList, "b\n".toList⟩, some 7, none⟩) := by
  have h : read {} "+/a:b\n +007pid=0\r".toList = .ok (.add ⟨⟨"/a".toList, "b\n".toList⟩, some 7, none⟩) := by decide
  exact ⟨h, (reread h).1.2 fun hd => by cases hd⟩

/-- **A line end between the symbol and the space behind it is read as part of the symbol**, is written at the end of the
line, and is no part of the symbol when that is read. -/
theorem reread_lineEnd :
    read {} "+/a:b\n pid=0".toList = .ok (.add ⟨⟨"/a".toList, "b\n".toList⟩, none, none⟩) ∧
      (Command.add ⟨⟨"/a".toList, "b\n".toList⟩, none, none⟩).text = "+/a:b\n".toList ∧
      read {} "+/a:b\n".toList = .ok (.add ⟨⟨"/a".toList, "b".toList⟩, none, none⟩) ∧
      (Command.add ⟨⟨"/a".toList, "b".toList⟩, none, none⟩) ≠ .add ⟨⟨"/a".toList, "b\n".toList⟩, none, none⟩ := by
  decide

end Command
end DelayProbe
