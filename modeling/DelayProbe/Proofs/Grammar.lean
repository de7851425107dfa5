import DelayProbe.Command.Reader
import DelayProbe.Proofs.Bounds
import DelayProbe.Proofs.Occurrence
/-!
# Grammar — which lines are commands, and what they say

The lines are described without saying how they are read: where the separators stand, what lies between them, and which
lengths and numbers are allowed (`Spec.Says`, `Key.Says`, `Command.Says`).  Reading accepts exactly these lines and finds in
them exactly what they say (`Command.read_eq_ok_iff`).
-/
namespace DelayProbe

/-- The process that a number after `pid=` asks for; 0 asks for none. -/
def pidFor (n : Nat) : Option UInt32 := if n = 0 then none else some (UInt32.ofNat n)

namespace Spec

/-- What may follow the symbol and a space: a delay, or a process number with or without a delay before it.  The first `pid=`
counts, blanks before it are no part of the delay, and the number reaches up to the line end. -/
inductive SaysFields (l : Limits) : Text → Option UInt64 → Option UInt32 → Prop
  | delay {fields numeral : Text} {d : UInt64} (hpid : ¬ pidWord <:+: fields)
      (hend : Text.Trims Text.isLineEnd fields numeral) (hd : l.WritesDelay numeral d) :
      SaysFields l fields (some d) none
  | pid {fields before after numeral : Text} {n : Nat} (hpid : Text.FirstAt pidWord fields before after)
      (hblank : Text.Trims Text.isBlank before []) (hend : Text.Trims Text.isLineEnd after numeral)
      (hn : Decimal.WritesSigned numeral n) (hle : n ≤ Decimal.int32Max) :
      SaysFields l fields none (pidFor n)
  | both {fields before after delay numeral : Text} {d : UInt64} {n : Nat}
      (hpid : Text.FirstAt pidWord fields before after) (hblank : Text.Trims Text.isBlank before delay)
      (hd : l.WritesDelay delay d) (hend : Text.Trims Text.isLineEnd after numeral)
      (hn : Decimal.WritesSigned numeral n) (hle : n ≤ Decimal.int32Max) :
      SaysFields l fields (some d) (pidFor n)

/-- What may follow the path and its colon: a symbol up to the line end, or up to a space with more behind it. -/
inductive SaysTail (l : Limits) : Text → Text → Option UInt64 → Option UInt32 → Prop
  | bare {rest symbol : Text} (hspace : ' ' ∉ rest) (hend : Text.Trims Text.isLineEnd rest symbol) :
      SaysTail l rest symbol none none
  | fields {symbol fields : Text} {d : Option UInt64} {p : Option UInt32} (hspace : ' ' ∉ symbol)
      (hfields : SaysFields l fields d p) : SaysTail l (symbol ++ ' ' :: fields) symbol d p

/-- A target with what is asked of it: an absolute path up to the first colon, then a symbol that starts like a name. -/
def Says (l : Limits) (t : Text) (s : Spec) : Prop :=
  ∃ rest, t = s.key.path ++ ':' :: rest ∧ ':' ∉ s.key.path ∧ s.key.path.head? = some '/' ∧ s.key.path.Fits l.pathBytes ∧
    s.key.symbol.Fits l.symbolBytes ∧ (∃ c, s.key.symbol.head? = some c ∧ (c = '_' ∨ c.isAlpha = true)) ∧
    SaysTail l rest s.key.symbol s.delay s.pid

end Spec

/-- A target to remove: any path up to the first colon, then a symbol up to the line end. -/
def Key.Says (l : Limits) (t : Text) (k : Key) : Prop :=
  ∃ rest, t = k.path ++ ':' :: rest ∧ ':' ∉ k.path ∧ k.path.Fits l.pathBytes ∧ k.symbol.Fits l.symbolBytes ∧
    Text.Trims Text.isLineEnd rest k.symbol

namespace Command

inductive Says (l : Limits) : Text → Command → Prop
  | add {t : Text} {s : Spec} (h : s.Says l t) : Says l ('+' :: t) (.add s)
  | update {t : Text} {s : Spec} (h : s.Says l t) : Says l ('=' :: t) (.update s)
  | remove {t : Text} {k : Key} (h : k.Says l t) : Says l ('-' :: t) (.remove k)
  | removeAll : Says l ['-', '*'] .removeAll

end Command


/-! ## Reading a target with what is asked of it -/

namespace Spec

variable {l : Limits}

theorem readPid_eq_ok_iff {t : Text} {p : Option UInt32} :
    readPid t = .ok p ↔ ∃ (numeral : Text) (n : Nat), Text.Trims Text.isLineEnd t numeral ∧
      Decimal.WritesSigned numeral n ∧ n ≤ Decimal.int32Max ∧ p = pidFor n := by
  unfold readPid pidFor
  constructor
  · intro h
    cases hs : Decimal.signed Decimal.int32Max t.stripLineEnd with
    | error f => rw [hs] at h; cases h
    | ok z =>
      obtain ⟨hw, -, hle⟩ := Decimal.signed_eq_ok_iff.1 hs
      rw [hs] at h
      by_cases hz : z < 0
      · simp only [if_pos hz] at h
        cases h
      · obtain ⟨n, rfl⟩ := Int.eq_ofNat_of_zero_le (Int.not_lt.1 hz)
        refine ⟨_, n, Text.trimEnd_eq_iff.1 rfl, hw, Int.ofNat_le.1 hle, ?_⟩
        simp only [if_neg hz, Int.natCast_eq_zero, Int.toNat_natCast] at h
        by_cases hn : n = 0
        · rw [if_pos hn] at h ⊢
          exact (Except.ok.inj h).symm
        · rw [if_neg hn] at h ⊢
          exact (Except.ok.inj h).symm
  · rintro ⟨numeral, n, ht, hw, hle, rfl⟩
    have hsigned : Decimal.signed Decimal.int32Max t.stripLineEnd = .ok (n : Int) := by
      unfold Text.stripLineEnd
      rw [Text.trimEnd_eq_iff.2 ht]
      exact Decimal.signed_eq_ok_iff.2 ⟨hw, by omega, Int.ofNat_le.2 hle⟩
    rw [hsigned]
    simp only [if_neg (Int.not_lt.2 (Int.natCast_nonneg n)), Int.natCast_eq_zero, Int.toNat_natCast]
    by_cases hn : n = 0
    · rw [if_pos hn, if_pos hn]
    · rw [if_neg hn, if_neg hn]

theorem readFields_eq_ok_iff {t : Text} {d : Option UInt64} {p : Option UInt32} :
    readFields l t = .ok (d, p) ↔ SaysFields l t d p := by
  have hword : pidWord ≠ [] := by decide
  unfold readFields
  constructor
  · intro h
    cases hc : Text.cutAt pidWord t with
    | none =>
      rw [hc] at h
      simp only at h
      cases hr : l.readDelay t.stripLineEnd with
      | error e => rw [hr] at h; cases h
      | ok n =>
        rw [hr] at h
        cases h
        exact .delay ((Text.cutAt_eq_none_iff hword).1 hc) (Text.trimEnd_eq_iff.1 rfl) (Limits.readDelay_eq_ok_iff.1 hr)
    | some q =>
      obtain ⟨before, after⟩ := q
      have hfirst := (Text.cutAt_eq_some_iff hword).1 hc
      rw [hc] at h
      simp only at h
      cases hp : readPid after with
      | error e => rw [hp] at h; cases h
      | ok pid =>
        obtain ⟨numeral, n, hend, hn, hle, rfl⟩ := readPid_eq_ok_iff.1 hp
        rw [hp] at h
        simp only at h
        by_cases hd : before.trimEnd Text.isBlank = []
        · rw [if_pos hd] at h
          cases h
          exact .pid hfirst (Text.trimEnd_eq_iff.1 hd) hend hn hle
        · rw [if_neg hd] at h
          cases hr : l.readDelay (before.trimEnd Text.isBlank) with
          | error e => rw [hr] at h; cases h
          | ok m =>
            rw [hr] at h
            cases h
            exact .both hfirst (Text.trimEnd_eq_iff.1 rfl) (Limits.readDelay_eq_ok_iff.1 hr) hend hn hle
  · intro h
    cases h with
    | delay hpid hend hd =>
      unfold Text.stripLineEnd
      rw [(Text.cutAt_eq_none_iff hword).2 hpid, Text.trimEnd_eq_iff.2 hend]
      simp only [Limits.readDelay_eq_ok_iff.2 hd]
      rfl
    | pid hpid hblank hend hn hle =>
      simp only [(Text.cutAt_eq_some_iff hword).2 hpid, readPid_eq_ok_iff.2 ⟨_, _, hend, hn, hle, rfl⟩,
        Text.trimEnd_eq_iff.2 hblank, if_true]
    | both hpid hblank hd hend hn hle =>
      simp only [(Text.cutAt_eq_some_iff hword).2 hpid, readPid_eq_ok_iff.2 ⟨_, _, hend, hn, hle, rfl⟩,
        Text.trimEnd_eq_iff.2 hblank, if_neg hd.1.ne_nil, Limits.readDelay_eq_ok_iff.2 hd]
      rfl

theorem readTail_eq_ok_iff {rest symbol : Text} {d : Option UInt64} {p : Option UInt32} :
    readTail l rest = .ok (symbol, d, p) ↔ symbol.Fits l.symbolBytes ∧ SaysTail l rest symbol d p := by
  unfold readTail
  constructor
  · intro h
    cases hc : rest.cut ' ' with
    | none =>
      rw [hc] at h
      simp only at h
      cases hs : l.checkSymbol rest.stripLineEnd with
      | error e => rw [hs] at h; cases h
      | ok _ =>
        rw [hs] at h
        cases h
        exact ⟨Limits.checkSymbol_eq_ok_iff.1 hs, .bare (Text.cut_eq_none_iff.1 hc) (Text.trimEnd_eq_iff.1 rfl)⟩
    | some q =>
      obtain ⟨s, fields⟩ := q
      obtain ⟨rfl, hspace⟩ := Text.cut_eq_some_iff.1 hc
      rw [hc] at h
      simp only at h
      cases hs : l.checkSymbol s with
      | error e => rw [hs] at h; cases h
      | ok _ =>
        rw [hs] at h
        simp only at h
        cases hf : readFields l fields with
        | error e => rw [hf] at h; cases h
        | ok f =>
          rw [hf] at h
          cases h
          exact ⟨Limits.checkSymbol_eq_ok_iff.1 hs, .fields hspace (readFields_eq_ok_iff.1 hf)⟩
  · rintro ⟨hfits, htail⟩
    cases htail with
    | bare hspace hend =>
      have hstrip : rest.stripLineEnd = symbol := Text.trimEnd_eq_iff.2 hend
      simp only [Text.cut_eq_none_iff.2 hspace, hstrip, Limits.checkSymbol_eq_ok_iff.2 hfits]
    | fields hspace hfields =>
      simp only [Text.cut_append _ hspace, Limits.checkSymbol_eq_ok_iff.2 hfits, readFields_eq_ok_iff.2 hfields]
      rfl

theorem startsSymbol_iff {c : Char} : startsSymbol c = true ↔ c = '_' ∨ c.isAlpha = true := by
  unfold startsSymbol
  rw [Bool.or_eq_true, beq_iff_eq]

theorem any_startsSymbol_iff {t : Text} :
    t.head?.any startsSymbol = true ↔ ∃ c, t.head? = some c ∧ (c = '_' ∨ c.isAlpha = true) := by
  rw [Option.any_eq_true]
  exact exists_congr fun c => and_congr_right fun _ => startsSymbol_iff

/-- **A target is read exactly from what says it.** -/
theorem read_iff_says {t : Text} {s : Spec} : read l t = .ok s ↔ s.Says l t := by
  unfold read Says
  constructor
  · intro h
    cases hc : t.cut ':' with
    | none => rw [hc] at h; cases h
    | some q =>
      obtain ⟨path, rest⟩ := q
      obtain ⟨rfl, hcolon⟩ := Text.cut_eq_some_iff.1 hc
      rw [hc] at h
      simp only at h
      cases hp : l.checkPath path with
      | error e => rw [hp] at h; cases h
      | ok _ =>
        rw [hp] at h
        simp only at h
        by_cases hhead : path.head? = some '/'
        · rw [if_neg (not_not.2 hhead)] at h
          cases ht : readTail l rest with
          | error e => rw [ht] at h; cases h
          | ok q =>
            obtain ⟨symbol, d, p⟩ := q
            rw [ht] at h
            simp only at h
            obtain ⟨hfits, htail⟩ := readTail_eq_ok_iff.1 ht
            by_cases hstart : symbol.head?.any startsSymbol = true
            · rw [if_pos hstart] at h
              cases h
              exact ⟨rest, rfl, hcolon, hhead, Limits.checkPath_eq_ok_iff.1 hp, hfits, any_startsSymbol_iff.1 hstart,
                htail⟩
            · rw [if_neg hstart] at h
              cases h
        · rw [if_pos hhead] at h
          cases h
  · rintro ⟨rest, rfl, hcolon, hhead, hpath, hfits, hstart, htail⟩
    simp only [Text.cut_append rest hcolon, Limits.checkPath_eq_ok_iff.2 hpath, hhead, ne_eq, not_true_eq_false, if_false,
      readTail_eq_ok_iff.2 ⟨hfits, htail⟩, any_startsSymbol_iff.2 hstart, if_true]

end Spec

/-! ## Reading a line -/

namespace Command

variable {l : Limits} {t : Text} {c : Command}

theorem isStar_iff : isStar t = true ↔ t = ['*'] ∨ ['*', '\n'] <+: t := by
  unfold isStar
  rw [Bool.or_eq_true, decide_eq_true_iff, List.isPrefixOf_iff_prefix]

/-- **After a minus sign a star stands for every target, and everything else is a key.** -/
theorem readRemove_eq_ok_iff :
    readRemove l t = .ok c ↔
      isStar t = true ∧ c = .removeAll ∨ isStar t = false ∧ ∃ k : Key, c = .remove k ∧ k.Says l t := by
  unfold readRemove
  cases hstar : isStar t with
  | true =>
    rw [if_pos rfl]
    constructor
    · intro h; cases h; exact .inl ⟨rfl, rfl⟩
    · rintro (⟨-, rfl⟩ | ⟨h, -⟩)
      · rfl
      · cases h
  | false =>
    rw [if_neg Bool.false_ne_true]
    constructor
    · intro h
      refine .inr ⟨rfl, ?_⟩
      cases hc : t.cut ':' with
      | none => rw [hc] at h; cases h
      | some q =>
        obtain ⟨path, rest⟩ := q
        obtain ⟨rfl, hcolon⟩ := Text.cut_eq_some_iff.1 hc
        rw [hc] at h
        simp only at h
        cases hp : l.checkPath path with
        | error e => rw [hp] at h; cases h
        | ok _ =>
          rw [hp] at h
          simp only at h
          cases hs : l.checkSymbol rest.stripLineEnd with
          | error e => rw [hs] at h; cases h
          | ok _ =>
            rw [hs] at h
            cases h
            exact ⟨_, rfl, rest, rfl, hcolon, Limits.checkPath_eq_ok_iff.1 hp, Limits.checkSymbol_eq_ok_iff.1 hs,
              Text.trimEnd_eq_iff.1 rfl⟩
    · rintro (⟨h, -⟩ | ⟨-, k, rfl, rest, rfl, hcolon, hpath, hsymbol, hend⟩)
      · cases h
      · have hstrip : Text.stripLineEnd rest = k.symbol := Text.trimEnd_eq_iff.2 hend
        simp only [Text.cut_append rest hcolon, Limits.checkPath_eq_ok_iff.2 hpath, hstrip,
          Limits.checkSymbol_eq_ok_iff.2 hsymbol]
        rfl

theorem read_cons {op : Char} (h : Text.byteLength (op :: t) ≤ l.lineBytes) :
    read l (op :: t) =
      if op = '+' then (Spec.read l t).map .add
      else if op = '-' then readRemove l t
      else if op = '=' then (Spec.read l t).map .update
      else .error .invalidArgument := by
  simp only [read, if_neg (Nat.not_lt.2 h)]

theorem byteLength_le_of_read {line : Text} (h : read l line = .ok c) : line ≠ [] ∧ line.byteLength ≤ l.lineBytes := by
  cases line with
  | nil => cases h
  | cons op t =>
    unfold read at h
    simp only at h
    split at h
    · cases h
    · rename_i hlen
      exact ⟨List.cons_ne_nil _ _, Nat.not_lt.1 hlen⟩

theorem map_read_eq_ok_iff {f : Spec → Command} :
    (Spec.read l t).map f = .ok c ↔ ∃ s : Spec, c = f s ∧ s.Says l t := by
  constructor
  · intro h
    cases hs : Spec.read l t with
    | error e => rw [hs] at h; cases h
    | ok s =>
      rw [hs] at h
      cases h
      exact ⟨s, rfl, Spec.read_iff_says.1 hs⟩
  · rintro ⟨s, rfl, hs⟩
    rw [Spec.read_iff_says.2 hs]
    rfl

theorem read_plus_eq_ok_iff (h : Text.byteLength ('+' :: t) ≤ l.lineBytes) :
    read l ('+' :: t) = .ok c ↔ ∃ s : Spec, c = .add s ∧ s.Says l t := by
  rw [read_cons h, if_pos rfl, map_read_eq_ok_iff]

theorem read_equals_eq_ok_iff (h : Text.byteLength ('=' :: t) ≤ l.lineBytes) :
    read l ('=' :: t) = .ok c ↔ ∃ s : Spec, c = .update s ∧ s.Says l t := by
  rw [read_cons h, if_neg (by decide), if_neg (by decide), if_pos rfl, map_read_eq_ok_iff]

theorem read_minus_eq_ok_iff (h : Text.byteLength ('-' :: t) ≤ l.lineBytes) :
    read l ('-' :: t) = .ok c ↔
      isStar t = true ∧ c = .removeAll ∨ isStar t = false ∧ ∃ k : Key, c = .remove k ∧ k.Says l t := by
  rw [read_cons h, if_neg (by decide), if_pos rfl, readRemove_eq_ok_iff]

/-- A star is no key: there is no colon behind it. -/
theorem isStar_eq_false {k : Key} (hline : ¬ ['*', '\n'] <+: t) (h : k.Says l t) : isStar t = false := by
  obtain ⟨rest, rfl, -⟩ := h
  rw [← Bool.not_eq_true, isStar_iff, not_or]
  refine ⟨fun he => ?_, hline⟩
  have hmem : ':' ∈ ['*'] := he ▸ List.mem_append_right _ List.mem_cons_self
  exact absurd hmem (by decide)

/-- **A line is read as a command exactly when it is short enough and says that command.**  Left out are the lines that start
with a minus sign, a star and a line feed. -/
theorem read_eq_ok_iff {line : Text} (hline : ¬ ['-', '*', '\n'] <+: line) :
    read l line = .ok c ↔ line ≠ [] ∧ line.byteLength ≤ l.lineBytes ∧ c.Says l line := by
  constructor
  · intro h
    obtain ⟨hne, hlen⟩ := byteLength_le_of_read h
    refine ⟨hne, hlen, ?_⟩
    cases line with
    | nil => exact absurd rfl hne
    | cons op t =>
      by_cases hplus : op = '+'
      · subst hplus
        obtain ⟨s, rfl, hs⟩ := (read_plus_eq_ok_iff hlen).1 h
        exact .add hs
      · by_cases hminus : op = '-'
        · subst hminus
          rcases (read_minus_eq_ok_iff hlen).1 h with ⟨hstar, rfl⟩ | ⟨-, k, rfl, hk⟩
          · rcases isStar_iff.1 hstar with rfl | hfeed
            · exact .removeAll
            · exact absurd (List.cons_prefix_cons.2 ⟨rfl, hfeed⟩) hline
          · exact .remove hk
        · by_cases hequals : op = '='
          · subst hequals
            obtain ⟨s, rfl, hs⟩ := (read_equals_eq_ok_iff hlen).1 h
            exact .update hs
          · rw [read_cons hlen, if_neg hplus, if_neg hminus, if_neg hequals] at h
            cases h
  · rintro ⟨-, hlen, hsaid⟩
    cases hsaid with
    | add hs => exact (read_plus_eq_ok_iff hlen).2 ⟨_, rfl, hs⟩
    | update hs => exact (read_equals_eq_ok_iff hlen).2 ⟨_, rfl, hs⟩
    | remove hk =>
      have hfeed : ¬ ['*', '\n'] <+: _ := fun hp => hline (List.cons_prefix_cons.2 ⟨rfl, hp⟩)
      exact (read_minus_eq_ok_iff hlen).2 (.inr ⟨isStar_eq_false hfeed hk, _, rfl, hk⟩)
    | removeAll => exact (read_minus_eq_ok_iff hlen).2 (.inl ⟨rfl, rfl⟩)

theorem says_delay_tab_pid :
    ¬ ['-', '*', '\n'] <+: "+/bin/sh:main 0250 \tpid=+9\r\n".toList ∧
      Says {} "+/bin/sh:main 0250 \tpid=+9\r\n".toList
        (.add ⟨⟨"/bin/sh".toList, "main".toList⟩, some 250, some 9⟩) :=
  ⟨by decide, ((read_eq_ok_iff (by decide)).1 (by decide)).2.2⟩

end Command
end DelayProbe
