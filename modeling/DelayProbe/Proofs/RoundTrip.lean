import DelayProbe.Proofs.Grammar
import Mathlib.Algebra.Group.Nat.Defs
/-!
# RoundTrip — which commands survive being written and read

What a command says about itself (`Command.text`) is not always what is read back: a colon in a path ends the path early, a
space in a symbol ends the symbol, a line end may be stripped, and 0 is no process.  `Command.Printable` excludes exactly
these (`Command.read_text_eq_ok_iff`).
-/
namespace DelayProbe

namespace Text

/-- A text that trimming a line end leaves alone. -/
def KeepsEnd (t : Text) : Prop := ∀ c ∈ t.getLast?, isLineEnd c = false

theorem trims_self_iff {t : Text} : Trims isLineEnd t t ↔ t.KeepsEnd :=
  ⟨fun ⟨_, _, _, h⟩ => h, trims_self⟩

theorem firstAt_of_not_mem {c : Char} {w a b : Text} (h : c ∉ a) : FirstAt (c :: w) (a ++ (c :: w) ++ b) a b := by
  refine ⟨rfl, fun x y hxy => ?_⟩
  rw [List.append_assoc, List.append_assoc] at hxy
  rcases List.append_eq_append_iff.1 hxy with ⟨as, rfl, -⟩ | ⟨cs, rfl, hcs⟩
  · rw [List.length_append]
    exact Nat.le_add_right _ _
  · cases cs with
    | nil => rw [List.append_nil]
    | cons d cs =>
      rw [List.cons_append, List.cons_append, List.cons.injEq] at hcs
      exact absurd (List.mem_append_right _ (hcs.1 ▸ List.mem_cons_self)) h

theorem byteLength_eq_length {t : Text} (h : ∀ c ∈ t, c.utf8Size = 1) : t.byteLength = t.length := by
  induction t with
  | nil => rfl
  | cons c t ih =>
    rw [byteLength_cons, h c List.mem_cons_self, ih fun x hx => h x (List.mem_cons_of_mem _ hx), List.length_cons]
    exact Nat.add_comm _ _

end Text

namespace Decimal

theorem digit_cases {c : Char} (h : c.isDigit = true) : 48 ≤ c.toNat ∧ c.toNat ≤ 57 := by
  unfold Char.isDigit at h
  rw [Bool.and_eq_true, decide_eq_true_iff, decide_eq_true_iff] at h
  exact ⟨UInt32.le_iff_toNat_le.1 h.1, UInt32.le_iff_toNat_le.1 h.2⟩

theorem mem_text {n : Nat} {c : Char} (hc : c ∈ text n) : 48 ≤ c.toNat ∧ c.toNat ≤ 57 :=
  digit_cases ((isDigits_text n).2 c hc)

theorem not_mem_text {n : Nat} {c : Char} (hc : c.isDigit = false) : c ∉ text n := (isDigits_text n).not_mem hc

theorem byteLength_text_le {n k : Nat} (hk : 0 < k) (hn : n < 10 ^ k) : (text n).byteLength ≤ k := by
  rw [Text.byteLength_eq_length fun c hc => ?_]
  · exact (Nat.length_toDigits_le_iff (by decide) hk).2 hn
  · have := mem_text hc
    rw [Char.utf8Size_eq_one_iff, UInt32.le_iff_toNat_le]
    show c.toNat ≤ 127
    omega

theorem trims_text {p : Char → Bool} (hp : ∀ c, c.isDigit = true → p c = false) (n : Nat) : Text.Trims p (text n) (text n) :=
  Text.trims_self fun c hc => hp c ((isDigits_text n).2 c (List.mem_of_getLast? hc))

end Decimal

namespace Text

theorem isLineEnd_of_isDigit (c : Char) (h : c.isDigit = true) : isLineEnd c = false := by
  have := Decimal.digit_cases h
  unfold isLineEnd
  rw [Bool.or_eq_false_iff, beq_eq_false_iff_ne, beq_eq_false_iff_ne]
  constructor <;> rintro rfl <;> revert this <;> decide

theorem isBlank_of_isDigit (c : Char) (h : c.isDigit = true) : isBlank c = false := by
  have := Decimal.digit_cases h
  unfold isBlank
  rw [Bool.or_eq_false_iff, beq_eq_false_iff_ne, beq_eq_false_iff_ne]
  constructor <;> rintro rfl <;> revert this <;> decide

end Text

theorem pidFor_toNat {p : UInt32} (h : p ≠ 0) : pidFor p.toNat = some p := by
  have hne : p.toNat ≠ 0 := fun he => h (UInt32.toNat_inj.1 he)
  unfold pidFor
  rw [if_neg hne, UInt32.ofNat_toNat]

theorem pidFor_eq_some {n : Nat} {p : UInt32} (hn : n ≤ Decimal.int32Max) (h : pidFor n = some p) :
    1 ≤ p.toNat ∧ p.toNat ≤ Decimal.int32Max := by
  unfold pidFor at h
  split at h
  · cases h
  · rename_i hne
    cases h
    unfold Decimal.int32Max at hn ⊢
    rw [UInt32.toNat_ofNat_of_lt' (show n < 2 ^ 32 by omega)]
    omega

/-- What the name of a target is like that a line can add. -/
structure Key.Addable (l : Limits) (k : Key) : Prop where
  absolute : k.path.head? = some '/'
  no_colon : ':' ∉ k.path
  path_lt : k.path.byteLength < l.pathBytes
  starts : ∃ c, k.symbol.head? = some c ∧ (c = '_' ∨ c.isAlpha = true)
  no_space : ' ' ∉ k.symbol
  symbol_lt : k.symbol.byteLength < l.symbolBytes

namespace Spec

/-- What a target and what is asked of it are like that a line can say. -/
structure Askable (l : Limits) (s : Spec) : Prop where
  key : s.key.Addable l
  delay_le : ∀ d ∈ s.delay, d ≤ l.longestDelay
  pid_range : ∀ p ∈ s.pid, 1 ≤ p.toNat ∧ p.toNat ≤ Decimal.int32Max

/-- What a target and what is asked of it have to be like to be read back. -/
structure Printable (l : Limits) (s : Spec) : Prop where
  absolute : s.key.path.head? = some '/'
  no_colon : ':' ∉ s.key.path
  path_lt : s.key.path.byteLength < l.pathBytes
  starts : ∃ c, s.key.symbol.head? = some c ∧ (c = '_' ∨ c.isAlpha = true)
  no_space : ' ' ∉ s.key.symbol
  symbol_lt : s.key.symbol.byteLength < l.symbolBytes
  keepsEnd : s.delay = none → s.pid = none → s.key.symbol.KeepsEnd
  delay_le : ∀ d ∈ s.delay, d ≤ l.longestDelay
  pid_range : ∀ p ∈ s.pid, 1 ≤ p.toNat ∧ p.toNat ≤ Decimal.int32Max

variable {l : Limits} {s : Spec}

/-- **What can be read back is what a line can say**, but for a line end that a symbol keeps with nothing behind it. -/
theorem printable_iff : s.Printable l ↔ s.Askable l ∧ (s.delay = none → s.pid = none → s.key.symbol.KeepsEnd) :=
  ⟨fun h => ⟨⟨⟨h.absolute, h.no_colon, h.path_lt, h.starts, h.no_space, h.symbol_lt⟩, h.delay_le, h.pid_range⟩, h.keepsEnd⟩,
    fun ⟨⟨k, hd, hp⟩, hkeep⟩ =>
      ⟨k.absolute, k.no_colon, k.path_lt, k.starts, k.no_space, k.symbol_lt, hkeep, hd, hp⟩⟩

theorem text_eq (s : Spec) :
    s.text = s.key.path ++ ':' :: (s.key.symbol ++ (delayText s.delay ++ pidText s.pid)) := by
  unfold text Key.text
  rw [List.append_assoc, List.append_assoc, List.cons_append]

/-- **What is printed behind a symbol is read back exactly if its numbers are in range.** -/
theorem saysTail_print_iff {symbol : Text} {d : Option UInt64} {p : Option UInt32} :
    SaysTail l (symbol ++ (delayText d ++ pidText p)) symbol d p ↔
      ' ' ∉ symbol ∧ (d = none → p = none → symbol.KeepsEnd) ∧ (∀ n ∈ d, n ≤ l.longestDelay) ∧
        ∀ n ∈ p, 1 ≤ n.toNat ∧ n.toNat ≤ Decimal.int32Max := by
  constructor
  · intro h
    generalize hr : symbol ++ (delayText d ++ pidText p) = rest at h
    cases h with
    | bare hspace hend =>
      have hrest : symbol ++ [] = rest := hr
      rw [List.append_nil] at hrest
      subst hrest
      exact ⟨hspace, fun _ _ => Text.trims_self_iff.1 hend, by simp, by simp⟩
    | fields hspace hfields =>
      have hmore := List.append_cancel_left hr
      refine ⟨hspace, ?_, ?_, ?_⟩
      · rintro rfl rfl
        cases hmore
      · intro n hn
        cases hfields with
        | delay _ _ hd => exact Option.some.inj hn ▸ hd.2
        | pid => cases hn
        | both _ _ hd => exact Option.some.inj hn ▸ hd.2
      · intro n hn
        cases hfields with
        | delay => cases hn
        | pid _ _ _ _ hle => exact pidFor_eq_some hle hn
        | both _ _ _ _ _ hle => exact pidFor_eq_some hle hn
  · rintro ⟨hspace, hkeep, hd, hp⟩
    have hsigned : ∀ n, Decimal.WritesSigned (Decimal.text n) n := fun n => .inl ⟨n, Decimal.writes_text n, rfl⟩
    have hline := Decimal.trims_text Text.isLineEnd_of_isDigit
    have hpid : ∀ n ∈ p, p = pidFor n.toNat := fun n hn => by
      obtain ⟨hlo, -⟩ := hp n hn
      rw [pidFor_toNat fun he => by rw [he] at hlo; exact absurd hlo (by decide)]
      exact hn
    cases d with
    | none =>
      cases p with
      | none =>
        rw [show symbol ++ (delayText none ++ pidText none) = symbol from List.append_nil symbol]
        exact .bare hspace (Text.trims_self_iff.2 (hkeep rfl rfl))
      | some n =>
        have hfirst : Text.FirstAt pidWord (pidWord ++ Decimal.text n.toNat) [] (Decimal.text n.toNat) :=
          Text.firstAt_of_not_mem List.not_mem_nil
        have hmore : delayText none ++ pidText (some n) = ' ' :: (pidWord ++ Decimal.text n.toNat) := rfl
        rw [hmore, hpid n rfl]
        exact .fields hspace (.pid hfirst (Text.trims_self (by simp)) (hline _) (hsigned _) (hp n rfl).2)
    | some m =>
      have hwrites : l.WritesDelay (Decimal.text m.toNat) m := ⟨Decimal.writes_text _, hd m rfl⟩
      cases p with
      | none =>
        have hnone : ¬ pidWord <:+: Decimal.text m.toNat := fun h =>
          Decimal.not_mem_text (c := 'p') (by decide) (h.subset List.mem_cons_self)
        rw [show symbol ++ (delayText (some m) ++ pidText none) = symbol ++ ' ' :: Decimal.text m.toNat from
          congrArg (symbol ++ ·) (List.append_nil _)]
        exact .fields hspace (.delay hnone (hline _) hwrites)
      | some n =>
        have hfirst : Text.FirstAt pidWord (Decimal.text m.toNat ++ [' '] ++ pidWord ++ Decimal.text n.toNat)
            (Decimal.text m.toNat ++ [' ']) (Decimal.text n.toNat) := by
          refine Text.firstAt_of_not_mem fun h => ?_
          rcases List.mem_append.1 h with h | h
          · exact Decimal.not_mem_text (by decide) h
          · exact absurd h (by decide)
        have hspaceBlank : ∀ c ∈ [' '], Text.isBlank c = true := fun c hc => by
          rw [List.mem_singleton.1 hc]
          rfl
        have hblank : Text.Trims Text.isBlank (Decimal.text m.toNat ++ [' ']) (Decimal.text m.toNat) :=
          Text.Trims.of_not_mem hspaceBlank fun c hc => Text.isBlank_of_isDigit c ((Decimal.isDigits_text _).2 c hc)
        have hmore : delayText (some m) ++ pidText (some n) =
            ' ' :: (Decimal.text m.toNat ++ [' '] ++ pidWord ++ Decimal.text n.toNat) := by
          simp [delayText, pidText]
        rw [hmore, hpid n rfl]
        exact .fields hspace (.both hfirst hblank hwrites (hline _) (hsigned _) (hp n rfl).2)

/-- **A target and what is asked of it are said by their own text exactly if they are printable.** -/
theorem says_text_iff : s.Says l s.text ↔ s.Printable l := by
  rw [text_eq]
  constructor
  · rintro ⟨rest, hrest, hcolon, habs, ⟨-, hpath⟩, ⟨-, hsymbol⟩, hstarts, htail⟩
    have hr := (List.cons.inj (List.append_cancel_left hrest)).2
    subst hr
    obtain ⟨hspace, hkeep, hd, hp⟩ := saysTail_print_iff.1 htail
    exact ⟨habs, hcolon, hpath, hstarts, hspace, hsymbol, hkeep, hd, hp⟩
  · rintro ⟨habs, hcolon, hpath, hstarts, hspace, hsymbol, hkeep, hd, hp⟩
    have hpne : s.key.path ≠ [] := fun he => by rw [he] at habs; cases habs
    have hsne : s.key.symbol ≠ [] := fun he => by
      obtain ⟨c, hc, -⟩ := hstarts
      rw [he] at hc
      cases hc
    exact ⟨_, rfl, hcolon, habs, ⟨hpne, hpath⟩, ⟨hsne, hsymbol⟩, hstarts,
      saysTail_print_iff.2 ⟨hspace, hkeep, hd, hp⟩⟩

theorem Askable.byteLength_le (h : s.Askable {}) : s.text.byteLength + 1 ≤ 512 := by
  have hpath := h.key.path_lt
  have hsymbol := h.key.symbol_lt
  have hd : (delayText s.delay).byteLength ≤ 12 := by
    cases hs : s.delay with
    | none => exact Nat.zero_le _
    | some d =>
      have hle := UInt64.le_iff_toNat_le.1 (h.delay_le d hs)
      have hlen := Decimal.byteLength_text_le (n := d.toNat) (k := 11) (by decide)
        (Nat.lt_of_le_of_lt hle (by decide))
      have hspace : (' ' : Char).utf8Size = 1 := by decide
      rw [delayText, Text.byteLength_cons, hspace]
      omega
  have hp : (pidText s.pid).byteLength ≤ 15 := by
    cases hs : s.pid with
    | none => exact Nat.zero_le _
    | some p =>
      have hle := (h.pid_range p hs).2
      have hlen := Decimal.byteLength_text_le (n := p.toNat) (k := 10) (by decide)
        (Nat.lt_of_le_of_lt hle (by decide))
      have hspace : (' ' : Char).utf8Size = 1 := by decide
      have hword : pidWord.byteLength = 4 := by decide
      rw [pidText, Text.byteLength_cons, Text.byteLength_append, hspace, hword]
      omega
  have hcolon : (':' : Char).utf8Size = 1 := by decide
  rw [text_eq, Text.byteLength_append, Text.byteLength_cons, Text.byteLength_append, Text.byteLength_append, hcolon]
  have h1 : ({} : Limits).pathBytes = 256 := rfl
  have h2 : ({} : Limits).symbolBytes = 128 := rfl
  omega

end Spec

namespace Key

/-- What a name of a target to remove has to be like to be read back. -/
structure Printable (l : Limits) (k : Key) : Prop where
  path_ne : k.path ≠ []
  path_lt : k.path.byteLength < l.pathBytes
  no_colon : ':' ∉ k.path
  no_star : ¬ ['*', '\n'] <+: k.path
  symbol_ne : k.symbol ≠ []
  symbol_lt : k.symbol.byteLength < l.symbolBytes
  keepsEnd : k.symbol.KeepsEnd

variable {l : Limits} {k : Key}

theorem star_text_iff (hne : k.path ≠ []) : ['*', '\n'] <+: k.text ↔ ['*', '\n'] <+: k.path := by
  unfold text
  constructor
  · intro h
    match hp : k.path with
    | [] => exact absurd hp hne
    | [c] =>
      rw [hp] at h
      obtain ⟨-, h'⟩ := List.cons_prefix_cons.1 h
      obtain ⟨hc, -⟩ := List.cons_prefix_cons.1 h'
      exact absurd hc (by decide)
    | c :: d :: r =>
      rw [hp] at h
      obtain ⟨rfl, h'⟩ := List.cons_prefix_cons.1 h
      obtain ⟨rfl, -⟩ := List.cons_prefix_cons.1 h'
      exact ⟨r, rfl⟩
  · exact fun h => h.trans (List.prefix_append _ _)

/-- **A key is read back behind a minus sign exactly if it is printable.** -/
theorem says_text_iff : Command.isStar k.text = false ∧ k.Says l k.text ↔ k.Printable l := by
  constructor
  · rintro ⟨hstar, rest, hrest, hcolon, ⟨hpne, hpath⟩, ⟨hsne, hsymbol⟩, hend⟩
    have hr := (List.cons.inj (List.append_cancel_left hrest)).2
    subst hr
    refine ⟨hpne, hpath, hcolon, fun h => ?_, hsne, hsymbol, Text.trims_self_iff.1 hend⟩
    rw [Command.isStar_iff.2 (.inr ((star_text_iff hpne).2 h))] at hstar
    cases hstar
  · rintro ⟨hpne, hpath, hcolon, hstar, hsne, hsymbol, hkeep⟩
    have hk : k.Says l k.text :=
      ⟨k.symbol, rfl, hcolon, ⟨hpne, hpath⟩, ⟨hsne, hsymbol⟩, Text.trims_self_iff.2 hkeep⟩
    exact ⟨Command.isStar_eq_false (fun h => hstar ((star_text_iff hpne).1 h)) hk, hk⟩

theorem Printable.byteLength_le (h : k.Printable {}) : k.text.byteLength + 1 ≤ 512 := by
  have hpath := h.path_lt
  have hsymbol := h.symbol_lt
  have hcolon : (':' : Char).utf8Size = 1 := by decide
  unfold text
  rw [Text.byteLength_append, Text.byteLength_cons, hcolon]
  have h1 : ({} : Limits).pathBytes = 256 := rfl
  have h2 : ({} : Limits).symbolBytes = 128 := rfl
  omega

end Key

namespace Command

/-- The commands that are read back from what they print. -/
def Printable (l : Limits) : Command → Prop
  | .add s | .update s => s.Printable l
  | .remove k => k.Printable l
  | .removeAll => True

theorem byteLength_text_le {c : Command} (h : c.Printable {}) : c.text.byteLength ≤ ({} : Limits).lineBytes := by
  have h512 : ({} : Limits).lineBytes = 512 := rfl
  have hplus : ('+' : Char).utf8Size = 1 ∧ ('-' : Char).utf8Size = 1 ∧ ('=' : Char).utf8Size = 1 := by decide
  cases c with
  | add s =>
    have := (Spec.printable_iff.1 h).1.byteLength_le
    rw [text, Text.byteLength_cons]
    omega
  | remove k =>
    have := Key.Printable.byteLength_le h
    rw [text, Text.byteLength_cons]
    omega
  | removeAll => decide
  | update s =>
    have := (Spec.printable_iff.1 h).1.byteLength_le
    rw [text, Text.byteLength_cons]
    omega

/-- **A command survives being written and read exactly if it is printable.** -/
theorem read_text_eq_ok_iff (c : Command) : read {} c.text = .ok c ↔ c.Printable {} := by
  constructor
  · intro h
    have hlen := (byteLength_le_of_read h).2
    cases c with
    | add s =>
      obtain ⟨s', he, hs⟩ := (read_plus_eq_ok_iff hlen).1 h
      cases he
      exact Spec.says_text_iff.1 hs
    | remove k =>
      rcases (read_minus_eq_ok_iff hlen).1 h with ⟨-, he⟩ | ⟨hstar, k', he, hk⟩
      · cases he
      · cases he
        exact Key.says_text_iff.1 ⟨hstar, hk⟩
    | removeAll => trivial
    | update s =>
      obtain ⟨s', he, hs⟩ := (read_equals_eq_ok_iff hlen).1 h
      cases he
      exact Spec.says_text_iff.1 hs
  · intro h
    have hlen := byteLength_text_le h
    cases c with
    | add s => exact (read_plus_eq_ok_iff hlen).2 ⟨s, rfl, Spec.says_text_iff.2 h⟩
    | remove k =>
      obtain ⟨hstar, hk⟩ := Key.says_text_iff.2 h
      exact (read_minus_eq_ok_iff hlen).2 (.inr ⟨hstar, k, rfl, hk⟩)
    | removeAll => exact (read_minus_eq_ok_iff hlen).2 (.inl ⟨rfl, rfl⟩)
    | update s => exact (read_equals_eq_ok_iff hlen).2 ⟨s, rfl, Spec.says_text_iff.2 h⟩

end Command
end DelayProbe
