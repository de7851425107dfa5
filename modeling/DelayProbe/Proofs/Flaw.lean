import DelayProbe.Proofs.Grammar
/-!
# Flaw — what a text is refused for that asks for a target

A text with a colon falls into parts, good or bad, by where its separators stand (`Spec.HasParts`).  Seven checks look at the
parts, and `Spec.Fails` says of each by itself when a text fails it and what the refusal is then.  Of the checks that a text
fails the first in their order decides, whatever is wrong with the parts that later ones look at (`Spec.read_first_failure`).
-/
namespace DelayProbe

/-- What a request is refused with, if it is. -/
def refusal? {α : Type} : Except Refusal α → Option Refusal
  | .ok _ => none
  | .error e => some e

theorem refusal?_eq_some_iff {α : Type} {x : Except Refusal α} {e : Refusal} : refusal? x = some e ↔ x = .error e := by
  cases x <;> simp [refusal?]

theorem refusal?_map {α β : Type} (f : α → β) (x : Except Refusal α) : refusal? (x.map f) = refusal? x := by
  cases x <;> rfl

theorem findSome?_cons_eq_or {α β : Type} (f : α → Option β) (a : α) (as : List α) :
    (a :: as).findSome? f = (f a).or (as.findSome? f) := by
  rw [List.findSome?_cons]
  cases f a <;> rfl

namespace Spec

/-- What is looked at in turn before a target is asked for. -/
inductive Check where
  | separator
  | pathLength
  | absolutePath
  | symbolLength
  | pid
  | delay
  | symbolStart
  deriving DecidableEq, Repr

/-- All checks in their order.  The first character of the symbol comes last, though the symbol stands before the numbers. -/
def Check.all : List Check := [.separator, .pathLength, .absolutePath, .symbolLength, .pid, .delay, .symbolStart]

theorem Check.mem_all (c : Check) : c ∈ all := by cases c <;> decide

/-- The parts of a text, good or bad. -/
structure Parts where
  path : Text
  symbol : Text
  delay : Option Text
  pid : Option Text

/-- The delay and the process number among what follows the symbol and a space.  Without `pid=` all of it is the delay, even if
it is nothing. -/
inductive HasFields : Text → Option Text → Option Text → Prop
  | delay {fields delay : Text} (hpid : ¬ pidWord <:+: fields) (hend : Text.Trims Text.isLineEnd fields delay) :
      HasFields fields (some delay) none
  | pid {fields before after pid : Text} (hpid : Text.FirstAt pidWord fields before after)
      (hblank : Text.Trims Text.isBlank before []) (hend : Text.Trims Text.isLineEnd after pid) :
      HasFields fields none (some pid)
  | both {fields before after delay pid : Text} (hpid : Text.FirstAt pidWord fields before after)
      (hblank : Text.Trims Text.isBlank before delay) (hsome : delay ≠ []) (hend : Text.Trims Text.isLineEnd after pid) :
      HasFields fields (some delay) (some pid)

/-- The text falls into these parts. -/
inductive HasParts : Text → Parts → Prop
  | bare {path rest symbol : Text} (hcolon : ':' ∉ path) (hspace : ' ' ∉ rest)
      (hend : Text.Trims Text.isLineEnd rest symbol) : HasParts (path ++ ':' :: rest) ⟨path, symbol, none, none⟩
  | fields {path symbol fields : Text} {delay pid : Option Text} (hcolon : ':' ∉ path) (hspace : ' ' ∉ symbol)
      (hfields : HasFields fields delay pid) : HasParts (path ++ ':' :: (symbol ++ ' ' :: fields)) ⟨path, symbol, delay, pid⟩

/-- The text fails a check, whatever the others come to, and this is what it is then refused with. -/
inductive Fails (l : Limits) (t : Text) : Check → Refusal → Prop
  | separator (h : ':' ∉ t) : Fails l t .separator .invalidArgument
  | pathLength {p : Parts} (hp : HasParts t p) (h : ¬ p.path.Fits l.pathBytes) : Fails l t .pathLength .nameTooLong
  | absolutePath {p : Parts} (hp : HasParts t p) (h : p.path.head? ≠ some '/') : Fails l t .absolutePath .invalidArgument
  | symbolLength {p : Parts} (hp : HasParts t p) (h : ¬ p.symbol.Fits l.symbolBytes) : Fails l t .symbolLength .nameTooLong
  | pidOverflows {p : Parts} {n : Text} (hp : HasParts t p) (hn : p.pid = some n)
      (h : Decimal.OverflowsSigned Decimal.int32Max n) : Fails l t .pid .outOfRange
  | pidInvalid {p : Parts} {n : Text} (hp : HasParts t p) (hn : p.pid = some n)
      (hover : ¬ Decimal.OverflowsSigned Decimal.int32Max n) (h : ∀ z, Decimal.WritesSigned n z → z < 0) :
      Fails l t .pid .invalidArgument
  | delayExceeds {p : Parts} {n : Text} (hp : HasParts t p) (hn : p.delay = some n) (h : l.ExceedsDelay n) :
      Fails l t .delay .outOfRange
  | delayInvalid {p : Parts} {n : Text} (hp : HasParts t p) (hn : p.delay = some n) (hover : ¬ l.ExceedsDelay n)
      (h : ∀ v, ¬ Decimal.Writes n v) : Fails l t .delay .invalidArgument
  | symbolStart {p : Parts} (hp : HasParts t p) (h : ¬ ∃ c, p.symbol.head? = some c ∧ (c = '_' ∨ c.isAlpha = true)) :
      Fails l t .symbolStart .invalidArgument

/-! ## The parts, found -/

/-- The delay and the process number, cut out. -/
def fieldParts (fields : Text) : Option Text × Option Text :=
  match Text.cutAt pidWord fields with
  | none => (some fields.stripLineEnd, none)
  | some (before, after) =>
    (if before.trimEnd Text.isBlank = [] then none else some (before.trimEnd Text.isBlank), some after.stripLineEnd)

/-- The symbol, and the delay and the process number behind it. -/
def tailParts (rest : Text) : Text × Option Text × Option Text :=
  match rest.cut ' ' with
  | none => (rest.stripLineEnd, none, none)
  | some (symbol, fields) => (symbol, fieldParts fields)

def parts? (t : Text) : Option Parts :=
  (t.cut ':').map fun q => ⟨q.1, (tailParts q.2).1, (tailParts q.2).2.1, (tailParts q.2).2.2⟩

theorem fieldParts_eq_iff {fields : Text} {d p : Option Text} : fieldParts fields = (d, p) ↔ HasFields fields d p := by
  have hword : pidWord ≠ [] := by decide
  unfold fieldParts
  constructor
  · intro h
    cases hc : Text.cutAt pidWord fields with
    | none =>
      rw [hc] at h
      cases h
      exact .delay ((Text.cutAt_eq_none_iff hword).1 hc) (Text.trimEnd_eq_iff.1 rfl)
    | some q =>
      have hfirst := (Text.cutAt_eq_some_iff hword).1 hc
      rw [hc] at h
      simp only at h
      by_cases hd : q.1.trimEnd Text.isBlank = []
      · rw [if_pos hd] at h
        cases h
        exact .pid hfirst (Text.trimEnd_eq_iff.1 hd) (Text.trimEnd_eq_iff.1 rfl)
      · rw [if_neg hd] at h
        cases h
        exact .both hfirst (Text.trimEnd_eq_iff.1 rfl) hd (Text.trimEnd_eq_iff.1 rfl)
  · intro h
    cases h with
    | delay hpid hend =>
      have hstrip : fields.stripLineEnd = _ := Text.trimEnd_eq_iff.2 hend
      simp only [(Text.cutAt_eq_none_iff hword).2 hpid, hstrip]
    | pid hpid hblank hend =>
      have hstrip : Text.stripLineEnd _ = _ := Text.trimEnd_eq_iff.2 hend
      simp only [(Text.cutAt_eq_some_iff hword).2 hpid, Text.trimEnd_eq_iff.2 hblank, if_true, hstrip]
    | both hpid hblank hsome hend =>
      have hstrip : Text.stripLineEnd _ = _ := Text.trimEnd_eq_iff.2 hend
      simp only [(Text.cutAt_eq_some_iff hword).2 hpid, Text.trimEnd_eq_iff.2 hblank, if_neg hsome, hstrip]

theorem parts?_eq_some_iff {t : Text} {p : Parts} : parts? t = some p ↔ HasParts t p := by
  unfold parts? tailParts
  constructor
  · intro h
    obtain ⟨⟨path, rest⟩, hcut, rfl⟩ := Option.map_eq_some_iff.1 h
    obtain ⟨rfl, hcolon⟩ := Text.cut_eq_some_iff.1 hcut
    cases hc : rest.cut ' ' with
    | none => exact .bare hcolon (Text.cut_eq_none_iff.1 hc) (Text.trimEnd_eq_iff.1 rfl)
    | some q =>
      obtain ⟨symbol, fields⟩ := q
      obtain ⟨rfl, hspace⟩ := Text.cut_eq_some_iff.1 hc
      exact .fields hcolon hspace (fieldParts_eq_iff.1 rfl)
  · intro h
    cases h with
    | bare hcolon hspace hend =>
      have hstrip : Text.stripLineEnd _ = _ := Text.trimEnd_eq_iff.2 hend
      simp only [Text.cut_append _ hcolon, Option.map_some, Text.cut_eq_none_iff.2 hspace, hstrip]
    | fields hcolon hspace hfields =>
      simp only [Text.cut_append _ hcolon, Option.map_some, Text.cut_append _ hspace, fieldParts_eq_iff.2 hfields]

theorem mem_of_cut {sep : Char} {t : Text} {q : Text × Text} (h : t.cut sep = some q) : sep ∈ t := by
  rw [(Text.cut_eq_some_iff.1 h).1]
  exact List.mem_append_right _ List.mem_cons_self

/-! ## The checks, made -/

def pidFault (t : Text) : Option Refusal :=
  match Decimal.signed Decimal.int32Max t with
  | .error f => some (.ofDecimal f)
  | .ok z => if z < 0 then some .invalidArgument else none

/-- What the numbers behind the symbol are refused for; the process number is looked at before the delay. -/
def fieldFault (l : Limits) (parts : Option Text × Option Text) : Option Refusal :=
  (parts.2.bind pidFault).or (parts.1.bind fun n => refusal? (l.readDelay n))

def startFault (symbol : Text) : Option Refusal :=
  if symbol.head?.any startsSymbol then none else some .invalidArgument

/-- What a check has against a text, whatever the others have. -/
def objection (l : Limits) (t : Text) : Check → Option Refusal
  | .separator => if ':' ∈ t then none else some .invalidArgument
  | .pathLength => (parts? t).bind fun p => refusal? (l.checkPath p.path)
  | .absolutePath => (parts? t).bind fun p => if p.path.head? = some '/' then none else some .invalidArgument
  | .symbolLength => (parts? t).bind fun p => refusal? (l.checkSymbol p.symbol)
  | .pid => (parts? t).bind fun p => p.pid.bind pidFault
  | .delay => (parts? t).bind fun p => p.delay.bind fun n => refusal? (l.readDelay n)
  | .symbolStart => (parts? t).bind fun p => startFault p.symbol

variable {l : Limits} {t : Text} {e : Refusal}

theorem pidFault_eq_some_iff : pidFault t = some e ↔
    Decimal.OverflowsSigned Decimal.int32Max t ∧ e = .outOfRange ∨
      (¬ Decimal.OverflowsSigned Decimal.int32Max t ∧ ∀ z, Decimal.WritesSigned t z → z < 0) ∧ e = .invalidArgument := by
  unfold pidFault
  cases hs : Decimal.signed Decimal.int32Max t with
  | error f =>
    cases f with
    | overflow =>
      have hover := Decimal.signed_eq_overflow_iff.1 hs
      simp [Refusal.ofDecimal, hover, eq_comm]
    | invalid =>
      obtain ⟨hover, hnone⟩ := Decimal.signed_eq_invalid_iff.1 hs
      simp [Refusal.ofDecimal, hover, hnone, eq_comm]
  | ok z =>
    have hover : ¬ Decimal.OverflowsSigned Decimal.int32Max t := fun ho => by
      rw [Decimal.signed_eq_overflow_iff.2 ho] at hs
      cases hs
    have hw := (Decimal.signed_eq_ok_iff.1 hs).1
    have hneg : (∀ y, Decimal.WritesSigned t y → y < 0) ↔ z < 0 := ⟨fun h => h z hw, fun h y hy => hy.unique hw ▸ h⟩
    simp [hover, hneg, eq_comm]

theorem startFault_eq_some_iff {symbol : Text} :
    startFault symbol = some e ↔
      (¬ ∃ c, symbol.head? = some c ∧ (c = '_' ∨ c.isAlpha = true)) ∧ e = .invalidArgument := by
  unfold startFault
  rw [Option.ite_none_left_eq_some, any_startsSymbol_iff, Option.some.injEq, eq_comm]

theorem refusal?_checkPath_eq_some_iff {path : Text} :
    refusal? (l.checkPath path) = some e ↔ ¬ path.Fits l.pathBytes ∧ e = .nameTooLong := by
  rw [refusal?_eq_some_iff, Limits.checkPath, Text.ite_eq_error_iff]

theorem refusal?_checkSymbol_eq_some_iff {symbol : Text} :
    refusal? (l.checkSymbol symbol) = some e ↔ ¬ symbol.Fits l.symbolBytes ∧ e = .nameTooLong := by
  rw [refusal?_eq_some_iff, Limits.checkSymbol, Text.ite_eq_error_iff]

/-- **A check has something against a text exactly if the text fails it.** -/
theorem objection_eq_some_iff {c : Check} : objection l t c = some e ↔ Fails l t c e := by
  cases c with
  | separator =>
    rw [objection, Option.ite_none_left_eq_some, Option.some.injEq]
    constructor
    · rintro ⟨h, rfl⟩
      exact .separator h
    · intro h
      cases h with
      | separator h => exact ⟨h, rfl⟩
  | pathLength =>
    simp only [objection, Option.bind_eq_some_iff, parts?_eq_some_iff, refusal?_checkPath_eq_some_iff]
    constructor
    · rintro ⟨p, hp, h, rfl⟩
      exact .pathLength hp h
    · intro h
      cases h with
      | pathLength hp h => exact ⟨_, hp, h, rfl⟩
  | absolutePath =>
    simp only [objection, Option.bind_eq_some_iff, parts?_eq_some_iff, Option.ite_none_left_eq_some, Option.some.injEq]
    constructor
    · rintro ⟨p, hp, h, rfl⟩
      exact .absolutePath hp h
    · intro h
      cases h with
      | absolutePath hp h => exact ⟨_, hp, h, rfl⟩
  | symbolLength =>
    simp only [objection, Option.bind_eq_some_iff, parts?_eq_some_iff, refusal?_checkSymbol_eq_some_iff]
    constructor
    · rintro ⟨p, hp, h, rfl⟩
      exact .symbolLength hp h
    · intro h
      cases h with
      | symbolLength hp h => exact ⟨_, hp, h, rfl⟩
  | pid =>
    simp only [objection, Option.bind_eq_some_iff, parts?_eq_some_iff, pidFault_eq_some_iff]
    constructor
    · rintro ⟨p, hp, n, hn, ⟨h, rfl⟩ | ⟨⟨hover, h⟩, rfl⟩⟩
      · exact .pidOverflows hp hn h
      · exact .pidInvalid hp hn hover h
    · intro h
      cases h with
      | pidOverflows hp hn h => exact ⟨_, hp, _, hn, .inl ⟨h, rfl⟩⟩
      | pidInvalid hp hn hover h => exact ⟨_, hp, _, hn, .inr ⟨⟨hover, h⟩, rfl⟩⟩
  | delay =>
    simp only [objection, Option.bind_eq_some_iff, parts?_eq_some_iff, refusal?_eq_some_iff,
      Limits.readDelay_eq_error_iff]
    constructor
    · rintro ⟨p, hp, n, hn, ⟨h, rfl⟩ | ⟨⟨hover, h⟩, rfl⟩⟩
      · exact .delayExceeds hp hn h
      · exact .delayInvalid hp hn hover h
    · intro h
      cases h with
      | delayExceeds hp hn h => exact ⟨_, hp, _, hn, .inl ⟨h, rfl⟩⟩
      | delayInvalid hp hn hover h => exact ⟨_, hp, _, hn, .inr ⟨⟨hover, h⟩, rfl⟩⟩
  | symbolStart =>
    simp only [objection, Option.bind_eq_some_iff, parts?_eq_some_iff, startFault_eq_some_iff]
    constructor
    · rintro ⟨p, hp, h, rfl⟩
      exact .symbolStart hp h
    · intro h
      cases h with
      | symbolStart hp h => exact ⟨_, hp, h, rfl⟩

/-! ## The first check that a text fails -/

theorem refusal?_readPid : refusal? (readPid t) = pidFault t.stripLineEnd := by
  unfold readPid pidFault
  cases Decimal.signed Decimal.int32Max t.stripLineEnd with
  | error f => rfl
  | ok z =>
    by_cases hneg : z < 0
    · simp only [if_pos hneg, refusal?]
    · simp only [if_neg hneg]
      split <;> rfl

theorem refusal?_readFields {fields : Text} : refusal? (readFields l fields) = fieldFault l (fieldParts fields) := by
  unfold readFields fieldParts fieldFault
  cases Text.cutAt pidWord fields with
  | none => exact refusal?_map _ _
  | some q =>
    simp only [Option.bind_some, ← refusal?_readPid]
    cases readPid q.2 with
    | error e => rfl
    | ok pid =>
      by_cases hd : q.1.trimEnd Text.isBlank = []
      · simp only [if_pos hd]
        rfl
      · simp only [if_neg hd]
        exact refusal?_map _ _

theorem refusal?_readTail {rest : Text} :
    refusal? (readTail l rest) =
      (refusal? (l.checkSymbol (tailParts rest).1)).or (fieldFault l (tailParts rest).2) := by
  unfold readTail tailParts
  cases rest.cut ' ' with
  | none =>
    simp only
    cases l.checkSymbol rest.stripLineEnd <;> rfl
  | some q =>
    simp only
    cases l.checkSymbol q.1 with
    | error e => rfl
    | ok _ => exact (refusal?_map _ _).trans refusal?_readFields

/-- The symbol that is read is the one that stands there. -/
theorem tailParts_of_readTail {rest symbol : Text} {d : Option UInt64} {p : Option UInt32}
    (h : readTail l rest = .ok (symbol, d, p)) : (tailParts rest).1 = symbol := by
  unfold tailParts
  cases (readTail_eq_ok_iff.1 h).2 with
  | bare hspace hend =>
    simp only [Text.cut_eq_none_iff.2 hspace]
    exact Text.trimEnd_eq_iff.2 hend
  | fields hspace hfields => simp only [Text.cut_append _ hspace]

/-- What a text is refused for is what the first check has against it that has anything against it. -/
theorem refusal?_read : refusal? (read l t) = Check.all.findSome? (objection l t) := by
  unfold read
  simp only [Check.all, findSome?_cons_eq_or, List.findSome?_nil, Option.or_none, objection]
  cases hc : t.cut ':' with
  | none =>
    rw [if_neg (Text.cut_eq_none_iff.1 hc)]
    rfl
  | some q =>
    have hcolon : ':' ∈ t := mem_of_cut hc
    have hparts : parts? t = some ⟨q.1, (tailParts q.2).1, (tailParts q.2).2.1, (tailParts q.2).2.2⟩ := by
      rw [parts?, hc, Option.map_some]
    -- the checks of what stands behind the colon are made together
    have htail (start : Option Refusal) :
        (refusal? (l.checkSymbol (tailParts q.2).1)).or (((tailParts q.2).2.2.bind pidFault).or
          (((tailParts q.2).2.1.bind fun n => refusal? (l.readDelay n)).or start)) =
        (refusal? (readTail l q.2)).or start := by
      rw [refusal?_readTail, fieldFault, Option.or_assoc, Option.or_assoc]
    rw [if_pos hcolon, Option.none_or, hparts]
    simp only [Option.bind_some, htail]
    cases l.checkPath q.1 with
    | error e => rfl
    | ok _ =>
      by_cases hhead : q.1.head? = some '/'
      · simp only [hhead, ne_eq, not_true_eq_false, if_false, if_true]
        cases hr : readTail l q.2 with
        | error e => rfl
        | ok r =>
          obtain ⟨symbol, d, p⟩ := r
          simp only [startFault, tailParts_of_readTail hr]
          split <;> rfl
      · simp only [hhead, ne_eq, not_false_eq_true, if_true, if_false]
        rfl

/-- **A text is refused for the first check that it fails, whatever is wrong with it besides, and it is read if it fails
none.** -/
theorem read_first_failure (l : Limits) (t : Text) :
    (∀ e, read l t = .error e ↔ ∃ before c after, Check.all = before ++ c :: after ∧ Fails l t c e ∧
      ∀ b ∈ before, ∀ e', ¬ Fails l t b e') ∧
    ((∃ s, read l t = .ok s) ↔ ∀ c e, ¬ Fails l t c e) := by
  have hnone (c : Check) : objection l t c = none ↔ ∀ e, ¬ Fails l t c e := by
    simp only [Option.eq_none_iff_forall_ne_some, ne_eq, objection_eq_some_iff]
  constructor
  · intro e
    rw [← refusal?_eq_some_iff, refusal?_read, List.findSome?_eq_some_iff]
    simp only [objection_eq_some_iff, hnone]
  · calc (∃ s, read l t = .ok s) ↔ refusal? (read l t) = none := by cases read l t <;> simp [refusal?]
      _ ↔ ∀ c ∈ Check.all, objection l t c = none := by rw [refusal?_read, List.findSome?_eq_none_iff]
      _ ↔ ∀ c e, ¬ Fails l t c e := by simp only [Check.mem_all, forall_const, hnone]

/-- The symbol starts with a digit and the delay is no numeral, but the process number comes first. -/
example : read {} "/a:1b x pid=99999999999".toList = .error .outOfRange := by decide

end Spec
end DelayProbe
