import DelayProbe.Limits
import DelayProbe.Proofs.Numeral
/-!
# Bounds — what passes the checks of lengths and delays

Each check of `Limits` is passed exactly by what is within its bound; a delay is read exactly when it is written as a numeral
and within the longest delay (`Limits.readDelay_eq_ok_iff`).  One that is not read is out of range if it writes too much, in
whole or up to where 64 bits no longer do, and otherwise no numeral (`Limits.readDelay_eq_error_iff`).  Together they say that
reading within 64 bits is reading the number itself, however long its numeral (`Limits.readDelay_exact`).
-/
namespace DelayProbe

/-- A name that is neither empty nor too long. -/
def Text.Fits (bound : Nat) (t : Text) : Prop := t ≠ [] ∧ t.byteLength < bound

theorem Text.fits_iff {bound : Nat} {t : Text} :
    t.Fits bound ↔ (if t = [] ∨ bound ≤ t.byteLength then Except.error Refusal.nameTooLong else .ok ()) = .ok () := by
  unfold Text.Fits
  by_cases h : t = [] ∨ bound ≤ t.byteLength
  · rw [if_pos h]
    exact ⟨fun hf => (h.elim hf.1 (Nat.not_le.2 hf.2)).elim, fun he => (by cases he)⟩
  · rw [if_neg h]
    rw [not_or, Nat.not_le] at h
    exact ⟨fun _ => rfl, fun _ => h⟩

theorem Text.ite_eq_error_iff {bound : Nat} {t : Text} {e : Refusal} :
    (if t = [] ∨ bound ≤ t.byteLength then Except.error Refusal.nameTooLong else .ok ()) = .error e ↔
      ¬ t.Fits bound ∧ e = .nameTooLong := by
  rw [Text.fits_iff]
  split
  · simp [eq_comm]
  · simp

namespace Limits

/-- A numeral for a delay within the limit. -/
def WritesDelay (l : Limits) (t : Text) (d : UInt64) : Prop := Decimal.Writes t d.toNat ∧ d ≤ l.longestDelay

/-- Some beginning of the text writes what needs more than 64 bits, or the text writes a delay past the limit. -/
def ExceedsDelay (l : Limits) (t : Text) : Prop :=
  Decimal.Overflows Decimal.word64Max t ∨ ∃ n, Decimal.Writes t n ∧ l.longestDelay.toNat < n

variable {l : Limits}

theorem checkPath_eq_ok_iff {path : Text} : l.checkPath path = .ok () ↔ path.Fits l.pathBytes := Text.fits_iff.symm

theorem checkSymbol_eq_ok_iff {symbol : Text} : l.checkSymbol symbol = .ok () ↔ symbol.Fits l.symbolBytes :=
  Text.fits_iff.symm

theorem checkDelay_eq_ok_iff {delay : UInt64} : l.checkDelay delay = .ok () ↔ delay ≤ l.longestDelay := by
  unfold checkDelay
  by_cases h : l.longestDelay < delay
  · simp [h, UInt64.not_le.2 h]
  · simp [h, UInt64.not_lt.1 h]

theorem readDelay_of_unread {t : Text} {f : DecimalFault} (h : Decimal.unsigned Decimal.word64Max t = .error f) :
    l.readDelay t = .error (.ofDecimal f) := by
  unfold readDelay
  rw [h]

theorem readDelay_of_unsigned {t : Text} {n : Nat} (h : Decimal.unsigned Decimal.word64Max t = .ok n) :
    l.readDelay t = if l.longestDelay.toNat < n then .error .outOfRange else .ok (UInt64.ofNat n) := by
  have hn := (Decimal.unsigned_eq_ok_iff.1 h).2
  unfold Decimal.word64Max at hn
  have hlt : l.longestDelay < UInt64.ofNat n ↔ l.longestDelay.toNat < n := by
    rw [UInt64.lt_iff_toNat_lt, UInt64.toNat_ofNat_of_lt' (show n < 2 ^ 64 by omega)]
  unfold readDelay checkDelay
  rw [h]
  simp only [hlt]
  split <;> rfl

/-- **A delay is read exactly when it is written as a numeral and within the limit.** -/
theorem readDelay_eq_ok_iff {t : Text} {d : UInt64} : l.readDelay t = .ok d ↔ l.WritesDelay t d := by
  unfold WritesDelay
  constructor
  · intro h
    cases hu : Decimal.unsigned Decimal.word64Max t with
    | error f =>
      rw [readDelay_of_unread hu] at h
      cases h
    | ok n =>
      obtain ⟨hw, hn⟩ := Decimal.unsigned_eq_ok_iff.1 hu
      unfold Decimal.word64Max at hn
      rw [readDelay_of_unsigned hu] at h
      split at h
      · cases h
      · rename_i hle
        cases h
        rw [UInt64.le_iff_toNat_le, UInt64.toNat_ofNat_of_lt' (show n < 2 ^ 64 by omega)]
        exact ⟨hw, Nat.not_lt.1 hle⟩
  · rintro ⟨hw, hd⟩
    have hlt := d.toNat_lt
    have hmax : d.toNat ≤ Decimal.word64Max := by
      unfold Decimal.word64Max
      omega
    have hu := Decimal.unsigned_eq_ok_iff.2 ⟨hw, hmax⟩
    rw [readDelay_of_unsigned hu, if_neg (Nat.not_lt.2 (UInt64.le_iff_toNat_le.1 hd)), UInt64.ofNat_toNat]

/-- **What is not read as a delay is out of range or no numeral at all.** -/
theorem readDelay_eq_error_iff {t : Text} {e : Refusal} :
    l.readDelay t = .error e ↔
      l.ExceedsDelay t ∧ e = .outOfRange ∨ (¬ l.ExceedsDelay t ∧ ∀ n, ¬ Decimal.Writes t n) ∧ e = .invalidArgument := by
  cases h : Decimal.unsigned Decimal.word64Max t with
  | error f =>
    rw [readDelay_of_unread h, Except.error.injEq, eq_comm]
    cases f with
    | overflow =>
      have hexceeds : l.ExceedsDelay t := .inl (Decimal.unsigned_eq_overflow_iff.1 h)
      simp [Refusal.ofDecimal, hexceeds]
    | invalid =>
      obtain ⟨hover, hnone⟩ := Decimal.unsigned_eq_invalid_iff.1 h
      have hexceeds : ¬ l.ExceedsDelay t := fun he => he.elim hover fun ⟨n, hw, _⟩ => hnone n hw
      simp [Refusal.ofDecimal, hexceeds, hnone]
  | ok n =>
    obtain ⟨hw, hn⟩ := Decimal.unsigned_eq_ok_iff.1 h
    have hsome : ¬ ∀ n, ¬ Decimal.Writes t n := fun hnone => hnone n hw
    rw [readDelay_of_unsigned h]
    by_cases hlt : l.longestDelay.toNat < n
    · have hexceeds : l.ExceedsDelay t := .inr ⟨n, hw, hlt⟩
      rw [if_pos hlt, Except.error.injEq, eq_comm]
      simp [hexceeds]
    · have hexceeds : ¬ l.ExceedsDelay t := by
        rintro (hover | ⟨m, hm, hlt'⟩)
        · rw [Decimal.unsigned_eq_overflow_iff.2 hover] at h
          cases h
        · exact hlt (hw.unique hm ▸ hlt')
      rw [if_neg hlt]
      simp [hexceeds, hsome]

theorem toNat_ofNat_of_le {n : Nat} (hle : n ≤ l.longestDelay.toNat) : (UInt64.ofNat n).toNat = n :=
  UInt64.toNat_ofNat_of_lt' (Nat.lt_of_le_of_lt hle l.longestDelay.toNat_lt)

theorem readDelay_of_writes {t : Text} {n : Nat} (hw : Decimal.Writes t n) (hle : n ≤ l.longestDelay.toNat) :
    l.readDelay t = .ok (UInt64.ofNat n) := by
  have hn := toNat_ofNat_of_le hle
  apply readDelay_eq_ok_iff.2
  unfold WritesDelay
  rw [UInt64.le_iff_toNat_le, hn]
  exact ⟨hw, hle⟩

/-- **What is read is the number that is written**, and no number past the longest delay is read. -/
theorem toNat_readDelay_eq_ok_iff {t : Text} {n : Nat} :
    (l.readDelay t).map UInt64.toNat = .ok n ↔ Decimal.Writes t n ∧ n ≤ l.longestDelay.toNat := by
  constructor
  · intro h
    cases hd : l.readDelay t with
    | error e =>
      rw [hd] at h
      cases h
    | ok d =>
      rw [hd] at h
      cases h
      obtain ⟨hw, hle⟩ := readDelay_eq_ok_iff.1 hd
      exact ⟨hw, UInt64.le_iff_toNat_le.1 hle⟩
  · rintro ⟨hw, hle⟩
    rw [readDelay_of_writes hw hle]
    exact congrArg Except.ok (toNat_ofNat_of_le hle)

/-- **A delay is read as the number its text writes**, however many digits it has: a text is a numeral within the limit, and is read
as its number, or it writes too much, in whole or in some beginning, and is out of range, or it is invalid.  So what is printed of
a number within the limit is read back as that number. -/
theorem readDelay_exact (l : Limits) (t : Text) :
    (∀ n : Nat, (l.readDelay t).map UInt64.toNat = .ok n ↔ Decimal.Writes t n ∧ n ≤ l.longestDelay.toNat) ∧
      (l.readDelay t = .error .outOfRange ↔
        Decimal.Overflows Decimal.word64Max t ∨ ∃ n, Decimal.Writes t n ∧ l.longestDelay.toNat < n) ∧
      (l.readDelay t = .error .invalidArgument ↔
        ¬ (∃ n, Decimal.Writes t n ∧ n ≤ l.longestDelay.toNat) ∧ ¬ l.ExceedsDelay t) ∧
      ∀ n ≤ l.longestDelay.toNat, (l.readDelay (Decimal.text n)).map UInt64.toNat = .ok n := by
  refine ⟨fun n => toNat_readDelay_eq_ok_iff, ?_, ?_, fun n hn => ?_⟩
  · rw [readDelay_eq_error_iff]
    simp [ExceedsDelay]
  · have within : ¬ l.ExceedsDelay t → ((∀ n, ¬ Decimal.Writes t n) ↔
        ¬ ∃ n, Decimal.Writes t n ∧ n ≤ l.longestDelay.toNat) := fun he =>
      ⟨fun hnone ⟨n, hw, _⟩ => hnone n hw, fun hnone n hw =>
        hnone ⟨n, hw, Nat.not_lt.1 fun hlt => he (.inr ⟨n, hw, hlt⟩)⟩⟩
    rw [readDelay_eq_error_iff]
    simp only [reduceCtorEq, and_false, false_or, and_true]
    rw [and_comm]
    exact and_congr_left within
  · exact toNat_readDelay_eq_ok_iff.2 ⟨Decimal.writes_text n, hn⟩

/-- The last digit that 64 bits do not hold decides, whatever follows it. -/
theorem readDelay_exact_past64 :
    (({} : Limits).readDelay "+0007".toList).map UInt64.toNat = .ok 7 ∧
      ({} : Limits).readDelay "18446744073709551616x".toList = .error .outOfRange ∧
      ¬ ({} : Limits).ExceedsDelay "18446744073709551615x".toList ∧
      (({} : Limits).readDelay (Decimal.text 10000000000)).map UInt64.toNat = .ok 10000000000 := by
  have hseven : Decimal.Writes "+0007".toList 7 := ⟨"0007".toList, ⟨by decide, List.all_eq_true.1 rfl⟩, rfl, .inr rfl⟩
  have hlarge : Decimal.text 18446744073709551616 <+: "18446744073709551616x".toList := by decide +kernel
  exact ⟨((readDelay_exact {} _).1 7).2 ⟨hseven, by decide⟩,
    (readDelay_exact {} _).2.1.2 (.inl ⟨_, _, hlarge, Decimal.writes_text _, by decide⟩),
    ((readDelay_exact {} _).2.2.1.1 rfl).2,
    (readDelay_exact {} []).2.2.2 10000000000 (by decide)⟩

end Limits
end DelayProbe
