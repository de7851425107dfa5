import DelayProbe.Text.Decimal
/-!
# Numeral — the numbers that digits write

Reading a number against a limit (`Decimal.unsigned`, `Decimal.signed`) is compared with the number that the digits write,
however large it is: a text is read exactly when it is a numeral and its number is within the limit
(`Decimal.unsigned_eq_ok_iff`, `Decimal.signed_eq_ok_iff`).  Leading zeros and one sign are allowed; what is printed has
neither.  A text that is not read overflows if some beginning of it writes a number past the limit, whatever comes after
(`Decimal.unsigned_eq_overflow_iff`), and is invalid if none does and it is no numeral (`Decimal.unsigned_eq_invalid_iff`).
-/
namespace DelayProbe
namespace Decimal

/-- One or more digits, and nothing else. -/
def IsDigits (t : Text) : Prop := t ≠ [] ∧ ∀ c ∈ t, c.isDigit = true

/-- The number that digits write. -/
def value (t : Text) : Nat := Nat.ofDigitChars 10 t 0

/-- Digits that write `n`, behind at most one plus sign. -/
def Writes (t : Text) (n : Nat) : Prop := ∃ ds, IsDigits ds ∧ value ds = n ∧ (t = ds ∨ t = '+' :: ds)

/-- Digits behind at most one sign that write `z`. -/
def WritesSigned (t : Text) (z : Int) : Prop :=
  (∃ n : Nat, Writes t n ∧ z = n) ∨ ∃ ds, IsDigits ds ∧ t = '-' :: ds ∧ z = -(value ds : Int)

theorem Writes.ne_nil {t : Text} {n : Nat} : Writes t n → t ≠ []
  | ⟨_, hd, _, .inl he⟩ => he ▸ hd.1
  | ⟨_, _, _, .inr he⟩ => he ▸ List.cons_ne_nil _ _

theorem Writes.unique {t : Text} {m n : Nat} : Writes t m → Writes t n → m = n := by
  have hplus : ∀ {ds : Text}, ¬ IsDigits ('+' :: ds) := fun h => absurd (h.2 '+' List.mem_cons_self) (by decide)
  rintro ⟨ds, hd, rfl, rfl | rfl⟩ ⟨ds', hd', rfl, he | he⟩
  · rw [he]
  · exact absurd (he ▸ hd) hplus
  · exact absurd (he ▸ hd') hplus
  · rw [(List.cons.inj he).2]

theorem not_writes_minus {ds : Text} {n : Nat} : ¬ Writes ('-' :: ds) n := by
  rintro ⟨ds', hd, -, rfl | he⟩
  · exact absurd (hd.2 '-' List.mem_cons_self) (by decide)
  · cases he

theorem WritesSigned.unique {t : Text} {y z : Int} : WritesSigned t y → WritesSigned t z → y = z := by
  rintro (⟨n, hn, rfl⟩ | ⟨ds, -, rfl, rfl⟩) (⟨m, hm, rfl⟩ | ⟨ds', -, he, rfl⟩)
  · rw [hn.unique hm]
  · exact absurd (he ▸ hn) not_writes_minus
  · exact absurd hm not_writes_minus
  · rw [(List.cons.inj he).2]

theorem le_ofDigitChars : ∀ (t : Text) (n : Nat), n ≤ Nat.ofDigitChars 10 t n
  | [], _ => Nat.le_of_eq Nat.ofDigitChars_nil.symm
  | c :: t, n => by
    rw [Nat.ofDigitChars_cons]
    exact Nat.le_trans (by omega) (le_ofDigitChars t _)

/-- **A scan that never passes the limit has read every digit**, and nothing but digits. -/
theorem scan_eq_ok_iff {limit v : Nat} : ∀ {t : Text} {n : Nat}, n ≤ limit →
    (scan limit n t = .ok v ↔ (∀ c ∈ t, c.isDigit = true) ∧ Nat.ofDigitChars 10 t n = v ∧ v ≤ limit)
  | [], n, hn => by
    simp only [scan, Except.ok.injEq, Nat.ofDigitChars_nil, List.not_mem_nil, false_imp_iff, implies_true, true_and]
    constructor
    · rintro rfl; exact ⟨rfl, hn⟩
    · exact fun h => h.1
  | c :: t, n, hn => by
    have hv : 10 * n + (c.toNat - '0'.toNat) = 10 * n + digit c := rfl
    rw [Nat.ofDigitChars_cons, hv]
    unfold scan
    by_cases hc : c.isDigit = true
    · rw [if_pos hc]
      by_cases hl : 10 * n + digit c ≤ limit
      · rw [if_pos hl, scan_eq_ok_iff hl]
        simp [hc]
      · rw [if_neg hl]
        constructor
        · intro h; cases h
        · rintro ⟨-, hw, hle⟩
          have := le_ofDigitChars t (10 * n + digit c)
          omega
    · rw [if_neg hc]
      constructor
      · intro h; cases h
      · rintro ⟨hall, -⟩
        exact absurd (hall c List.mem_cons_self) hc

theorem digits_eq_ok_iff {limit v : Nat} {t : Text} : digits limit t = .ok v ↔ IsDigits t ∧ value t = v ∧ v ≤ limit := by
  unfold digits IsDigits value
  by_cases ht : t = []
  · subst ht
    simp
  · rw [if_neg ht, scan_eq_ok_iff (Nat.zero_le limit)]
    simp [ht]

theorem IsDigits.not_mem {t : Text} (h : IsDigits t) {c : Char} (hc : c.isDigit = false) : c ∉ t := fun hm => by
  rw [h.2 c hm] at hc
  cases hc

/-- **A text is read as a number exactly when it writes that number and the number is within the limit.** -/
theorem unsigned_eq_ok_iff {limit v : Nat} : ∀ {t : Text}, unsigned limit t = .ok v ↔ Writes t v ∧ v ≤ limit
  | [] => by
    constructor
    · intro h; cases h
    · rintro ⟨⟨ds, hd, -, rfl | he⟩, -⟩
      · exact absurd rfl hd.1
      · cases he
  | c :: r => by
    rw [unsigned]
    by_cases hc : c = '+'
    · subst hc
      rw [if_pos rfl, digits_eq_ok_iff]
      constructor
      · exact fun ⟨hd, hv, hl⟩ => ⟨⟨r, hd, hv, .inr rfl⟩, hl⟩
      · rintro ⟨⟨ds, hd, hv, rfl | he⟩, hl⟩
        · exact absurd List.mem_cons_self (hd.not_mem (c := '+') rfl)
        · cases he
          exact ⟨hd, hv, hl⟩
    · rw [if_neg hc, digits_eq_ok_iff]
      constructor
      · exact fun ⟨hd, hv, hl⟩ => ⟨⟨c :: r, hd, hv, .inl rfl⟩, hl⟩
      · rintro ⟨⟨ds, hd, hv, rfl | he⟩, hl⟩
        · exact ⟨hd, hv, hl⟩
        · exact absurd (List.cons.inj he).1 hc

theorem signed_minus_eq_ok_iff {limit : Nat} {z : Int} {r : Text} :
    signed limit ('-' :: r) = .ok z ↔ ∃ n : Nat, digits (limit + 1) r = .ok n ∧ z = -(n : Int) := by
  simp only [signed, if_true]
  cases digits (limit + 1) r with
  | error e => exact ⟨fun h => (by cases h), fun ⟨_, h, _⟩ => (by cases h)⟩
  | ok n =>
    constructor
    · intro h; cases h; exact ⟨n, rfl, rfl⟩
    · rintro ⟨_, h, rfl⟩; cases h; rfl

theorem signed_plus_eq_ok_iff {limit : Nat} {z : Int} {c : Char} {r : Text} (hc : c ≠ '-') :
    signed limit (c :: r) = .ok z ↔ ∃ n : Nat, unsigned limit (c :: r) = .ok n ∧ z = n := by
  simp only [signed, if_neg hc]
  cases unsigned limit (c :: r) with
  | error e => exact ⟨fun h => (by cases h), fun ⟨_, h, _⟩ => (by cases h)⟩
  | ok n =>
    constructor
    · intro h; cases h; exact ⟨n, rfl, rfl⟩
    · rintro ⟨_, h, rfl⟩; cases h; rfl

/-- **The same for signed numbers**; the most negative one is one further from zero than the limit. -/
theorem signed_eq_ok_iff {limit : Nat} {z : Int} {t : Text} :
    signed limit t = .ok z ↔ WritesSigned t z ∧ -(limit + 1 : Int) ≤ z ∧ z ≤ limit := by
  cases t with
  | nil =>
    constructor
    · intro h; cases h
    · rintro ⟨⟨n, ⟨ds, hd, -, rfl | hc⟩, -⟩ | ⟨ds, -, hc, -⟩, -⟩
      · exact absurd rfl hd.1
      · cases hc
      · cases hc
  | cons c r =>
    by_cases hc : c = '-'
    · subst hc
      rw [signed_minus_eq_ok_iff]
      constructor
      · rintro ⟨n, hn, rfl⟩
        obtain ⟨hd, rfl, hl⟩ := digits_eq_ok_iff.1 hn
        exact ⟨.inr ⟨r, hd, rfl, rfl⟩, by omega, by omega⟩
      · rintro ⟨⟨n, ⟨ds, hd, -, rfl | he⟩, -⟩ | ⟨ds, hd, he, rfl⟩, hlo, -⟩
        · exact absurd List.mem_cons_self (hd.not_mem (c := '-') rfl)
        · cases he
        · cases he
          exact ⟨_, digits_eq_ok_iff.2 ⟨hd, rfl, by omega⟩, rfl⟩
    · rw [signed_plus_eq_ok_iff hc]
      constructor
      · rintro ⟨n, hn, rfl⟩
        obtain ⟨hw, hl⟩ := unsigned_eq_ok_iff.1 hn
        exact ⟨.inl ⟨n, hw, rfl⟩, by omega, by omega⟩
      · rintro ⟨⟨n, hw, rfl⟩ | ⟨ds, -, he, -⟩, -, hhi⟩
        · exact ⟨n, unsigned_eq_ok_iff.2 ⟨hw, by omega⟩, rfl⟩
        · exact absurd (List.cons.inj he).1 hc

/-! ## What is not read -/

/-- Some beginning of the text writes a number past the limit. -/
def Overflows (limit : Nat) (t : Text) : Prop := ∃ head n, head <+: t ∧ Writes head n ∧ limit < n

/-- Some beginning of the text writes a number past the limit, or below the most negative number. -/
def OverflowsSigned (limit : Nat) (t : Text) : Prop :=
  ∃ head z, head <+: t ∧ WritesSigned head z ∧ (z < -(limit + 1 : Int) ∨ (limit : Int) < z)

/-- **A scan stops for the limit exactly when the digits up to some place write too much.** -/
theorem scan_eq_overflow_iff {limit : Nat} : ∀ {t : Text} {n : Nat}, n ≤ limit →
    (scan limit n t = .error .overflow ↔
      ∃ ds, ds <+: t ∧ (∀ c ∈ ds, c.isDigit = true) ∧ limit < Nat.ofDigitChars 10 ds n)
  | [], n, hn => by
    constructor
    · intro h; cases h
    · rintro ⟨ds, hp, -, hlt⟩
      rw [List.prefix_nil.1 hp, Nat.ofDigitChars_nil] at hlt
      omega
  | c :: t, n, hn => by
    have hv : 10 * n + (c.toNat - '0'.toNat) = 10 * n + digit c := rfl
    unfold scan
    by_cases hc : c.isDigit = true
    · rw [if_pos hc]
      by_cases hl : 10 * n + digit c ≤ limit
      · rw [if_pos hl, scan_eq_overflow_iff hl]
        constructor
        · rintro ⟨ds, hp, hall, hlt⟩
          exact ⟨c :: ds, List.cons_prefix_cons.2 ⟨rfl, hp⟩, List.forall_mem_cons.2 ⟨hc, hall⟩,
            by rwa [Nat.ofDigitChars_cons, hv]⟩
        · rintro ⟨ds, hp, hall, hlt⟩
          rcases List.prefix_cons_iff.1 hp with rfl | ⟨ds', rfl, hp'⟩
          · rw [Nat.ofDigitChars_nil] at hlt
            omega
          · rw [Nat.ofDigitChars_cons, hv] at hlt
            exact ⟨ds', hp', (List.forall_mem_cons.1 hall).2, hlt⟩
      · rw [if_neg hl]
        refine ⟨fun _ => ⟨[c], ⟨t, rfl⟩, by simpa using hc, ?_⟩, fun _ => rfl⟩
        rw [Nat.ofDigitChars_cons, hv, Nat.ofDigitChars_nil]
        omega
    · rw [if_neg hc]
      constructor
      · intro h; cases h
      · rintro ⟨ds, hp, hall, hlt⟩
        rcases List.prefix_cons_iff.1 hp with rfl | ⟨ds, rfl, -⟩
        · rw [Nat.ofDigitChars_nil] at hlt
          omega
        · exact absurd (hall c List.mem_cons_self) hc

theorem digits_eq_overflow_iff {limit : Nat} {t : Text} :
    digits limit t = .error .overflow ↔ ∃ ds, ds <+: t ∧ IsDigits ds ∧ limit < value ds := by
  have hzero : ∀ ds : Text, limit < value ds → ds ≠ [] := fun ds hlt he => by
    rw [he, value, Nat.ofDigitChars_nil] at hlt
    omega
  unfold digits
  by_cases ht : t = []
  · rw [if_pos ht]
    constructor
    · intro h; cases h
    · rintro ⟨ds, hp, -, hlt⟩
      rw [ht] at hp
      exact absurd (List.prefix_nil.1 hp) (hzero ds hlt)
  · rw [if_neg ht, scan_eq_overflow_iff (Nat.zero_le limit)]
    exact exists_congr fun ds => and_congr_right fun _ =>
      ⟨fun ⟨hall, hlt⟩ => ⟨⟨hzero ds hlt, hall⟩, hlt⟩, fun ⟨hd, hlt⟩ => ⟨hd.2, hlt⟩⟩

/-- **A number overflows exactly when some beginning of the text writes too much.** -/
theorem unsigned_eq_overflow_iff {limit : Nat} : ∀ {t : Text}, unsigned limit t = .error .overflow ↔ Overflows limit t
  | [] => by
    constructor
    · intro h; cases h
    · rintro ⟨head, n, hp, hw, -⟩
      exact absurd (List.prefix_nil.1 hp) hw.ne_nil
  | c :: r => by
    rw [unsigned]
    by_cases hc : c = '+'
    · subst hc
      rw [if_pos rfl, digits_eq_overflow_iff]
      constructor
      · rintro ⟨ds, hp, hd, hlt⟩
        exact ⟨'+' :: ds, _, List.cons_prefix_cons.2 ⟨rfl, hp⟩, ⟨ds, hd, rfl, .inr rfl⟩, hlt⟩
      · rintro ⟨head, n, hp, ⟨ds, hd, rfl, rfl | rfl⟩, hlt⟩
        · rcases List.prefix_cons_iff.1 hp with rfl | ⟨ds, rfl, -⟩
          · exact absurd rfl hd.1
          · exact absurd List.mem_cons_self (hd.not_mem (c := '+') rfl)
        · exact ⟨ds, (List.cons_prefix_cons.1 hp).2, hd, hlt⟩
    · rw [if_neg hc, digits_eq_overflow_iff]
      constructor
      · rintro ⟨ds, hp, hd, hlt⟩
        exact ⟨ds, _, hp, ⟨ds, hd, rfl, .inl rfl⟩, hlt⟩
      · rintro ⟨head, n, hp, ⟨ds, hd, rfl, rfl | rfl⟩, hlt⟩
        · exact ⟨head, hp, hd, hlt⟩
        · exact absurd (List.cons_prefix_cons.1 hp).1.symm hc

/-- **A text is invalid as a number exactly when it is no numeral and does not overflow before that shows.** -/
theorem unsigned_eq_invalid_iff {limit : Nat} {t : Text} :
    unsigned limit t = .error .invalid ↔ ¬ Overflows limit t ∧ ∀ n, ¬ Writes t n := by
  constructor
  · intro h
    have hover : ¬ Overflows limit t := fun ho => by
      rw [unsigned_eq_overflow_iff.2 ho] at h
      cases h
    refine ⟨hover, fun n hw => ?_⟩
    by_cases hn : n ≤ limit
    · rw [unsigned_eq_ok_iff.2 ⟨hw, hn⟩] at h
      cases h
    · exact hover ⟨t, n, List.prefix_rfl, hw, Nat.lt_of_not_le hn⟩
  · rintro ⟨hover, hnone⟩
    cases h : unsigned limit t with
    | ok n => exact absurd (unsigned_eq_ok_iff.1 h).1 (hnone n)
    | error f =>
      cases f with
      | invalid => rfl
      | overflow => exact absurd (unsigned_eq_overflow_iff.1 h) hover

theorem signed_minus_eq_error_iff {limit : Nat} {f : DecimalFault} {r : Text} :
    signed limit ('-' :: r) = .error f ↔ digits (limit + 1) r = .error f := by
  simp only [signed, if_true]
  cases digits (limit + 1) r with
  | error e => exact ⟨fun h => by cases h; rfl, fun h => by cases h; rfl⟩
  | ok n => exact ⟨fun h => (by cases h), fun h => (by cases h)⟩

theorem signed_plus_eq_error_iff {limit : Nat} {f : DecimalFault} {c : Char} {r : Text} (hc : c ≠ '-') :
    signed limit (c :: r) = .error f ↔ unsigned limit (c :: r) = .error f := by
  simp only [signed, if_neg hc]
  cases unsigned limit (c :: r) with
  | error e => exact ⟨fun h => by cases h; rfl, fun h => by cases h; rfl⟩
  | ok n => exact ⟨fun h => (by cases h), fun h => (by cases h)⟩

/-- **The same for signed numbers**, which can also be too far below zero. -/
theorem signed_eq_overflow_iff {limit : Nat} : ∀ {t : Text}, signed limit t = .error .overflow ↔ OverflowsSigned limit t
  | [] => by
    constructor
    · intro h; cases h
    · rintro ⟨head, z, hp, hw, -⟩
      rw [List.prefix_nil.1 hp] at hw
      rcases hw with ⟨n, hw, -⟩ | ⟨ds, -, he, -⟩
      · exact absurd rfl hw.ne_nil
      · cases he
  | c :: r => by
    by_cases hc : c = '-'
    · subst hc
      rw [signed_minus_eq_error_iff, digits_eq_overflow_iff]
      constructor
      · rintro ⟨ds, hp, hd, hlt⟩
        exact ⟨'-' :: ds, _, List.cons_prefix_cons.2 ⟨rfl, hp⟩, .inr ⟨ds, hd, rfl, rfl⟩, .inl (by omega)⟩
      · rintro ⟨head, z, hp, ⟨n, ⟨ds, hd, -, rfl | rfl⟩, -⟩ | ⟨ds, hd, rfl, rfl⟩, hout⟩
        · rcases List.prefix_cons_iff.1 hp with rfl | ⟨ds, rfl, -⟩
          · exact absurd rfl hd.1
          · exact absurd List.mem_cons_self (hd.not_mem (c := '-') rfl)
        · exact absurd (List.cons_prefix_cons.1 hp).1 (by decide)
        · exact ⟨ds, (List.cons_prefix_cons.1 hp).2, hd, by omega⟩
    · rw [signed_plus_eq_error_iff hc, unsigned_eq_overflow_iff]
      constructor
      · rintro ⟨head, n, hp, hw, hlt⟩
        exact ⟨head, n, hp, .inl ⟨n, hw, rfl⟩, .inr (by omega)⟩
      · rintro ⟨head, z, hp, ⟨n, hw, rfl⟩ | ⟨ds, -, rfl, -⟩, hout⟩
        · exact ⟨head, n, hp, hw, by omega⟩
        · exact absurd (List.cons_prefix_cons.1 hp).1.symm hc

theorem signed_eq_invalid_iff {limit : Nat} {t : Text} :
    signed limit t = .error .invalid ↔ ¬ OverflowsSigned limit t ∧ ∀ z, ¬ WritesSigned t z := by
  constructor
  · intro h
    have hover : ¬ OverflowsSigned limit t := fun ho => by
      rw [signed_eq_overflow_iff.2 ho] at h
      cases h
    refine ⟨hover, fun z hw => ?_⟩
    by_cases hz : -(limit + 1 : Int) ≤ z ∧ z ≤ limit
    · rw [signed_eq_ok_iff.2 ⟨hw, hz⟩] at h
      cases h
    · exact hover ⟨t, z, List.prefix_rfl, hw, by omega⟩
  · rintro ⟨hover, hnone⟩
    cases h : signed limit t with
    | ok z => exact absurd (signed_eq_ok_iff.1 h).1 (hnone z)
    | error f =>
      cases f with
      | invalid => rfl
      | overflow => exact absurd (signed_eq_overflow_iff.1 h) hover

/-! ## What is printed -/

theorem isDigits_text (n : Nat) : IsDigits (text n) :=
  ⟨Nat.toDigits_ne_nil, fun _ hc => Nat.isDigit_of_mem_toDigits (by decide) (by decide) hc⟩

theorem value_text (n : Nat) : value (text n) = n := Nat.ofDigitChars_ten_toDigits

theorem writes_text (n : Nat) : Writes (text n) n := ⟨text n, isDigits_text n, value_text n, .inl rfl⟩

end Decimal
end DelayProbe
