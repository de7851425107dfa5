import DelayProbe.Machine
import DelayProbe.Proofs.Turns
import Mathlib.Algebra.Group.Nat.Defs
/-!
# Idle — how long a wait takes on the mock clock

Without an installed clock only relaxing moves the time, in whole steps that wrap at 64 bits.  So a wait ends after the first
number of steps that brings the clock past its end, where the end itself does not wrap (`Machine.counting_wait_eq_true_iff`).  As
long as the clock does not come round meanwhile, that is the least number of steps that makes up its length (`Machine.span`,
`Machine.wait_eq_idle`).  Once it has come round it may take very long, or for ever: the steps keep the time's remainder by 8,
and come to every time that has it (`Machine.exists_isPast_iff`).
-/
namespace DelayProbe
namespace Machine

/-- The machine with its mock clock moved on. -/
def idle (p : Machine) (n : Nat) : Machine := { p with mockTime := p.mockTime + UInt64.ofNat n }

/-- What a wait takes on the mock clock: its length, made up to whole steps of 1000. -/
def span (ns : UInt64) : Nat := (ns.toNat + 999) / 1000 * 1000

@[simp] theorem idle_clock (p : Machine) (n : Nat) : (p.idle n).clock = p.clock := rfl

@[simp] theorem idle_cpuId (p : Machine) (n : Nat) : (p.idle n).cpuId = p.cpuId := rfl

theorem idle_zero (p : Machine) : p.idle 0 = p := by
  show { p with mockTime := p.mockTime + 0 } = p
  rw [UInt64.add_zero]

theorem idle_idle (p : Machine) (m n : Nat) : (p.idle m).idle n = p.idle (m + n) := by
  unfold idle
  rw [UInt64.ofNat_add, UInt64.add_assoc]

theorem toNat_mockTime_idle (p : Machine) (n : Nat) : (p.idle n).mockTime.toNat = (p.mockTime.toNat + n) % 2 ^ 64 := by
  show (p.mockTime + UInt64.ofNat n).toNat = _
  rw [UInt64.toNat_add, UInt64.toNat_ofNat', Nat.add_mod_mod]

theorem toNat_idle {p : Machine} {n : Nat} (h : p.mockTime.toNat + n < 2 ^ 64) :
    (p.idle n).mockTime.toNat = p.mockTime.toNat + n := by
  rw [toNat_mockTime_idle, Nat.mod_eq_of_lt h]

theorem relax_eq_idle {p : Machine} (h : p.clock = none) : p.relax = p.idle 1000 := by
  have hnone : ¬ p.hasClock = true := by simp [hasClock, h]
  rw [relax, if_neg hnone]
  rfl

theorem readTime_eq {p : Machine} (h : p.clock = none) : p.readTime = (p.mockTime, p) := by
  unfold readTime
  rw [h]

theorem now_relax {p : Machine} (h : p.clock = none) :
    timepiece.now (timepiece.relax p) = (some (p.idle 1000).mockTime, p.idle 1000) := by
  simp only [timepiece, relax_eq_idle h, readTime_eq ((p.idle_clock 1000).trans h)]

theorem after_timepiece {p : Machine} (h : p.clock = none) : ∀ i : Nat, timepiece.after i p = p.idle (1000 * i)
  | 0 => p.idle_zero.symm
  | i + 1 => by
    rw [Timepiece.after_succ, after_timepiece h i, now_relax ((p.idle_clock _).trans h), idle_idle, Nat.mul_succ]

theorem reading_timepiece {p : Machine} (h : p.clock = none) (i : Nat) :
    timepiece.reading p i = some (p.idle (1000 * (i + 1))).mockTime := by
  unfold Timepiece.reading
  rw [after_timepiece h, now_relax ((p.idle_clock _).trans h), idle_idle, Nat.mul_succ]

/-! ## The steps that a wait takes -/

/-- After `n` steps the mock clock is at least `ns` past where it was. -/
def IsPast (p : Machine) (ns : UInt64) (n : Nat) : Prop :=
  p.mockTime.toNat + ns.toNat ≤ (p.mockTime.toNat + 1000 * n) % 2 ^ 64

/-- After `n` steps, and no sooner, the mock clock is at least `ns` past where it was. -/
structure FirstPast (p : Machine) (ns : UInt64) (n : Nat) : Prop where
  isPast : p.IsPast ns n
  not_before : ∀ j < n, ¬ p.IsPast ns j

variable {p q : Machine} {ns : UInt64} {n steps patience : Nat}

theorem isPast_zero_iff : p.IsPast ns 0 ↔ ns = 0 := by
  have htime := p.mockTime.toNat_lt
  have hzero : ns = 0 ↔ ns.toNat = 0 := UInt64.toNat_inj.symm
  rw [hzero, IsPast]
  omega

theorem firstPast_zero (h : ns = 0) : p.FirstPast ns 0 := ⟨isPast_zero_iff.2 h, fun _ hj => absurd hj (Nat.not_lt_zero _)⟩

theorem FirstPast.unique {m : Nat} (hn : p.FirstPast ns n) (hm : p.FirstPast ns m) : n = m :=
  Nat.le_antisymm (Nat.not_lt.1 fun h => hn.not_before m h hm.isPast) (Nat.not_lt.1 fun h => hm.not_before n h hn.isPast)

theorem exists_firstPast (h : p.IsPast ns n) : ∃ m ≤ n, p.FirstPast ns m := by
  classical
  have hex : ∃ m, p.IsPast ns m := ⟨n, h⟩
  exact ⟨Nat.find hex, Nat.find_min' hex h, Nat.find_spec hex, fun _ => Nat.find_min hex⟩

theorem ends_counting_iff (hclock : p.clock = none) (hns : 0 < ns) (i : Nat) :
    timepiece.counting.Ends p.mockTime ns (p, 0) i ↔ p.IsPast ns (i + 1) := by
  unfold Timepiece.Ends
  simp only [Timepiece.reading_counting, reading_timepiece hclock, Wait.isOver_iff hns, toNat_mockTime_idle, IsPast,
    Option.some.injEq, exists_eq_left']

theorem lasts_counting_iff (hclock : p.clock = none) (hns : 0 < ns) (i : Nat) :
    timepiece.counting.Lasts p.mockTime ns (p, 0) i ↔ ¬ p.IsPast ns (i + 1) := by
  have hread := (Timepiece.reading_counting timepiece p 0 i).trans (reading_timepiece hclock i)
  rw [← ends_counting_iff hclock hns, Timepiece.ends_iff_not_lasts hread, not_not]

/-- **A wait on the mock clock ends with the first step that brings the clock past its end**, if it is let go on until then. -/
theorem counting_wait_eq_true_iff (hclock : p.clock = none) :
    timepiece.counting.wait patience ns (p, 0) = (true, q, steps) ↔
      steps ≤ patience ∧ p.FirstPast ns steps ∧ q = p.idle (1000 * steps) := by
  unfold Timepiece.wait
  by_cases h0 : ns = 0
  · rw [if_pos h0]
    constructor
    · intro h
      cases h
      exact ⟨Nat.zero_le _, firstPast_zero h0, p.idle_zero.symm⟩
    · rintro ⟨-, hfirst, rfl⟩
      rw [hfirst.unique (firstPast_zero h0), Nat.mul_zero, idle_zero]
  · have hns : 0 < ns := UInt64.pos_iff_ne_zero.2 h0
    have hnow : timepiece.counting.now (p, 0) = (some p.mockTime, p, 0) := by
      simp only [Timepiece.counting, timepiece, readTime_eq hclock]
    rw [if_neg h0, hnow]
    simp only [Wait.turns_eq_true_iff, lasts_counting_iff hclock hns, ends_counting_iff hclock hns, Timepiece.after_counting,
      after_timepiece hclock, Nat.zero_add, Prod.mk.injEq]
    constructor
    · rintro ⟨i, hi, hbefore, hpast, rfl, rfl⟩
      refine ⟨hi, ⟨hpast, fun j hj => ?_⟩, rfl⟩
      cases j with
      | zero => exact mt isPast_zero_iff.1 h0
      | succ j => exact hbefore j (Nat.lt_of_succ_lt_succ hj)
    · rintro ⟨hle, hfirst, rfl⟩
      cases steps with
      | zero => exact absurd (isPast_zero_iff.1 hfirst.isPast) h0
      | succ i => exact ⟨i, hle, fun j hj => hfirst.not_before (j + 1) (Nat.succ_lt_succ hj), hfirst.isPast, rfl, rfl⟩

theorem wait_eq_true_iff (hclock : p.clock = none) :
    timepiece.wait patience ns p = (true, q) ↔ ∃ n ≤ patience, p.FirstPast ns n ∧ q = p.idle (1000 * n) := by
  rw [Timepiece.wait_counting timepiece patience ns p 0]
  constructor
  · intro h
    have hwait : timepiece.counting.wait patience ns (p, 0) = (true, q, _) := Prod.ext (Prod.mk.inj h).1
      (Prod.ext (Prod.mk.inj h).2 rfl)
    exact ⟨_, (counting_wait_eq_true_iff hclock).1 hwait⟩
  · rintro ⟨n, h⟩
    rw [(counting_wait_eq_true_iff hclock).2 h]

/-! ## A clock that comes round -/

/-- **The clock is past the end after just the steps that make up the wait exactly if it does not come round on the way.** -/
theorem firstPast_span_iff :
    p.FirstPast ns ((ns.toNat + 999) / 1000) ↔ p.mockTime.toNat + 1000 * ((ns.toNat + 999) / 1000) < 2 ^ 64 := by
  have htime := p.mockTime.toNat_lt
  have hns := ns.toNat_lt
  constructor
  · intro h
    have hpast := h.isPast
    unfold IsPast at hpast
    omega
  · intro h
    refine ⟨?_, fun j hj => ?_⟩
    · unfold IsPast
      omega
    · unfold IsPast
      omega

/-- The steps come back to where they started after 2^61 of them. -/
theorem IsPast.mod (h : p.IsPast ns n) : p.IsPast ns (n % 2 ^ 61) := by
  unfold IsPast at *
  omega

/-- **There is a step after which the clock is past the end exactly if the end is not past the last time that has the same
remainder by 8 as the time of the clock.** -/
theorem exists_isPast_iff :
    (∃ n, p.IsPast ns n) ↔ ns = 0 ∨ p.mockTime.toNat + ns.toNat ≤ 2 ^ 64 - 8 + p.mockTime.toNat % 8 := by
  have htime := p.mockTime.toNat_lt
  constructor
  · rintro ⟨n, h⟩
    unfold IsPast at h
    exact .inr (by omega)
  · rintro (h0 | hle)
    · exact ⟨0, isPast_zero_iff.2 h0⟩
    · -- a step of 1000 is 125 times one of 8, and 125 has an inverse modulo 2^61
      obtain ⟨m, hm⟩ : ∃ m, p.mockTime.toNat + 8 * m = 2 ^ 64 - 8 + p.mockTime.toNat % 8 :=
        ⟨(2 ^ 64 - 8 + p.mockTime.toNat % 8 - p.mockTime.toNat) / 8, by omega⟩
      refine ⟨2066035336255469781 * m, ?_⟩
      unfold IsPast
      omega

/-! ## Whole waits -/

/-- **A wait on the mock clock ends, and takes its length made up to whole steps.** -/
theorem wait_eq_idle (hclock : p.clock = none) (hround : p.mockTime.toNat + span ns < 2 ^ 64) :
    p.wait ns = some (p.idle (span ns)) := by
  have hlt := ns.toNat_lt
  rw [span, Nat.mul_comm] at hround ⊢
  have hpatience : (ns.toNat + 999) / 1000 ≤ patience := by
    unfold Machine.patience
    omega
  rw [wait, (wait_eq_true_iff hclock).2 ⟨_, hpatience, firstPast_span_iff.2 hround, rfl⟩]

/-- A wait that is let go on for long enough ends after so many relaxations and leaves machine `q`. -/
def EndsIn (p : Machine) (ns : UInt64) (relaxes : Nat) (q : Machine) : Prop :=
  ∃ patience, timepiece.counting.wait patience ns (p, 0) = (true, q, relaxes)

theorem endsIn_iff (hclock : p.clock = none) : p.EndsIn ns n q ↔ p.FirstPast ns n ∧ q = p.idle (1000 * n) := by
  unfold EndsIn
  simp only [counting_wait_eq_true_iff hclock]
  exact ⟨fun ⟨_, _, h⟩ => h, fun h => ⟨n, Nat.le_refl n, h⟩⟩

/-- **A wait is given up only if it never ends**: if the clock gets past the end at all, it does so before it has come back to
where it was. -/
theorem wait_eq_some_iff (hclock : p.clock = none) : p.wait ns = some q ↔ ∃ n, p.EndsIn ns n q := by
  have hwait : p.wait ns = some q ↔ timepiece.wait patience ns p = (true, q) := by
    unfold wait
    rcases timepiece.wait patience ns p with ⟨_ | _, p'⟩ <;> simp
  rw [hwait, wait_eq_true_iff hclock]
  simp only [endsIn_iff hclock]
  constructor
  · rintro ⟨n, -, h⟩
    exact ⟨n, h⟩
  · rintro ⟨n, hfirst, hq⟩
    have hle : n ≤ n % 2 ^ 61 := Nat.not_lt.1 fun h => hfirst.not_before _ h hfirst.isPast.mod
    exact ⟨n, by unfold Machine.patience; omega, hfirst, hq⟩

/-- **A wait on the mock clock relaxes as often as makes up its length, and moves the clock by as much, exactly if the clock does
not come round on the way.**  If it does, the wait goes on round until the clock is past the end, which it gets if the end is not
past the last time with the same remainder by 8 as the time of the clock, and otherwise never. -/
theorem wait_ends_iff (hclock : p.clock = none) (ns : UInt64) :
    (p.EndsIn ns ((ns.toNat + 999) / 1000) (p.idle (span ns)) ↔ p.mockTime.toNat + span ns < 2 ^ 64) ∧
      (∀ n q, p.EndsIn ns n q ↔ p.FirstPast ns n ∧ q = p.idle (1000 * n)) ∧
      ((∃ n q, p.EndsIn ns n q) ↔ ns = 0 ∨ p.mockTime.toNat + ns.toNat ≤ 2 ^ 64 - 8 + p.mockTime.toNat % 8) ∧
      ∀ q, p.wait ns = some q ↔ ∃ n, p.EndsIn ns n q := by
  refine ⟨?_, fun n q => endsIn_iff hclock, ?_, fun q => wait_eq_some_iff hclock⟩
  · rw [endsIn_iff hclock, span, Nat.mul_comm, and_iff_left rfl, firstPast_span_iff]
  · rw [← exists_isPast_iff]
    simp only [endsIn_iff hclock]
    constructor
    · rintro ⟨n, -, hfirst, -⟩
      exact ⟨n, hfirst.isPast⟩
    · rintro ⟨n, h⟩
      obtain ⟨m, -, hfirst⟩ := exists_firstPast h
      exact ⟨m, _, hfirst, rfl⟩

theorem wait_ends_iff_justInTime :
    let p : Machine := { mockTime := 0xfffffffffffff82f }
    p.clock = none ∧ p.EndsIn 1500 2 (p.idle 2000) :=
  ⟨rfl, (wait_ends_iff rfl 1500).1.2 (by decide)⟩

/-- From the last time of all a wait of 1 does not end. -/
theorem wait_ends_iff_tooLate :
    let p : Machine := { mockTime := 0xffffffffffffffff }
    p.clock = none ∧ (∀ n q, ¬ p.EndsIn 1 n q) ∧ p.wait 1 = none := by
  intro p
  have hnever : ∀ n q, ¬ p.EndsIn 1 n q := fun n q h =>
    absurd (exists_isPast_iff.1 ⟨n, ((endsIn_iff rfl).1 h).1.isPast⟩) (by decide)
  refine ⟨rfl, hnever, Option.eq_none_iff_forall_ne_some.2 fun q hq => ?_⟩
  obtain ⟨n, h⟩ := (wait_eq_some_iff rfl).1 hq
  exact hnever n q h

end Machine
end DelayProbe
