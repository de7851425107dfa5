import DelayProbe.Wait
import Mathlib.Data.Nat.Find
/-!
# Turns — the turn in which a wait ends

A wait relaxes and reads in turns, and how many turns it takes is up to the readings alone.  `Timepiece.after` is what turns leave
behind and `Timepiece.reading` what each of them reads, looked at without asking whether the wait is still on.  A wait passes over
the turns in which it lasts (`Wait.turns_add`), so it ends in the first one whose reading is late enough, and in no other
(`Wait.turns_eq_true_iff`).  On a script that is the first reading late enough (`Script.wait_ends_first`).
-/
namespace DelayProbe

namespace Timepiece

variable {σ : Type} (k : Timepiece σ)

/-- What is left after some turns. -/
def after : Nat → σ → σ
  | 0, s => s
  | i + 1, s => after i (k.now (k.relax s)).2

theorem after_succ : ∀ (i : Nat) (s : σ), k.after (i + 1) s = (k.now (k.relax (k.after i s))).2
  | 0, _ => rfl
  | i + 1, s => after_succ i (k.now (k.relax s)).2

/-- What turn `i` reads; the first turn has number 0. -/
def reading (s : σ) (i : Nat) : Option UInt64 := (k.now (k.relax (k.after i s))).1

/-- The clock beside a count of how often it was relaxed. -/
def counting : Timepiece (σ × Nat) := ⟨fun s => ((k.now s.1).1, (k.now s.1).2, s.2), fun s => (k.relax s.1, s.2 + 1)⟩

theorem after_counting : ∀ (i : Nat) (s : σ) (c : Nat), k.counting.after i (s, c) = (k.after i s, c + i)
  | 0, _, _ => rfl
  | i + 1, s, c => by
    rw [after_succ, after_counting i s c, after_succ]
    rfl

theorem reading_counting (s : σ) (c i : Nat) : k.counting.reading (s, c) i = k.reading s i := by
  unfold reading
  rw [after_counting]
  rfl

/-- Turn `i` takes a reading that is too early to end the wait. -/
def Lasts (start ns : UInt64) (s : σ) (i : Nat) : Prop := ∃ t, k.reading s i = some t ∧ Wait.isOver start ns t = false

/-- Turn `i` takes a reading that ends the wait. -/
def Ends (start ns : UInt64) (s : σ) (i : Nat) : Prop := ∃ t, k.reading s i = some t ∧ Wait.isOver start ns t = true

variable {k} {start ns t : UInt64} {s : σ} {i : Nat}

/-- A turn that gets a reading ends the wait or lets it last. -/
theorem ends_iff_not_lasts (h : k.reading s i = some t) : k.Ends start ns s i ↔ ¬ k.Lasts start ns s i := by
  simp [Ends, Lasts, h]

end Timepiece

namespace Wait

variable {σ : Type} {k : Timepiece σ} {start ns : UInt64} {n i : Nat} {s : σ}

/-- **The turns in which a wait lasts only bring it to what they leave behind.** -/
theorem turns_add (n : Nat) : ∀ (i : Nat) {s : σ}, (∀ j < i, k.Lasts start ns s j) →
    turns k start ns (n + i) s = turns k start ns n (k.after i s)
  | 0, _, _ => rfl
  | i + 1, s, hlasts => by
    obtain ⟨t, ht, hover⟩ := hlasts 0 (Nat.succ_pos i)
    have hnow : k.now (k.relax s) = (some t, (k.now (k.relax s)).2) := Prod.ext ht rfl
    have hrest := turns_add n i (s := (k.now (k.relax s)).2) fun j hj => hlasts (j + 1) (Nat.succ_lt_succ hj)
    rw [← Nat.add_assoc, turns, hnow]
    simp only [hover, Bool.false_eq_true, if_false]
    exact hrest

theorem turns_of_lasts (hlasts : ∀ j < n, k.Lasts start ns s j) : turns k start ns n s = (false, k.after n s) := by
  have h := turns_add 0 n hlasts
  rwa [Nat.zero_add] at h

theorem turns_of_unread (hi : i < n) (hlasts : ∀ j < i, k.Lasts start ns s j) (hnone : k.reading s i = none) :
    turns k start ns n s = (false, k.after (i + 1) s) := by
  obtain ⟨m, rfl⟩ : ∃ m, n = m + 1 + i := ⟨n - 1 - i, by omega⟩
  have hnow : k.now (k.relax (k.after i s)) = (none, k.after (i + 1) s) := Prod.ext hnone (k.after_succ i s).symm
  rw [turns_add (m + 1) i hlasts, turns, hnow]

theorem turns_of_ends (hi : i < n) (hlasts : ∀ j < i, k.Lasts start ns s j) (hends : k.Ends start ns s i) :
    turns k start ns n s = (true, k.after (i + 1) s) := by
  obtain ⟨m, rfl⟩ : ∃ m, n = m + 1 + i := ⟨n - 1 - i, by omega⟩
  obtain ⟨t, ht, hover⟩ := hends
  have hnow : k.now (k.relax (k.after i s)) = (some t, k.after (i + 1) s) := Prod.ext ht (k.after_succ i s).symm
  rw [turns_add (m + 1) i hlasts, turns, hnow]
  simp only [hover, if_true]

/-- **A wait is served by the first turn whose reading is late enough, if every turn before it gets a reading, and by no
other.** -/
theorem turns_eq_true_iff {q : σ} :
    turns k start ns n s = (true, q) ↔
      ∃ i < n, (∀ j < i, k.Lasts start ns s j) ∧ k.Ends start ns s i ∧ q = k.after (i + 1) s := by
  constructor
  · intro h
    have hex : ∃ i, i < n ∧ ¬ k.Lasts start ns s i := by
      by_contra hall
      have hlasts : ∀ j < n, k.Lasts start ns s j := fun j hj => by_contra fun hn => hall ⟨j, hj, hn⟩
      rw [turns_of_lasts hlasts] at h
      cases h
    classical
    obtain ⟨hi, hnot⟩ := Nat.find_spec hex
    have hlasts : ∀ j < Nat.find hex, k.Lasts start ns s j := fun j hj =>
      by_contra fun hn => Nat.find_min hex hj ⟨Nat.lt_trans hj hi, hn⟩
    cases hr : k.reading s (Nat.find hex) with
    | none =>
      rw [turns_of_unread hi hlasts hr] at h
      cases h
    | some t =>
      have hends := (Timepiece.ends_iff_not_lasts hr).2 hnot
      rw [turns_of_ends hi hlasts hends] at h
      exact ⟨_, hi, hlasts, hends, (Prod.mk.inj h).2.symm⟩
  · rintro ⟨i, hi, hlasts, hends, rfl⟩
    exact turns_of_ends hi hlasts hends

/-- Counting how often a clock is relaxed changes nothing about a wait on it. -/
theorem turns_counting : ∀ (n : Nat) (s : σ) (c : Nat),
    turns k start ns n s = ((turns k.counting start ns n (s, c)).1, (turns k.counting start ns n (s, c)).2.1)
  | 0, _, _ => rfl
  | n + 1, s, c => by
    rcases hnow : k.now (k.relax s) with ⟨_ | t, s'⟩
    · have hcount : k.counting.now (k.counting.relax (s, c)) = (none, s', c + 1) := by simp only [Timepiece.counting, hnow]
      simp only [turns, hnow, hcount]
    · have hcount : k.counting.now (k.counting.relax (s, c)) = (some t, s', c + 1) := by simp only [Timepiece.counting, hnow]
      simp only [turns, hnow, hcount]
      split
      · rfl
      · exact turns_counting n s' (c + 1)

/-- A wait of some length is over at a reading that is that much past the first. -/
theorem isOver_iff {start ns t : UInt64} (hns : 0 < ns) : isOver start ns t = true ↔ start.toNat + ns.toNat ≤ t.toNat := by
  have hpos : 0 < ns.toNat := UInt64.lt_iff_toNat_lt.1 hns
  rw [isOver, decide_eq_true_eq]
  omega

end Wait

theorem Timepiece.wait_counting {σ : Type} (k : Timepiece σ) (n : Nat) (ns : UInt64) (s : σ) (c : Nat) :
    k.wait n ns s = ((k.counting.wait n ns (s, c)).1, (k.counting.wait n ns (s, c)).2.1) := by
  unfold wait
  split
  · rfl
  · rcases hnow : k.now s with ⟨_ | t, s'⟩
    · have hcount : k.counting.now (s, c) = (none, s', c) := by simp only [counting, hnow]
      simp only [hcount]
    · have hcount : k.counting.now (s, c) = (some t, s', c) := by simp only [counting, hnow]
      simp only [hcount]
      exact Wait.turns_counting n s' c

/-! ## On a script -/

namespace Script

/-- Reading `n` of a script is at least `ns` past the first one, which has number 0. -/
def Passes (script : List UInt64) (ns : UInt64) (n : Nat) : Prop :=
  1 ≤ n ∧ ∃ start ∈ script[0]?, ∃ t ∈ script[n]?, start.toNat + ns.toNat ≤ t.toNat

instance (script : List UInt64) (ns : UInt64) (n : Nat) : Decidable (Passes script ns n) :=
  inferInstanceAs (Decidable (1 ≤ n ∧ ∃ start ∈ script[0]?, ∃ t ∈ script[n]?, start.toNat + ns.toNat ≤ t.toNat))

theorem now_timepiece (s : Script) : timepiece.now s = (s.left[0]?, { s with left := s.left.drop 1, reads := s.reads + 1 }) := by
  obtain ⟨left, reads, relaxes⟩ := s
  cases left <;> rfl

theorem after_timepiece : ∀ (i : Nat) (s : Script),
    timepiece.after i s = ⟨s.left.drop i, s.reads + i, s.relaxes + i⟩
  | 0, _ => rfl
  | i + 1, s => by
    rw [Timepiece.after_succ, after_timepiece i s, now_timepiece]
    simp only [timepiece, List.drop_drop, Nat.add_assoc]

theorem reading_timepiece (s : Script) (i : Nat) : timepiece.reading s i = s.left[i]? := by
  unfold Timepiece.reading
  rw [after_timepiece, now_timepiece]
  simp [timepiece]

variable {script rest : List UInt64} {start ns : UInt64} {n patience : Nat}

theorem passes_cons_iff (hns : 0 < ns) :
    Passes (start :: rest) ns (n + 1) ↔ timepiece.Ends start ns ⟨rest, 1, 0⟩ n := by
  simp [Passes, Timepiece.Ends, reading_timepiece, Wait.isOver_iff hns]

theorem not_passes_zero : ¬ Passes script ns 0 := fun h => absurd h.1 (by omega)

theorem Passes.lt_length (h : Passes script ns n) : n < script.length := by
  obtain ⟨-, -, -, t, ht, -⟩ := h
  exact (List.getElem?_eq_some_iff.1 ht).1

/-- The turns up to the end of the script last for as long as no reading is late enough. -/
theorem lasts_of_not_passes (hns : 0 < ns) (hn : n < rest.length) (h : ¬ Passes (start :: rest) ns (n + 1)) :
    timepiece.Lasts start ns ⟨rest, 1, 0⟩ n := by
  have hread : timepiece.reading ⟨rest, 1, 0⟩ n = some rest[n] := (reading_timepiece _ n).trans (List.getElem?_eq_getElem hn)
  rw [passes_cons_iff hns, Timepiece.ends_iff_not_lasts hread, not_not] at h
  exact h

theorem wait_cons (hns : 0 < ns) :
    timepiece.wait patience ns ⟨start :: rest, 0, 0⟩ = Wait.turns timepiece start ns patience ⟨rest, 1, 0⟩ := by
  rw [Timepiece.wait, if_neg (UInt64.ne_of_lt hns).symm]
  rfl

/-- **A wait on a script stops at the first reading that is late enough.** -/
theorem wait_of_passes (hns : 0 < ns) (hlong : script.length ≤ patience) (h : Passes script ns n)
    (hfirst : ∀ j < n, ¬ Passes script ns j) :
    timepiece.wait patience ns ⟨script, 0, 0⟩ = (true, ⟨script.drop (n + 1), n + 1, n⟩) := by
  have hlt := h.lt_length
  cases script with
  | nil => cases hlt
  | cons start rest =>
    cases n with
    | zero => exact absurd h not_passes_zero
    | succ i =>
      simp only [List.length_cons] at hlt hlong
      have hlasts : ∀ j < i, timepiece.Lasts start ns ⟨rest, 1, 0⟩ j := fun j hj =>
        lasts_of_not_passes hns (by omega) (hfirst (j + 1) (by omega))
      rw [wait_cons hns, Wait.turns_of_ends (by omega) hlasts ((passes_cons_iff hns).1 h), after_timepiece]
      simp only [List.drop_succ_cons, Nat.zero_add, Nat.add_comm 1]

/-- **A wait on a script without such a reading asks for all of them and for one more.** -/
theorem wait_of_not_passes (hns : 0 < ns) (hlong : script.length ≤ patience) (h : ∀ n, ¬ Passes script ns n) :
    timepiece.wait patience ns ⟨script, 0, 0⟩ = (false, ⟨[], script.length + 1, script.length⟩) := by
  cases script with
  | nil =>
    rw [Timepiece.wait, if_neg (UInt64.ne_of_lt hns).symm]
    rfl
  | cons start rest =>
    have hlasts : ∀ j < rest.length, timepiece.Lasts start ns ⟨rest, 1, 0⟩ j := fun j hj =>
      lasts_of_not_passes hns hj (h (j + 1))
    have hend : timepiece.reading ⟨rest, 1, 0⟩ rest.length = none := by rw [reading_timepiece, List.getElem?_eq_none_iff]
    rw [wait_cons hns, Wait.turns_of_unread hlong hlasts hend, after_timepiece]
    simp [Nat.add_comm]

/-- **A wait on a script ends with the first reading, after the one it starts from, that is late enough by that one and its own
length, counted without bound**: neither a clock that steps back nor an end past 64 bits ends it sooner.  It has then read the
clock once more than it has relaxed, which is as often as the number of that reading.  If there is no such reading it asks for
every reading and for one past the last, with a relaxation before each but the first.  How many turns it is given makes no
difference, if there are as many as readings. -/
theorem wait_ends_first (script : List UInt64) {ns : UInt64} (hns : 0 < ns) :
    ((wait script ns).1 = true ↔ ∃ n, Passes script ns n) ∧
      (∀ n, Passes script ns n → (∀ j < n, ¬ Passes script ns j) →
        wait script ns = (true, ⟨script.drop (n + 1), n + 1, n⟩)) ∧
      ((∀ n, ¬ Passes script ns n) → wait script ns = (false, ⟨[], script.length + 1, script.length⟩)) ∧
      ∀ patience, script.length ≤ patience → timepiece.wait patience ns ⟨script, 0, 0⟩ = wait script ns := by
  have served : ∀ n, Passes script ns n → (∀ j < n, ¬ Passes script ns j) →
      wait script ns = (true, ⟨script.drop (n + 1), n + 1, n⟩) := fun n => wait_of_passes hns (Nat.le_refl _)
  have unserved : (∀ n, ¬ Passes script ns n) → wait script ns = (false, ⟨[], script.length + 1, script.length⟩) :=
    wait_of_not_passes hns (Nat.le_refl _)
  by_cases hex : ∃ n, Passes script ns n
  · classical
    have hfirst : ∀ j < Nat.find hex, ¬ Passes script ns j := fun _ => Nat.find_min hex
    have hends := served _ (Nat.find_spec hex) hfirst
    refine ⟨iff_of_true (by rw [hends]) hex, served, unserved, fun patience hlong => ?_⟩
    rw [hends, wait_of_passes hns hlong (Nat.find_spec hex) hfirst]
  · rw [not_exists] at hex
    have hnever := unserved hex
    refine ⟨iff_of_false (by rw [hnever]; exact Bool.false_ne_true) (not_exists.2 hex), served, unserved,
      fun patience hlong => ?_⟩
    rw [hnever, wait_of_not_passes hns hlong hex]

/-- The clock steps back and comes close before it is late enough. -/
theorem wait_ends_first_stepsBack :
    (0 : UInt64) < 5 ∧ Passes [10, 3, 14, 0xffffffffffffffff, 20] 5 3 ∧
      wait [10, 3, 14, 0xffffffffffffffff, 20] 5 = (true, ⟨[20], 4, 3⟩) := by
  have hns : (0 : UInt64) < 5 := by decide
  have hpasses : Passes [10, 3, 14, 0xffffffffffffffff, 20] 5 3 := by decide
  have hfirst : ∀ j < 3, ¬ Passes [10, 3, 14, 0xffffffffffffffff, 20] 5 j := by decide
  exact ⟨hns, hpasses, (wait_ends_first _ hns).2.1 3 hpasses hfirst⟩

/-- An end past 64 bits is never reached. -/
example : wait [0xffffffffffffffff, 3, 0xffffffffffffffff] 1 = (false, ⟨[], 4, 3⟩) := by decide

end Script
end DelayProbe
