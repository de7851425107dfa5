import DelayProbe.Simulator
import Mathlib.Logic.Relation
/-!
# Ancestry — who descends from whom

`Simulator.Reaches` follows the table of parents for as many steps as it takes.  A climb that finds its process has reached it
(`Simulator.reaches_of_climb`).  The other way is about the bound: a climb never has to come back to a process it left, so each
step can strike the process off the table, and there are no more steps than entries (`Simulator.climb_of_reaches`).  So the
bound never shows: a longer climb finds nothing more (`Simulator.descends_iff_reaches`).
-/
namespace DelayProbe

namespace Table

variable {κ α : Type} [DecidableEq κ]

theorem mem_of_get?_eq_some {x : κ} {v : α} : ∀ {t : Table κ α}, t.get? x = some v → (x, v) ∈ t
  | [], h => by cases h
  | (k, w) :: t, h => by
    rw [get?] at h
    split at h
    · rename_i hk
      cases h
      exact hk ▸ List.mem_cons_self
    · exact List.mem_cons_of_mem _ (mem_of_get?_eq_some h)

theorem length_erase_lt {x : κ} {v : α} {t : Table κ α} (h : t.get? x = some v) : (erase t x).length < t.length :=
  List.length_filter_lt_length_iff_exists.2 ⟨(x, v), mem_of_get?_eq_some h, by simp⟩

end Table

namespace Simulator

/-- One process is the parent of another. -/
def Parent (parents : Table UInt32 UInt32) (pid parent : UInt32) : Prop := parents.get? pid = some parent

/-- A process is reached from another by following zero or more parents. -/
def Reaches (s : Simulator) (pid ancestor : UInt32) : Prop := Relation.ReflTransGen (Parent s.parents) pid ancestor

theorem reaches_of_climb {parents : Table UInt32 UInt32} {ancestor : UInt32} : ∀ (n : Nat) {pid : UInt32},
    climb parents ancestor n pid = true → Relation.ReflTransGen (Parent parents) pid ancestor
  | 0, _, h => by cases h
  | n + 1, pid, h => by
    rw [climb] at h
    split at h
    · rename_i he
      exact he ▸ .refl
    · cases hp : parents.get? pid with
      | none =>
        rw [hp] at h
        cases h
      | some parent =>
        rw [hp] at h
        simp only at h
        split at h
        · cases h
        · exact .head hp (reaches_of_climb n h)

/-- **What is reached from a process is the process, or is reached from its parent without coming back to it.** -/
theorem reaches_erase {parents : Table UInt32 UInt32} (pid : UInt32) {ancestor x : UInt32}
    (h : Relation.ReflTransGen (Parent parents) x ancestor) :
    Relation.ReflTransGen (Parent (Table.erase parents pid)) x ancestor ∨
      ∃ parent, Parent parents pid parent ∧ Relation.ReflTransGen (Parent (Table.erase parents pid)) parent ancestor := by
  induction h using Relation.ReflTransGen.head_induction_on with
  | refl => exact .inl .refl
  | @head x y hxy _ ih =>
    rcases ih with ih | ih
    · by_cases hx : x = pid
      · exact .inr ⟨y, hx ▸ hxy, ih⟩
      · exact .inl (.head ((Table.get?_erase_ne (Ne.symm hx) parents).trans hxy) ih)
    · exact .inr ih

theorem not_reaches_erase {parents : Table UInt32 UInt32} {pid ancestor : UInt32} (hne : pid ≠ ancestor) :
    ¬ Relation.ReflTransGen (Parent (Table.erase parents pid)) pid ancestor := fun h => by
  rcases Relation.ReflTransGen.cases_head h with he | ⟨y, hy, -⟩
  · exact hne he
  · have hnone := Table.get?_erase_self pid parents
    rw [hy] at hnone
    cases hnone

/-- **A climb with one step more than the table has entries finds whatever can be reached.**  The table may be part of the one
that is climbed. -/
theorem climb_of_reaches {all : Table UInt32 UInt32} {ancestor : UInt32} : ∀ (n : Nat) {parents : Table UInt32 UInt32}
    {pid : UInt32}, parents.length ≤ n → (∀ x y, Parent parents x y → Parent all x y) →
      Relation.ReflTransGen (Parent parents) pid ancestor → climb all ancestor (n + 1) pid = true
  | n, parents, pid, hn, hsub, h => by
    rw [climb]
    by_cases he : pid = ancestor
    · rw [if_pos he]
    · obtain ⟨parent, hp, hrest⟩ := (reaches_erase pid h).resolve_left (not_reaches_erase he)
      have hself : parent ≠ pid := fun hs => not_reaches_erase he (hs ▸ hrest)
      have hlt := Table.length_erase_lt hp
      rw [if_neg he, hsub _ _ hp]
      simp only [if_neg hself]
      cases n with
      | zero => exact absurd hlt (by omega)
      | succ n =>
        refine climb_of_reaches n (by omega) (fun x y hxy => hsub x y ?_) hrest
        by_cases hx : x = pid
        · rw [hx, Parent, Table.get?_erase_self] at hxy
          cases hxy
        · rwa [Parent, Table.get?_erase_ne (Ne.symm hx)] at hxy

/-- **A climb that is longer than the table finds exactly what can be reached**, loops and all. -/
theorem climb_eq_true_iff {parents : Table UInt32 UInt32} {n : Nat} {pid ancestor : UInt32} (hn : parents.length < n) :
    climb parents ancestor n pid = true ↔ Relation.ReflTransGen (Parent parents) pid ancestor := by
  obtain ⟨m, rfl⟩ : ∃ m, n = m + 1 := ⟨n - 1, by omega⟩
  exact ⟨reaches_of_climb _, climb_of_reaches m (by omega) fun _ _ h => h⟩

instance (s : Simulator) (pid ancestor : UInt32) : Decidable (s.Reaches pid ancestor) :=
  decidable_of_iff (s.descends pid ancestor = true)
    ⟨fun h => reaches_of_climb _ h, fun h => climb_of_reaches _ (Nat.le_refl _) (fun _ _ h => h) h⟩

theorem descends_eq_decide (s : Simulator) (pid ancestor : UInt32) :
    s.descends pid ancestor = decide (s.Reaches pid ancestor) := by
  have hdescends : s.descends pid ancestor = true ↔ s.Reaches pid ancestor := climb_eq_true_iff (Nat.lt_succ_self _)
  rw [Bool.eq_iff_iff, hdescends, decide_eq_true_iff]

/-- **A process descends from exactly those that are reached from it by following zero or more parents**, whatever the table:
a process may be its own parent, parents may go round in loops, and a line of parents may take up the whole table.  The bound
on the climb shows in no answer, for no longer climb answers anything else. -/
theorem descends_iff_reaches (s : Simulator) (pid ancestor : UInt32) :
    (s.descends pid ancestor = true ↔ Relation.ReflTransGen (fun x y => s.parents.get? x = some y) pid ancestor) ∧
      ∀ n, s.parents.length < n → climb s.parents ancestor n pid = s.descends pid ancestor := by
  have hdescends : s.descends pid ancestor = true ↔ s.Reaches pid ancestor := climb_eq_true_iff (Nat.lt_succ_self _)
  exact ⟨hdescends, fun n hn => Bool.eq_iff_iff.2 ((climb_eq_true_iff hn).trans hdescends.symm)⟩

/-- A line that takes up the whole table is climbed to its end, and one step less would not do. -/
example : descends { parents := [(1, 2), (2, 3), (3, 4)] } 1 4 = true ∧ climb [(1, 2), (2, 3), (3, 4)] 4 3 1 = false := by
  decide

end Simulator
end DelayProbe
