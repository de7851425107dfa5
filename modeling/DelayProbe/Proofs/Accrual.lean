import DelayProbe.Panel
import Mathlib.Algebra.GroupWithZero.Nat
import Mathlib.Data.List.DropRight
import Mathlib.Data.UInt
/-!
# Accrual — a count is all that was added since it last started over

A counter keeps eight parts and each of them wraps by itself, but its sum goes up by what is added, whichever part that went to
(`Counter.sum_addOn`).  So the sum after any steps is told by the steps alone: it is what they added since the last one that
started over, modulo 2^64, and the totals of a panel are the number and the sum of the hits since then (`totals_eq_sinceReset`).
What a history leaves to be counted is `sinceReset`, whatever the history is made of.
-/
namespace DelayProbe

/-! ## What is added since the last reset -/

section
variable {α β σ : Type}

/-- What the steps added, of those after the last one that starts over. -/
def sinceReset (resets : α → Bool) (adds : α → List β) (steps : List α) : List β :=
  (steps.rtakeWhile fun a => !resets a).flatMap adds

variable {resets : α → Bool} {adds : α → List β}

theorem sinceReset_concat (steps : List α) (a : α) :
    sinceReset resets adds (steps ++ [a]) = if resets a then [] else sinceReset resets adds steps ++ adds a := by
  unfold sinceReset
  rw [List.rtakeWhile_concat]
  cases resets a <;> simp

/-- **What every step keeps of the additions since the last reset, all the steps keep.** -/
theorem foldl_sinceReset {P : σ → List β → Prop} {step : σ → α → σ}
    (hstep : ∀ {s : σ} {bs : List β} (a : α), P s bs → P (step s a) (if resets a then [] else bs ++ adds a))
    {s : σ} (h : P s []) (steps : List α) : P (steps.foldl step s) (sinceReset resets adds steps) := by
  induction steps using List.reverseRecOn with
  | nil => exact h
  | append_singleton steps a ih =>
    rw [List.foldl_concat, sinceReset_concat]
    exact hstep a ih

end

/-! ## Counts that wrap -/

theorem toNat_add_concat {n : UInt64} {vs : List UInt64} (h : n.toNat = (vs.map UInt64.toNat).sum % 2 ^ 64) (v : UInt64) :
    (n + v).toNat = ((vs ++ [v]).map UInt64.toNat).sum % 2 ^ 64 := by
  rw [UInt64.toNat_add, h, List.map_append, List.sum_append]
  simp

theorem sum_map_one {α : Type} : ∀ as : List α, (as.map fun _ => (1 : UInt64)).sum = UInt64.ofNat as.length
  | [] => rfl
  | _ :: as => by
    rw [List.map_cons, List.sum_cons, sum_map_one as, List.length_cons, Nat.add_comm, UInt64.ofNat_add]
    rfl

/-- Two counts hold how many delays there were and how long they are together, as far as 64 bits go. -/
def Counts (hits delays : UInt64) (ds : List UInt64) : Prop :=
  hits.toNat = ds.length % 2 ^ 64 ∧ delays.toNat = (ds.map UInt64.toNat).sum % 2 ^ 64

theorem Counts.nil : Counts 0 0 [] := ⟨rfl, rfl⟩

theorem Counts.concat {hits delays : UInt64} {ds : List UInt64} (h : Counts hits delays ds) (d : UInt64) :
    Counts (hits + 1) (delays + d) (ds ++ [d]) := by
  refine ⟨?_, toNat_add_concat h.2 d⟩
  rw [UInt64.toNat_add, h.1, List.length_append]
  simp

/-! ## A counter -/

namespace Counter

theorem foldl_add (v : UInt64) : ∀ (ps : List UInt64) (a : UInt64),
    ps.foldl (· + ·) (a + v) = ps.foldl (· + ·) a + v
  | [], _ => rfl
  | p :: ps, a => by
    have hp : a + v + p = a + p + v := by rw [UInt64.add_assoc, UInt64.add_comm v p, UInt64.add_assoc]
    rw [List.foldl_cons, List.foldl_cons, hp, foldl_add v ps]

theorem foldl_modify (v : UInt64) : ∀ (ps : List UInt64) (i : Nat) (a : UInt64), i < ps.length →
    (ps.modify i (· + v)).foldl (· + ·) a = ps.foldl (· + ·) a + v
  | p :: ps, 0, a, _ => by
    rw [List.modify_zero_cons, List.foldl_cons, List.foldl_cons, ← UInt64.add_assoc, foldl_add]
  | p :: ps, i + 1, a, h => by
    rw [List.modify_succ_cons, List.foldl_cons, List.foldl_cons, foldl_modify v ps i _ (Nat.lt_of_succ_lt_succ h)]

/-- **The count does not show which part was added to.** -/
theorem sum_addOn (c : Counter) (cpu : UInt32) (v : UInt64) : (c.addOn cpu v).sum = c.sum + v :=
  foldl_modify v c.parts _ 0 (by rw [c.length_parts]; exact Nat.mod_lt _ (by decide))

theorem sum_foldl_addOn {α : Type} (cpu : UInt32) (f : α → UInt64) : ∀ (as : List α) (c : Counter),
    (as.foldl (fun c a => c.addOn cpu (f a)) c).sum = c.sum + (as.map f).sum
  | [], c => (UInt64.add_zero c.sum).symm
  | a :: as, c => by
    rw [List.foldl_cons, sum_foldl_addOn cpu f as, sum_addOn, List.map_cons, List.sum_cons, UInt64.add_assoc]

/-- The sum holds these values together, as far as 64 bits go. -/
def Sums (c : Counter) (vs : List UInt64) : Prop := c.sum.toNat = (vs.map UInt64.toNat).sum % 2 ^ 64

end Counter

namespace CounterOp

def added : CounterOp → List UInt64
  | .add v | .addOn _ v => [v]
  | .reset | .setCpu _ => []

def resets : CounterOp → Bool
  | .reset => true
  | .add _ | .addOn _ _ | .setCpu _ => false

/-- **A step starts the sum over, or adds its value to it**, on whatever processor it is. -/
theorem apply_sums (op : CounterOp) {s : Counter × Machine} {vs : List UInt64} (h : s.1.Sums vs) :
    (op.apply s).1.Sums (if op.resets then [] else vs ++ op.added) := by
  have adds : ∀ cpu v, (s.1.addOn cpu v).Sums (vs ++ [v]) := fun cpu v => by
    unfold Counter.Sums
    rw [Counter.sum_addOn]
    exact toNat_add_concat h v
  cases op with
  | add v => exact adds _ v
  | addOn cpu v => exact adds cpu v
  | reset => rfl
  | setCpu id =>
    rw [added, List.append_nil]
    exact h

end CounterOp

/-! ## A panel -/

/-- The totals hold these delays. -/
def Panel.Holds (c : Panel) (ds : List UInt64) : Prop := Counts c.totalHits c.totalDelay ds

theorem Panel.Holds.recordHit {c : Panel} {ds : List UInt64} (h : c.Holds ds) (cpu : UInt32) (d : UInt64) :
    (c.recordHit cpu d).Holds (ds ++ [d]) := by
  unfold Panel.Holds Panel.totalHits Panel.totalDelay Panel.recordHit
  rw [Counter.sum_addOn, Counter.sum_addOn]
  exact h.concat d

namespace PanelOp

def hits : PanelOp → List UInt64
  | .hit d => [d]
  | .enable _ | .setDefault _ | .reset | .setCpu _ => []

def resets : PanelOp → Bool
  | .reset => true
  | .hit _ | .enable _ | .setDefault _ | .setCpu _ => false

/-- **A step starts the totals over, or counts its hit**; the switch and the default delay do not show in them. -/
theorem apply_holds (op : PanelOp) {s : Panel × Machine} {ds : List UInt64} (h : s.1.Holds ds) :
    (op.apply s).1.Holds (if op.resets then [] else ds ++ op.hits) := by
  cases op with
  | hit d => exact h.recordHit _ d
  | reset => exact Counts.nil
  | _ =>
    rw [hits, List.append_nil]
    exact h

end PanelOp

/-! ## All steps -/

theorem Counter.sums_sinceReset (m : Machine) (ops : List CounterOp) :
    (ops.foldl (fun s op => op.apply s) (Counter.zero, m)).1.Sums (sinceReset CounterOp.resets CounterOp.added ops) := by
  apply foldl_sinceReset (P := fun (s : Counter × Machine) vs => s.1.Sums vs)
  · exact fun op h => op.apply_sums h
  · rfl

theorem Panel.holds_sinceReset (m : Machine) (d : UInt64) (ops : List PanelOp) :
    (ops.foldl (fun s op => op.apply s) (({ defaultDelay := d } : Panel), m)).1.Holds
      (sinceReset PanelOp.resets PanelOp.hits ops) := by
  apply foldl_sinceReset (P := fun (s : Panel × Machine) ds => s.1.Holds ds)
  · exact fun op h => op.apply_holds h
  · exact Counts.nil

/-- **No addition is lost or counted twice**, whichever processor it was charged to and however the parts wrapped: after any steps
the sum of a counter is what was added since the last reset, and the totals of a panel are the number and the sum of the hits
since then, all modulo 2^64.  The steps up to some place are steps themselves, so this holds after each of them. -/
theorem totals_eq_sinceReset (m : Machine) :
    (∀ ops : List CounterOp, (ops.foldl (fun s op => op.apply s) (Counter.zero, m)).1.sum.toNat =
        ((sinceReset CounterOp.resets CounterOp.added ops).map UInt64.toNat).sum % 2 ^ 64) ∧
      ∀ (d : UInt64) (ops : List PanelOp),
        let c := (ops.foldl (fun s op => op.apply s) (({ defaultDelay := d } : Panel), m)).1
        let hits := sinceReset PanelOp.resets PanelOp.hits ops
        c.totalHits.toNat = hits.length % 2 ^ 64 ∧ c.totalDelay.toNat = (hits.map UInt64.toNat).sum % 2 ^ 64 :=
  ⟨Counter.sums_sinceReset m, Panel.holds_sinceReset m⟩

/-- Processors 3 and 11 share a part, which wraps by itself, and so does the sum. -/
example : ([.addOn 3 7, .reset, .addOn 3 (-1), .setCpu 11, .add 5, .addOn 0 2].foldl (fun s op => CounterOp.apply op s)
    (Counter.zero, {})).1.sum = 6 := by decide

end DelayProbe
