/-!
# Table — entries under keys, least key first

A table holds at most one entry for each key it was given through `Table.insert`, in the order of the keys.  What an
insertion does to every look-up is `get?_insert_self` and `get?_insert_ne`; removal is `get?_erase_self` and
`get?_erase_ne`.
-/
namespace DelayProbe

abbrev Table (κ α : Type) := List (κ × α)

namespace Table

variable {κ α : Type} [DecidableEq κ] [LT κ] [DecidableLT κ]

def get? : Table κ α → κ → Option α
  | [], _ => none
  | (k, v) :: t, x => if k = x then some v else get? t x

def insert (x : κ) (v : α) : Table κ α → Table κ α
  | [] => [(x, v)]
  | (k, w) :: t => if k = x then (x, v) :: t else if k < x then (k, w) :: insert x v t else (x, v) :: (k, w) :: t

def erase (t : Table κ α) (x : κ) : Table κ α := t.filter fun e => decide (e.1 ≠ x)

theorem get?_insert_self (x : κ) (v : α) : ∀ t : Table κ α, (insert x v t).get? x = some v
  | [] => by simp [insert, get?]
  | (k, w) :: t => by
    unfold insert
    split
    · simp [get?]
    · rename_i h
      split
      · simp only [get?, h, if_false]; exact get?_insert_self x v t
      · simp [get?]

theorem get?_insert_ne {x y : κ} (v : α) (h : x ≠ y) : ∀ t : Table κ α, (insert x v t).get? y = t.get? y
  | [] => by simp [insert, get?, h]
  | (k, w) :: t => by
    unfold insert
    split
    · rename_i hk; subst hk; simp [get?, h]
    · split
      · simp only [get?]; rw [get?_insert_ne v h t]
      · simp [get?, h]

omit [LT κ] [DecidableLT κ] in
theorem get?_erase_self (x : κ) : ∀ t : Table κ α, (erase t x).get? x = none
  | [] => rfl
  | (k, w) :: t => by
    by_cases h : k = x
    · simpa [erase, List.filter_cons, h] using get?_erase_self x t
    · have := get?_erase_self x t
      simp only [erase, List.filter_cons, ne_eq, h, not_false_eq_true, decide_true, if_true, get?, if_false] at this ⊢
      exact this

omit [LT κ] [DecidableLT κ] in
theorem get?_erase_ne {x y : κ} (h : x ≠ y) : ∀ t : Table κ α, (erase t x).get? y = t.get? y
  | [] => rfl
  | (k, w) :: t => by
    have ih := get?_erase_ne h t
    by_cases hk : k = x
    · subst hk; simpa [erase, List.filter_cons, get?, h] using ih
    · simp only [erase, List.filter_cons, ne_eq, hk, not_false_eq_true, decide_true, if_true, get?] at ih ⊢
      rw [ih]

end Table
end DelayProbe
