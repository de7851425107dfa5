/-!
# Wait — standing still until a clock has moved on

A wait reads the clock once, then relaxes and reads in turns until a reading is far enough past the first
(`Wait.isOver`).  The difference of two readings stops at zero, so a clock that steps back, or a time so late that the end
could not be written in 64 bits, never ends a wait early.  The same loop runs on a scripted clock (`Script.wait`) and on the
machine's own.
-/
namespace DelayProbe

/-- A clock as a wait sees it.  `now` gives no reading when the clock has none left to give. -/
structure Timepiece (σ : Type) where
  now : σ → Option UInt64 × σ
  relax : σ → σ

namespace Wait

/-- Whether `ns` have passed from reading `start` to reading `t`. -/
def isOver (start ns t : UInt64) : Bool := decide (ns.toNat ≤ t.toNat - start.toNat)

/-- At most `n` turns of relaxing and reading; `true` when a reading ended the wait. -/
@[specialize] def turns {σ : Type} (k : Timepiece σ) (start ns : UInt64) : Nat → σ → Bool × σ
  | 0, s => (false, s)
  | n + 1, s =>
    match k.now (k.relax s) with
    | (none, s') => (false, s')
    | (some t, s') => if isOver start ns t then (true, s') else turns k start ns n s'

end Wait

/-- A wait of `ns`, given up after `patience` turns.  A wait of 0 does not look at the clock. -/
@[specialize] def Timepiece.wait {σ : Type} (k : Timepiece σ) (patience : Nat) (ns : UInt64) (s : σ) : Bool × σ :=
  if ns = 0 then (true, s)
  else
    match k.now s with
    | (none, s') => (false, s')
    | (some start, s') => Wait.turns k start ns patience s'

/-- A clock that follows a script: the readings still to come, and what has been asked of it. -/
structure Script where
  left : List UInt64
  reads : Nat := 0
  relaxes : Nat := 0
  deriving DecidableEq, Repr

namespace Script

/-- A reading asked for past the end counts as asked for. -/
def now (s : Script) : Option UInt64 × Script :=
  match s.left with
  | [] => (none, { s with reads := s.reads + 1 })
  | t :: r => (some t, { s with left := r, reads := s.reads + 1 })

def timepiece : Timepiece Script := ⟨now, fun s => { s with relaxes := s.relaxes + 1 }⟩

/-- A wait on a script.  Every turn takes a reading, so there are no more turns than readings. -/
def wait (script : List UInt64) (ns : UInt64) : Bool × Script := timepiece.wait script.length ns ⟨script, 0, 0⟩

end Script
end DelayProbe
