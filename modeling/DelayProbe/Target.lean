import DelayProbe.Panel
import DelayProbe.Key
import DelayProbe.Text.Decimal
/-!
# Target — a place in a program where passing processes are delayed

A process that hits the probe of a target is told a `Verdict`, decided in this order: nothing is delayed while the switch is
off, nor by a target that is not attached, nor if the target is kept for a process the hitting one does not descend from.
Otherwise the process waits, and then the hit is counted on the target and in the totals (`Target.fire`).
-/
namespace DelayProbe

structure Target where
  key : Key
  offset : Nat
  delay : UInt64
  filter : Option UInt32
  attached : Bool := false
  hits : UInt64 := 0
  delays : UInt64 := 0
  deriving DecidableEq, Repr

structure TargetInfo where
  key : Key
  offset : Nat
  delay : UInt64
  filter : Option UInt32
  hits : UInt64
  delays : UInt64
  deriving DecidableEq, Repr

inductive Verdict where
  | delayed (ns : UInt64)
  | disabled
  | detached
  | filtered
  deriving DecidableEq, Repr

/-- The filter that a process number asks for; 0 asks for none. -/
def filterFor (pid : UInt32) : Option UInt32 := if pid = 0 then none else some pid

namespace TargetInfo

def filterText : Option UInt32 → Text
  | none => []
  | some p => " pid=".toList ++ Decimal.text p.toNat

def text (i : TargetInfo) : Text :=
  i.key.text ++ " delay_ns=".toList ++ Decimal.text i.delay.toNat ++ " hits=".toList ++ Decimal.text i.hits.toNat ++
    filterText i.filter

end TargetInfo

namespace Target

def info (t : Target) : TargetInfo := ⟨t.key, t.offset, t.delay, t.filter, t.hits, t.delays⟩

def recordHit (t : Target) (delay : UInt64) : Target := { t with hits := t.hits + 1, delays := t.delays + delay }

def resetCounts (t : Target) : Target := { t with hits := 0, delays := 0 }

/-- What a process is told; `descends p a` says whether process `p` is `a` or descends from it. -/
def verdict (t : Target) (enabled : Bool) (descends : UInt32 → UInt32 → Bool) (pid : UInt32) : Verdict :=
  if !enabled then .disabled
  else if !t.attached then .detached
  else if t.filter.any fun f => !descends pid f then .filtered
  else .delayed t.delay

/-- A hit by a process: what it is told, and the target, the totals and the machine after it.  The hit counts on the
processor that runs when the wait is over; `none` if the wait never ends. -/
def fire (t : Target) (c : Panel) (p : Machine) (descends : UInt32 → UInt32 → Bool) (pid : UInt32) :
    Option (Verdict × Target × Panel × Machine) :=
  match t.verdict c.enabled descends pid with
  | .delayed d => (p.wait d).map fun p' => (.delayed d, t.recordHit d, c.recordHit p'.cpuId d, p')
  | v => some (v, t, c, p)

end Target
end DelayProbe
