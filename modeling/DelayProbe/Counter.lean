import DelayProbe.Machine
/-!
# Counter — one number kept in parts

A counter has one part for each of eight processors, and a processor beyond the eighth shares the part of its remainder.
The sum of the parts is the count; parts and sum wrap at 64 bits.
-/
namespace DelayProbe

namespace Counter

def width : Nat := 8

end Counter

structure Counter where
  parts : List UInt64 := List.replicate Counter.width 0
  length_parts : parts.length = Counter.width := by rfl
  deriving DecidableEq, Repr

namespace Counter

def zero : Counter := {}

def addOn (c : Counter) (cpu : UInt32) (v : UInt64) : Counter :=
  ⟨c.parts.modify (cpu.toNat % width) (· + v), by simp [c.length_parts]⟩

def sum (c : Counter) : UInt64 := c.parts.foldl (· + ·) 0

end Counter

inductive CounterOp where
  | add (v : UInt64)
  | addOn (cpu : UInt32) (v : UInt64)
  | reset
  | setCpu (id : UInt32)
  deriving DecidableEq, Repr

def CounterOp.apply : CounterOp → Counter × Machine → Counter × Machine
  | .add v, (c, p) => (c.addOn p.cpuId v, p)
  | .addOn cpu v, (c, p) => (c.addOn cpu v, p)
  | .reset, (_, p) => (.zero, p)
  | .setCpu id, (c, p) => (c, p.setMockCpu id)

end DelayProbe
