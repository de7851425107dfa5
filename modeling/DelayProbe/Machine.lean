import DelayProbe.Wait
/-!
# Machine — the clock and the processor a program runs on

A machine has a mock clock and a mock processor number until real ones are installed; each can be installed once.  Relaxing
moves the mock clock on by `Machine.relaxStep`, and an installed clock moves by itself.  All times wrap at 64 bits.
-/
namespace DelayProbe

/-- An installed clock: its next reading, and how much later the one after it is. -/
structure RunningClock where
  next : UInt64
  step : UInt64
  deriving DecidableEq, Repr

structure Machine where
  mockTime : UInt64 := 1000000000
  mockCpu : UInt32 := 0
  clock : Option RunningClock := none
  cpu : Option UInt32 := none
  deriving DecidableEq, Repr

namespace Machine

def relaxStep : UInt64 := 1000

def hasClock (p : Machine) : Bool := p.clock.isSome

def readTime (p : Machine) : UInt64 × Machine :=
  match p.clock with
  | some c => (c.next, { p with clock := some { c with next := c.next + c.step } })
  | none => (p.mockTime, p)

def relax (p : Machine) : Machine :=
  if p.hasClock then p else { p with mockTime := p.mockTime + relaxStep }

def cpuId (p : Machine) : UInt32 := p.cpu.getD p.mockCpu

def setMockTime (p : Machine) (t : UInt64) : Machine := { p with mockTime := t }
def advanceMockTime (p : Machine) (d : UInt64) : Machine := { p with mockTime := p.mockTime + d }
def setMockCpu (p : Machine) (id : UInt32) : Machine := { p with mockCpu := id }

/-- Installs a clock if there is none yet, and says whether it did. -/
def installClock (p : Machine) (c : RunningClock) : Bool × Machine :=
  if p.hasClock then (false, p) else (true, { p with clock := some c })

/-- Installs a processor number if there is none yet, and says whether it did. -/
def installCpu (p : Machine) (id : UInt32) : Bool × Machine :=
  if p.cpu.isSome then (false, p) else (true, { p with cpu := some id })

def timepiece : Timepiece Machine := ⟨fun p => (some p.readTime.1, p.readTime.2), relax⟩

/-- The turns after which a wait is given up.  The mock clock moves in steps of 1000, so it comes round after 2^61 turns:
a wait on it that has not ended by then never ends. -/
def patience : Nat := 0x4000000000000000

/-- The machine after a wait; `none` for a wait that does not end. -/
def wait (p : Machine) (ns : UInt64) : Option Machine :=
  match timepiece.wait patience ns p with
  | (true, p') => some p'
  | (false, _) => none

end Machine
end DelayProbe
