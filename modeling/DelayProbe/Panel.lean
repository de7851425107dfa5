import DelayProbe.Counter
/-!
# Panel — what every probe looks at

The switch that lets probes act, the delay a new target gets when none is named, and the hits of all targets together, those
of targets long gone included.
-/
namespace DelayProbe

structure Panel where
  enabled : Bool := false
  defaultDelay : UInt64
  hits : Counter := .zero
  delays : Counter := .zero
  deriving DecidableEq, Repr

namespace Panel

/-- One hit, charged to a processor. -/
def recordHit (c : Panel) (cpu : UInt32) (delay : UInt64) : Panel :=
  { c with hits := c.hits.addOn cpu 1, delays := c.delays.addOn cpu delay }

def totalHits (c : Panel) : UInt64 := c.hits.sum
def totalDelay (c : Panel) : UInt64 := c.delays.sum

def resetCounts (c : Panel) : Panel := { c with hits := .zero, delays := .zero }

end Panel

inductive PanelOp where
  | hit (delay : UInt64)
  | enable (on : Bool)
  | setDefault (delay : UInt64)
  | reset
  | setCpu (id : UInt32)
  deriving DecidableEq, Repr

def PanelOp.apply : PanelOp → Panel × Machine → Panel × Machine
  | .hit d, (c, p) => (c.recordHit p.cpuId d, p)
  | .enable on, (c, p) => ({ c with enabled := on }, p)
  | .setDefault d, (c, p) => ({ c with defaultDelay := d }, p)
  | .reset, (c, p) => (c.resetCounts, p)
  | .setCpu id, (c, p) => (c, p.setMockCpu id)

end DelayProbe
