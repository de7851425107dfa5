import DelayProbe.Endpoint
/-!
# Run — registries under any sequence of requests

`Op` is what callers, the simulated machine and passing processes can do to a registry, one after the other;
`Registry.step` answers one of them.  `DeviceOp` is what can be done to the machine under it, or past the registry to the
totals.  A step is `none` when it never comes back, which only a wait can cause.
-/
namespace DelayProbe

inductive Op where
  | perform (order : Order)
  | execute (command : Command)
  | read (name : Text)
  | write (name input : Text)
  | list
  | listMatching (pattern : Text)
  | lookup (key : Key)
  | isEmpty
  | setEnabled (on : Bool)
  | setDefaultDelay (delay : UInt64)
  | resetStats
  | shutdown
  | insertFile (path : Text) (image : Image)
  | removeFile (path : Text)
  | setParent (pid parent : UInt32)
  | descends (pid ancestor : UInt32)
  | failNextArm (fault : Fault)
  | isArmed (probe : Probe)
  | trigger (probe : Probe) (pid : UInt32)
  | setCpu (id : UInt32)
  deriving DecidableEq, Repr

inductive DeviceOp where
  | recordHit (delay : UInt64)
  | readTime
  | cpuId
  | hasClock
  | relax
  | setMockTime (time : UInt64)
  | advanceMockTime (ns : UInt64)
  | wait (ns : UInt64)
  | installClock (clock : RunningClock)
  | installCpu (id : UInt32)
  | load
  | loadOn (clock : RunningClock) (id : UInt32)
  deriving DecidableEq, Repr

inductive Reply where
  | done
  | number (n : Nat)
  | text (t : Text)
  | flag (b : Bool)
  | infos (l : List TargetInfo)
  | info (i : Option TargetInfo)
  | verdict (v : Verdict)
  | verdicts (l : List Verdict)
  | kept (attached : Bool) (info : TargetInfo)
  deriving DecidableEq, Repr

abbrev Answer := Except Refusal Reply

namespace Registry

/-- An answer that leaves the registry as it is. -/
def answer (r : Registry) (a : Answer) : Outcome Answer := ⟨a, r, []⟩

def silently (r : Registry) : Outcome Answer := ⟨.ok .done, r, []⟩

def withBackend (r : Registry) (b : Simulator) : Outcome Answer := silently { r with backend := b }
def withMachine (r : Registry) (p : Machine) : Outcome Answer := silently { r with machine := p }

def step (r : Registry) : Op → Option (Outcome Answer)
  | .perform (.add key delay pid) => some ((r.add key delay pid).map (·.map fun _ => .done))
  | .perform (.remove key) => some ((r.remove key).map (·.map fun _ => .done))
  | .perform (.update key delay pid) => some ((r.update key delay pid).map (·.map fun _ => .done))
  | .perform .removeAll => some (r.removeAll.map fun n => .ok (.number n))
  | .execute c => some ((r.execute c).map (·.map .number))
  | .read name => some (r.answer ((r.readNamed name).map .text))
  | .write name input => some ((r.writeNamed name input).map (·.map .number))
  | .list => some (r.answer (.ok (.infos r.list)))
  | .listMatching pattern => some (r.answer (.ok (.infos (r.listMatching pattern))))
  | .lookup key => some (r.answer (.ok (.info (r.lookup key))))
  | .isEmpty => some (r.answer (.ok (.flag r.slots.isEmpty)))
  | .setEnabled on => some ((r.setEnabled on).map fun _ => .ok .done)
  | .setDefaultDelay delay => some ((r.setDefaultDelay delay).map (·.map fun _ => .done))
  | .resetStats => some r.resetStats.silently
  | .shutdown => some (r.shutdown.map fun _ => .ok .done)
  | .insertFile path im => some (r.withBackend (r.backend.insertFile path im))
  | .removeFile path => some (r.withBackend (r.backend.removeFile path))
  | .setParent pid parent => some (r.withBackend (r.backend.setParent pid parent))
  | .descends pid ancestor => some (r.answer (.ok (.flag (r.backend.descends pid ancestor))))
  | .failNextArm f => some (r.withBackend (r.backend.failNextArm f))
  | .isArmed probe => some (r.answer (.ok (.flag (r.backend.isArmed probe))))
  | .trigger probe pid => (r.trigger probe pid).map fun (vs, r') => ⟨.ok (.verdicts vs), r', []⟩
  | .setCpu id => some (r.withMachine (r.machine.setMockCpu id))

/-- The answers to a sequence of requests and the registry after them; `none` if one of them never comes back. -/
def run (r : Registry) : List Op → Option (List Answer × Registry)
  | [] => some ([], r)
  | op :: rest => (r.step op).bind fun o => (o.after.run rest).map fun p => (o.reply :: p.1, p.2)

def loadEvents (p : Machine) : List Event :=
  .loaded ({} : Limits).targets ({} : Limits).longestDelay :: if p.hasClock then [] else [.noClock]

def stepDevice (r : Registry) : DeviceOp → Option (Outcome Answer)
  | .recordHit delay => some (silently { r with panel := r.panel.recordHit r.machine.cpuId delay })
  | .readTime =>
    let (t, p) := r.machine.readTime
    some ⟨.ok (.number t.toNat), { r with machine := p }, []⟩
  | .cpuId => some (r.answer (.ok (.number r.machine.cpuId.toNat)))
  | .hasClock => some (r.answer (.ok (.flag r.machine.hasClock)))
  | .relax => some (r.withMachine r.machine.relax)
  | .setMockTime t => some (r.withMachine (r.machine.setMockTime t))
  | .advanceMockTime d => some (r.withMachine (r.machine.advanceMockTime d))
  | .wait ns => (r.machine.wait ns).map r.withMachine
  | .installClock c =>
    let (fresh, p) := r.machine.installClock c
    some ⟨.ok (.flag fresh), { r with machine := p }, []⟩
  | .installCpu id =>
    let (fresh, p) := r.machine.installCpu id
    some ⟨.ok (.flag fresh), { r with machine := p }, []⟩
  | .load => some ⟨.ok .done, r, loadEvents r.machine⟩
  | .loadOn c id =>
    let (fresh, p) := r.machine.installClock c
    let p := (p.installCpu id).2
    some ⟨.ok .done, { r with machine := p }, (if fresh then [] else [.clockTaken]) ++ loadEvents p⟩

end Registry
end DelayProbe
