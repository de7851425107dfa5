import DelayProbe.Limits
import DelayProbe.Event
import DelayProbe.Simulator
/-!
# Registry — the live targets, each armed at its probe

A registry owns its targets by value; each sits in a slot with the number of its probe, and a probe that fires acts on the
slot that holds its number.  A target is listed once its probe is armed, and its probe is disarmed before the target is let
go.  `Registry.add` runs in stages — limits, opening, reading, placing, limits again, arming — and a stage that fails
leaves the registry as it was, except that arming uses up a prepared fault.  The stages stand as functions of their own, so
that other work can be put between them.
-/
namespace DelayProbe

/-- A live target and the number of its probe. -/
structure Slot where
  target : Target
  handle : UInt64
  deriving DecidableEq, Repr

structure Registry where
  limits : Limits := {}
  panel : Panel
  slots : List Slot := []
  backend : Simulator := {}
  machine : Machine := {}
  deriving DecidableEq, Repr

/-- What a request answers, the registry it leaves, and what it let others know. -/
structure Outcome (α : Type) where
  reply : α
  after : Registry
  events : List Event := []

def Outcome.map {α β : Type} (f : α → β) (o : Outcome α) : Outcome β := ⟨f o.reply, o.after, o.events⟩

structure Stats where
  enabled : Bool
  targets : Nat
  hits : UInt64
  delays : UInt64
  deriving DecidableEq, Repr

/-- A change of the set of targets, with nothing left to default. -/
inductive Order where
  | add (key : Key) (delay : UInt64) (pid : Option UInt32)
  | remove (key : Key)
  | removeAll
  | update (key : Key) (delay : UInt64) (pid : Option UInt32)
  deriving DecidableEq, Repr

def Command.order (delay : UInt64) : Command → Order
  | .add s => .add s.key (s.delay.getD delay) s.pid
  | .remove k => .remove k
  | .removeAll => .removeAll
  | .update s => .update s.key (s.delay.getD delay) s.pid

namespace Registry

/-- An empty registry under limits that are not looked at. -/
def fresh (l : Limits) : Registry := { limits := l, panel := { defaultDelay := l.defaultDelay } }

/-- An empty registry under limits that leave room. -/
def withLimits (l : Limits) : Except Refusal Registry := l.check.map fun _ => fresh l

/-! ## Looking -/

def slot? (r : Registry) (key : Key) : Option Slot := r.slots.find? fun s => decide (s.target.key = key)

def list (r : Registry) : List TargetInfo := r.slots.map (·.target.info)

def listMatching (r : Registry) (pattern : Text) : List TargetInfo :=
  (r.slots.filter (·.target.key.matches pattern)).map (·.target.info)

def lookup (r : Registry) (key : Key) : Option TargetInfo := (r.slot? key).map (·.target.info)

def stats (r : Registry) : Stats := ⟨r.panel.enabled, r.slots.length, r.panel.totalHits, r.panel.totalDelay⟩

/-! ## Adding -/

/-- No target of that name, and room for one more. -/
def checkInsertable (r : Registry) (key : Key) : Except Refusal Unit :=
  if (r.slot? key).isSome then .error .alreadyExists
  else if r.limits.targets ≤ r.slots.length then .error .capacityExceeded
  else .ok ()

/-- What is checked before the file is touched. -/
def checkAdd (r : Registry) (key : Key) (delay : UInt64) : Except Refusal Unit :=
  match r.limits.checkDelay delay with
  | .error e => .error e
  | .ok () => r.checkInsertable key

def openFile (r : Registry) (path : Text) : Except Fault Unit × List Event :=
  if (r.backend.file? path).isSome then (.ok (), [.opening path])
  else (.error (.kind .notFound), [.opening path, .noSuchFile])

def readFile (r : Registry) (path : Text) : Except Fault Image × List Event :=
  match r.backend.file? path with
  | some im => (.ok im, [.reading path])
  | none => (.error (.kind .notFound), [.reading path, .fileVanished])

def placeIn (key : Key) (im : Image) : Except Refusal Nat × List Event :=
  let found := (im.findings key.symbol).map Event.searched
  match im.resolve key.symbol with
  | .ok p => (.ok p.offset, found)
  | .error u => (.error (.ofUnresolved u), found ++ [.unresolved key u])

/-- A target as it is handed to the backend: attached already, so that the first hit counts. -/
def newTarget (key : Key) (offset : Nat) (delay : UInt64) (pid : Option UInt32) : Target :=
  { key, offset, delay, filter := filterFor (pid.getD 0), attached := true }

def attach (r : Registry) (t : Target) (pid : Option UInt32) : Outcome (Except Refusal Unit) :=
  match r.backend.arm ⟨t.key.path, t.offset⟩ with
  | (.error f, b) =>
    ⟨.error (.attachFailed f), { r with backend := b }, [.attaching t, .attachRefused t.key t.offset f]⟩
  | (.ok h, b) =>
    ⟨.ok (), { r with backend := b, slots := r.slots ++ [⟨t, h⟩] },
      [.attaching t, .armed t.key.path t.offset h, .added t.key t.delay pid]⟩

/-- What is done with an image once it is read.  Others may have been at work in the meantime, so name and room are checked
again. -/
def install (r : Registry) (key : Key) (delay : UInt64) (pid : Option UInt32) (im : Image) :
    Outcome (Except Refusal Unit) :=
  match placeIn key im with
  | (.error e, ev) => ⟨.error e, r, ev⟩
  | (.ok offset, ev) =>
    match r.checkInsertable key with
    | .error e => ⟨.error e, r, ev⟩
    | .ok () =>
      let o := r.attach (newTarget key offset delay pid) pid
      { o with events := ev ++ o.events }

def add (r : Registry) (key : Key) (delay : UInt64) (pid : Option UInt32) : Outcome (Except Refusal Unit) :=
  match r.checkAdd key delay with
  | .error e => ⟨.error e, r, []⟩
  | .ok () =>
    match r.openFile key.path with
    | (.error f, ev) => ⟨.error (.attachFailed f), r, ev⟩
    | (.ok (), opened) =>
      match r.readFile key.path with
      | (.error f, ev) => ⟨.error (.attachFailed f), r, opened ++ ev⟩
      | (.ok im, read) =>
        let o := r.install key delay pid im
        { o with events := opened ++ read ++ o.events }

/-! ## Removing -/

/-- Detaches a target that has left the list and disarms its probe. -/
def release (r : Registry) (s : Slot) : Registry × List Event :=
  let t := { s.target with attached := false }
  let verdict := t.verdict r.panel.enabled r.backend.descends 0
  let disarmed := if (r.backend.armed.get? s.handle).isSome then [Event.disarmed s.handle] else []
  ({ r with backend := r.backend.disarm s.handle },
    .detaching s.handle t verdict :: disarmed ++ [.released t.key t.hits])

def remove (r : Registry) (key : Key) : Outcome (Except Refusal Unit) :=
  match r.slot? key with
  | none => ⟨.error .notFound, r, []⟩
  | some s =>
    let o := release { r with slots := r.slots.eraseP fun s => decide (s.target.key = key) } s
    ⟨.ok (), o.1, o.2 ++ [.removed key]⟩

def releaseAll (r : Registry) : List Slot → Registry × List Event
  | [] => (r, [])
  | s :: rest =>
    let o := r.release s
    let p := o.1.releaseAll rest
    (p.1, o.2 ++ p.2)

def removeAll (r : Registry) : Outcome Nat :=
  let o := releaseAll { r with slots := [] } r.slots
  ⟨r.slots.length, o.1, o.2 ++ [.removedAll r.slots.length]⟩

def shutdown (r : Registry) : Outcome Unit :=
  let o := removeAll { r with panel := { r.panel with enabled := false } }
  ⟨(), o.after, o.events ++ [.shutDown o.reply]⟩

/-- The end of a registry: one that still holds targets is shut down. -/
def close (r : Registry) : Outcome Unit := if r.slots = [] then ⟨(), r, []⟩ else r.shutdown

/-! ## Changing -/

/-- A new delay, and a new filter if a process is named. -/
def retune (delay : UInt64) (pid : Option UInt32) (t : Target) : Target :=
  { t with delay, filter := match pid with
      | none => t.filter
      | some p => filterFor p }

def modifyFirst (p : Slot → Bool) (f : Target → Target) : List Slot → List Slot
  | [] => []
  | s :: rest => if p s then { s with target := f s.target } :: rest else s :: modifyFirst p f rest

def update (r : Registry) (key : Key) (delay : UInt64) (pid : Option UInt32) : Outcome (Except Refusal Unit) :=
  match r.limits.checkDelay delay with
  | .error e => ⟨.error e, r, []⟩
  | .ok () =>
    if (r.slot? key).isSome then
      ⟨.ok (), { r with slots := modifyFirst (fun s => decide (s.target.key = key)) (retune delay pid) r.slots },
        [.updated key delay]⟩
    else ⟨.error .notFound, r, []⟩

/-- Carries out an order and answers how many targets it touched. -/
def perform (r : Registry) : Order → Outcome (Except Refusal Nat)
  | .add key delay pid => (r.add key delay pid).map (·.map fun _ => 1)
  | .remove key => (r.remove key).map (·.map fun _ => 1)
  | .removeAll => r.removeAll.map .ok
  | .update key delay pid => (r.update key delay pid).map (·.map fun _ => 1)

def execute (r : Registry) (c : Command) : Outcome (Except Refusal Nat) := r.perform (c.order r.panel.defaultDelay)

def setEnabled (r : Registry) (on : Bool) : Outcome Unit :=
  ⟨(), { r with panel := { r.panel with enabled := on } }, [.switched on]⟩

def setDefaultDelay (r : Registry) (delay : UInt64) : Outcome (Except Refusal Unit) :=
  match r.limits.checkDelay delay with
  | .error e => ⟨.error e, r, []⟩
  | .ok () => ⟨.ok (), { r with panel := { r.panel with defaultDelay := delay } }, [.defaultDelay delay]⟩

def resetStats (r : Registry) : Registry :=
  { r with slots := r.slots.map fun s => { s with target := s.target.resetCounts }, panel := r.panel.resetCounts }

/-! ## Hits -/

/-- A hit on the probe of a slot; nobody listens to a probe without one. -/
def hit (r : Registry) (handle : UInt64) (pid : UInt32) : Option (Verdict × Registry) :=
  match r.slots.find? fun s => decide (s.handle = handle) with
  | none => some (if r.panel.enabled then .detached else .disabled, r)
  | some s =>
    (s.target.fire r.panel r.machine r.backend.descends pid).map fun (v, t, c, p) =>
      (v, { r with
        slots := modifyFirst (fun s => decide (s.handle = handle)) (fun _ => t) r.slots, panel := c, machine := p })

def hitAll (pid : UInt32) : List UInt64 → Registry → Option (List Verdict × Registry)
  | [], r => some ([], r)
  | h :: rest, r =>
    match r.hit h pid with
    | none => none
    | some (v, r') => (hitAll pid rest r').map fun p => (v :: p.1, p.2)

/-- A process passes a place: what each probe there does.  `none` if one of the waits never ends. -/
def trigger (r : Registry) (probe : Probe) (pid : UInt32) : Option (List Verdict × Registry) :=
  hitAll pid (r.backend.armedAt probe) r

end Registry
end DelayProbe
