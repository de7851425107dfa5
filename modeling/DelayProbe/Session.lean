import DelayProbe.Run
/-!
# Session — a watched registry

A session drives a registry and writes down what reaches the backend.  It keeps every consumer that was handed to the
backend, in order, whether or not its probe could be armed: while its target is listed a kept consumer stands for the listed
target, and afterwards for what the target was when it was let go (`Kept`).  Faults can be prepared for the next opening or
reading of a file, and whole lists of steps for the moment right after it, which is the one point where other work can come
between the stages of an addition.
-/
namespace DelayProbe

/-- A consumer that was handed to the backend: the number of its probe while that is armed, and its target as it was last
seen out of the list. -/
structure Kept where
  handle : Option UInt64 := none
  target : Target
  deriving DecidableEq, Repr

inductive Notice where
  | line (l : Line)
  | opened (path : Text)
  | read (path : Text)
  | attached (path : Text) (offset : Nat) (info : Text) (attached : Bool)
  | detached (index : Nat) (verdict : Verdict)
  | nested (answer : Answer)

inductive Step where
  | op (op : Op)
  | device (op : DeviceOp)
  | failOpen (fault : Fault)
  | failRead (fault : Fault)
  | onOpen (steps : List Step)
  | onRead (steps : List Step)
  | fire (index : Nat) (pid : UInt32)
  | consumer (index : Nat)

structure Session where
  registry : Registry
  kept : List Kept := []
  openFault : Option Fault := none
  readFault : Option Fault := none
  openSteps : Option (List Step) := none
  readSteps : Option (List Step) := none

/-- What a step answers, the session it leaves, and what was written down. -/
structure Heard (α : Type) where
  reply : α
  after : Session
  notices : List Notice := []

def Heard.map {α β : Type} (f : α → β) (h : Heard α) : Heard β := ⟨f h.reply, h.after, h.notices⟩

namespace Kept

/-- What becomes of the kept consumers: one more when a target is handed over, armed or let go as it is told. -/
def follow (ks : List Kept) : Event → List Kept
  | .attaching t => ks ++ [{ target := { t with attached := false } }]
  | .armed _ _ h => ks.modify (ks.length - 1) fun k => { k with handle := some h }
  | .detaching h t _ => ks.map fun k => if k.handle = some h then { target := t } else k
  | _ => ks

/-- What is written down about an event; `ks` are the consumers kept before it. -/
def notice? (ks : List Kept) : Event → Option Notice
  | .opening path => some (.opened path)
  | .reading path => some (.read path)
  | .attaching t => some (.attached t.key.path t.offset t.info.text t.attached)
  | .detaching h _ v => some (.detached (ks.findIdx fun k => decide (k.handle = some h)) v)
  | e => e.line?.map .line

/-- The consumers kept after some events, and what was written down. -/
def hear (ks : List Kept) : List Event → List Kept × List Notice
  | [] => (ks, [])
  | e :: rest =>
    let p := hear (follow ks e) rest
    (p.1, (notice? ks e).toList ++ p.2)

end Kept

namespace Session

def hear {α : Type} (s : Session) (o : Outcome α) : Heard α :=
  let p := Kept.hear s.kept o.events
  ⟨o.reply, { s with registry := o.after, kept := p.1 }, p.2⟩

def targetOf (s : Session) (k : Kept) : Target :=
  match k.handle with
  | none => k.target
  | some h => ((s.registry.slots.find? fun t => decide (t.handle = h)).map (·.target)).getD k.target

def openFile (s : Session) (path : Text) : Heard (Except Fault Unit) :=
  match s.openFault with
  | some f => hear { s with openFault := none } ⟨.error f, s.registry, [.opening path]⟩
  | none =>
    let o := s.registry.openFile path
    s.hear ⟨o.1, s.registry, o.2⟩

def readFile (s : Session) (path : Text) : Heard (Except Fault Image) :=
  match s.readFault with
  | some f => hear { s with readFault := none } ⟨.error f, s.registry, [.reading path]⟩
  | none =>
    let o := s.registry.readFile path
    s.hear ⟨o.1, s.registry, o.2⟩

/-- How prepared steps are run; `none` if one of them never comes back. -/
abbrev Runner := List Step → Session → Option (Heard Unit)

/-- An addition, with the prepared steps between its stages. -/
def add (run : Runner) (s : Session) (key : Key) (delay : UInt64) (pid : Option UInt32) :
    Option (Heard (Except Refusal Unit)) :=
  match s.registry.checkAdd key delay with
  | .error e => some ⟨.error e, s, []⟩
  | .ok () =>
    let o := s.openFile key.path
    match o.reply with
    | .error f => some ⟨.error (.attachFailed f), o.after, o.notices⟩
    | .ok () =>
      match run (o.after.openSteps.getD []) { o.after with openSteps := none } with
      | none => none
      | some a =>
        let d := a.after.readFile key.path
        match d.reply with
        | .error f => some ⟨.error (.attachFailed f), d.after, o.notices ++ a.notices ++ d.notices⟩
        | .ok im =>
          match run (d.after.readSteps.getD []) { d.after with readSteps := none } with
          | none => none
          | some b =>
            let i := b.after.hear (b.after.registry.install key delay pid im)
            some ⟨i.reply, i.after, o.notices ++ a.notices ++ d.notices ++ b.notices ++ i.notices⟩

def perform (run : Runner) (s : Session) : Order → Option (Heard (Except Refusal Nat))
  | .add key delay pid => (s.add run key delay pid).map (·.map (·.map fun _ => 1))
  | o => some (s.hear (s.registry.perform o))

/-- A request to the registry.  Whatever ends in an addition is run stage by stage. -/
def operate (run : Runner) (s : Session) : Op → Option (Heard Answer)
  | .perform (.add key delay pid) => (s.add run key delay pid).map (·.map (·.map fun _ => .done))
  | .execute c => (s.perform run (c.order s.registry.panel.defaultDelay)).map (·.map (·.map .number))
  | .write name input =>
    match s.registry.requestNamed name input with
    | .ok (.execute c) =>
      let told := s.hear ⟨(), s.registry, [.commanded c]⟩
      (told.after.perform run (c.order s.registry.panel.defaultDelay)).map fun h =>
        ⟨h.reply.map fun _ => .number input.byteLength, h.after, told.notices ++ h.notices⟩
    | _ => (s.registry.step (.write name input)).map s.hear
  | op => (s.registry.step op).map s.hear

def fire (s : Session) (k : Kept) (pid : UInt32) : Option (Heard Answer) :=
  match k.handle with
  | some h => (s.registry.hit h pid).map fun (v, r) => s.hear ⟨.ok (.verdict v), r, []⟩
  | none =>
    let v := k.target.verdict s.registry.panel.enabled s.registry.backend.descends pid
    some ⟨.ok (.verdict v), s, []⟩

/-- One step; `run` runs the steps prepared earlier.  A consumer that was never kept is not found. -/
def stepWith (run : Runner) (s : Session) : Step → Option (Heard Answer)
  | .op op => s.operate run op
  | .device op => (s.registry.stepDevice op).map s.hear
  | .failOpen f => some ⟨.ok .done, { s with openFault := some f }, []⟩
  | .failRead f => some ⟨.ok .done, { s with readFault := some f }, []⟩
  | .onOpen steps => some ⟨.ok .done, { s with openSteps := some steps }, []⟩
  | .onRead steps => some ⟨.ok .done, { s with readSteps := some steps }, []⟩
  | .fire i pid =>
    match s.kept[i]? with
    | none => some ⟨.error .notFound, s, []⟩
    | some k => s.fire k pid
  | .consumer i =>
    match s.kept[i]? with
    | none => some ⟨.error .notFound, s, []⟩
    | some k => some ⟨.ok (.kept (s.targetOf k).attached (s.targetOf k).info), s, []⟩

/-- Runs prepared steps one after the other and writes down what each answered. -/
def runNested (step : Session → Step → Option (Heard Answer)) : Runner
  | [], s => some ⟨(), s, []⟩
  | st :: rest, s =>
    match step s st with
    | none => none
    | some h => (runNested step rest h.after).map fun t => ⟨(), t.after, h.notices ++ .nested h.reply :: t.notices⟩

/-- One step, with prepared steps running at most `depth` deep inside each other. -/
def step : Nat → Session → Step → Option (Heard Answer)
  | 0 => stepWith fun _ s => some ⟨(), s, []⟩
  | n + 1 => stepWith (runNested (step n))

end Session

mutual

/-- How many steps a step is, those it prepares included. -/
def Step.weight : Step → Nat
  | .onOpen steps => Step.totalWeight steps + 1
  | .onRead steps => Step.totalWeight steps + 1
  | _ => 1

def Step.totalWeight : List Step → Nat
  | [] => 0
  | s :: rest => s.weight + Step.totalWeight rest

end

namespace Session

/-- Runs a script.  Prepared steps are run once at most, so they are never deeper inside each other than the script has
steps. -/
def script (s : Session) (steps : List Step) : Option (List (Heard Answer)) :=
  let depth := Step.totalWeight steps
  let rec go (s : Session) : List Step → Option (List (Heard Answer))
    | [] => some []
    | st :: rest =>
      match s.step depth st with
      | none => none
      | some h => (go h.after rest).map (h :: ·)
  go s steps

def close (s : Session) : Heard Unit := s.hear s.registry.close

end Session
end DelayProbe
