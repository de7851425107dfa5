import DelayProbe.Command.Reader
import DelayProbe.Registry
/-!
# Endpoint — a registry as a handful of text files

Each endpoint is read, written or both.  What is written is first understood as a `Request` (`Endpoint.request`), which does
not look at the registry beyond its limits, and then carried out; a write answers the number of bytes it was given.
-/
namespace DelayProbe

inductive Endpoint where
  | enabled
  | targets
  | targetsList
  | stats
  | defaultDelay
  deriving DecidableEq, Repr

inductive Request where
  | setEnabled (on : Bool)
  | setDefaultDelay (delay : UInt64)
  | execute (command : Command)
  deriving DecidableEq, Repr

namespace Endpoint

def all : List Endpoint := [.enabled, .targets, .targetsList, .stats, .defaultDelay]

def name : Endpoint → Text
  | .enabled => "enabled".toList
  | .targets => "targets".toList
  | .targetsList => "targets_list".toList
  | .stats => "stats".toList
  | .defaultDelay => "default_delay_ns".toList

def ofName? (n : Text) : Option Endpoint := all.find? fun e => decide (e.name = n)

def isReadable : Endpoint → Bool
  | .targets => false
  | _ => true

def isWritable : Endpoint → Bool
  | .enabled | .targets | .defaultDelay => true
  | _ => false

def request (l : Limits) (e : Endpoint) (input : Text) : Except Refusal Request :=
  match e with
  | .enabled =>
    match Decimal.signed Decimal.int32Max input.stripLineEnd with
    | .error _ => .error .invalidArgument
    | .ok n =>
      if n = 0 then .ok (.setEnabled false) else if n = 1 then .ok (.setEnabled true) else .error .invalidArgument
  | .defaultDelay => (l.readDelay input.stripLineEnd).map .setDefaultDelay
  | .targets => (Command.read l input).map .execute
  | .targetsList | .stats => .error .permissionDenied

end Endpoint

namespace Registry

def flag (b : Bool) : Text := if b then ['1'] else ['0']

def listText (l : List TargetInfo) : Text := l.flatMap fun i => i.text ++ ['\n']

def statsText (s : Stats) : Text :=
  "enabled: ".toList ++ flag s.enabled ++ "\ntargets: ".toList ++ Decimal.text s.targets ++
    "\ntotal_hits: ".toList ++ Decimal.text s.hits.toNat ++ "\ntotal_delay_ns: ".toList ++ Decimal.text s.delays.toNat ++
    ['\n']

def read (r : Registry) : Endpoint → Except Refusal Text
  | .enabled => .ok (flag r.panel.enabled ++ ['\n'])
  | .targets => .error .permissionDenied
  | .targetsList => .ok (listText r.list)
  | .stats => .ok (statsText r.stats)
  | .defaultDelay => .ok (Decimal.text r.panel.defaultDelay.toNat ++ ['\n'])

def readNamed (r : Registry) (name : Text) : Except Refusal Text :=
  match Endpoint.ofName? name with
  | none => .error .notFound
  | some e => r.read e

def requestNamed (r : Registry) (name input : Text) : Except Refusal Request :=
  match Endpoint.ofName? name with
  | none => .error .notFound
  | some e => e.request r.limits input

def carryOut (r : Registry) : Request → Outcome (Except Refusal Unit)
  | .setEnabled on => (r.setEnabled on).map .ok
  | .setDefaultDelay d => r.setDefaultDelay d
  | .execute c =>
    let o := r.execute c
    ⟨o.reply.map fun _ => (), o.after, .commanded c :: o.events⟩

def writeNamed (r : Registry) (name input : Text) : Outcome (Except Refusal Nat) :=
  match r.requestNamed name input with
  | .error e => ⟨.error e, r, []⟩
  | .ok q => (r.carryOut q).map (·.map fun _ => input.byteLength)

end Registry
end DelayProbe
