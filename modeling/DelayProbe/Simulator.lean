import DelayProbe.Fault
import DelayProbe.Image.Bytes
import DelayProbe.Table
import DelayProbe.Text
/-!
# Simulator — program files, processes and armed probes, all in memory

Armed probes are kept by number and fire in the order of their numbers, which is the order in which they were armed.  One
fault can be prepared for the next probe to be armed.  A process descends from those reached by following parents; the table
of parents bounds the climb, so a loop in it ends (`Simulator.climb`).
-/
namespace DelayProbe

structure Probe where
  path : Text
  offset : Nat
  deriving DecidableEq, Repr

structure Simulator where
  files : Table Text Image := []
  parents : Table UInt32 UInt32 := []
  armed : Table UInt64 Probe := []
  nextId : UInt64 := 1
  failNext : Option Fault := none
  deriving DecidableEq, Repr

namespace Simulator

def file? (s : Simulator) (path : Text) : Option Image := s.files.get? path

def insertFile (s : Simulator) (path : Text) (im : Image) : Simulator := { s with files := s.files.insert path im }
def removeFile (s : Simulator) (path : Text) : Simulator := { s with files := s.files.erase path }
def setParent (s : Simulator) (pid parent : UInt32) : Simulator := { s with parents := s.parents.insert pid parent }
def failNextArm (s : Simulator) (f : Fault) : Simulator := { s with failNext := some f }

/-- Arms a probe and gives its number, unless a fault was prepared, which is then used up. -/
def arm (s : Simulator) (probe : Probe) : Except Fault UInt64 × Simulator :=
  match s.failNext with
  | some f => (.error f, { s with failNext := none })
  | none => (.ok s.nextId, { s with armed := s.armed.insert s.nextId probe, nextId := s.nextId + 1 })

def disarm (s : Simulator) (id : UInt64) : Simulator := { s with armed := s.armed.erase id }

/-- The numbers of the probes at a place, least first. -/
def armedAt (s : Simulator) (probe : Probe) : List UInt64 :=
  (s.armed.filter fun e => decide (e.2 = probe)).map (·.1)

def isArmed (s : Simulator) (probe : Probe) : Bool := s.armed.any fun e => decide (e.2 = probe)

/-- Whether `ancestor` is met among the first `n` processes from `pid` upward.  A process that is its own parent is a
root. -/
def climb (parents : Table UInt32 UInt32) (ancestor : UInt32) : Nat → UInt32 → Bool
  | 0, _ => false
  | n + 1, pid =>
    if pid = ancestor then true
    else
      match parents.get? pid with
      | none => false
      | some parent => if parent = pid then false else climb parents ancestor n parent

/-- Whether a process is another one or descends from it.  A climb without repetition meets every process in the table and
one more at most. -/
def descends (s : Simulator) (pid ancestor : UInt32) : Bool := climb s.parents ancestor (s.parents.length + 1) pid

end Simulator
end DelayProbe
