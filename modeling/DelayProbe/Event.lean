import DelayProbe.Command
import DelayProbe.Image.Resolve
import DelayProbe.Target
/-!
# Event — what a registry lets others know while it works

An event is either a request that reaches the backend or something worth a line in the log; `Event.line?` gives the line.
-/
namespace DelayProbe

inductive Level where
  | warn
  | info
  | debug
  | trace
  deriving DecidableEq, Repr

def Level.name : Level → Text
  | .warn => "WARN".toList
  | .info => "INFO".toList
  | .debug => "DEBUG".toList
  | .trace => "TRACE".toList

structure Line where
  level : Level
  body : Text
  deriving DecidableEq, Repr

def Line.text (l : Line) : Text := l.level.name ++ ' ' :: l.body

inductive Event where
  | opening (path : Text)
  | reading (path : Text)
  | attaching (target : Target)
  /-- A probe is about to go; a hit still under way would be told `verdict`. -/
  | detaching (handle : UInt64) (target : Target) (verdict : Verdict)
  | noSuchFile
  | fileVanished
  | armed (path : Text) (offset : Nat) (handle : UInt64)
  | disarmed (handle : UInt64)
  | searched (finding : Image.Finding)
  | unresolved (key : Key) (cause : Unresolved)
  | attachRefused (key : Key) (offset : Nat) (cause : Fault)
  | added (key : Key) (delay : UInt64) (pid : Option UInt32)
  | released (key : Key) (hits : UInt64)
  | removed (key : Key)
  | removedAll (count : Nat)
  | updated (key : Key) (delay : UInt64)
  | switched (on : Bool)
  | defaultDelay (delay : UInt64)
  | shutDown (count : Nat)
  | commanded (command : Command)
  | loaded (targets : Nat) (longestDelay : UInt64)
  | noClock
  | clockTaken
  deriving DecidableEq, Repr

namespace Event

/-- The opening of every line that the registry writes about itself. -/
def own (level : Level) (body : Text) : Option Line := some ⟨level, "speed_bump: ".toList ++ body⟩

/-- A fault the simulator raises itself, shown with its kind. -/
def raised (k : FaultKind) (what : String) : Option Line :=
  some ⟨.warn, '[' :: (Fault.kind k).text.toList ++ "] ".toList ++ what.toList⟩

def number (n : UInt64) : Text := Decimal.text n.toNat

def findingLine : Image.Finding → Option Line
  | .skipped i => own .trace ("skipping unreadable symbol table in section ".toList ++ Decimal.text i)
  | .undefined name => own .debug (name ++ " is undefined in this image".toList)
  | .placed name p =>
    own .debug ("resolved ".toList ++ name ++ " in ".toList ++ p.tableName.getD "<unnamed>".toList ++ " at vaddr=".toList ++
      Decimal.hexText p.vaddr ++ " offset=".toList ++ Decimal.hexText p.offset)

def line? : Event → Option Line
  | .opening _ | .reading _ | .attaching _ | .detaching _ _ _ => none
  | .noSuchFile => raised .notFound "sim: no such file"
  | .fileVanished => raised .notFound "sim: file vanished"
  | .armed path offset h =>
    some ⟨.trace, "sim: armed ".toList ++ path ++ '+' :: Decimal.hexText offset ++ " (id=".toList ++ number h ++ [')']⟩
  | .disarmed h => some ⟨.trace, "sim: disarmed id=".toList ++ number h⟩
  | .searched f => findingLine f
  | .unresolved key cause => own .debug ("cannot resolve ".toList ++ key.text ++ ": ".toList ++ cause.message)
  | .attachRefused key offset cause =>
    own .warn ("attach ".toList ++ key.text ++ " at ".toList ++ Decimal.hexText offset ++ " failed: ".toList ++
      cause.text.toList)
  | .added key delay pid =>
    own .info ("added target ".toList ++ key.text ++ " delay=".toList ++ number delay ++ " ns".toList ++
      TargetInfo.filterText pid)
  | .released key hits => own .trace ("detached ".toList ++ key.text ++ " (hits=".toList ++ number hits ++ [')'])
  | .removed key => own .info ("removed target ".toList ++ key.text)
  | .removedAll n => own .info ("removed all ".toList ++ Decimal.text n ++ " targets".toList)
  | .updated key delay =>
    own .info ("updated target ".toList ++ key.text ++ " delay=".toList ++ number delay ++ " ns".toList)
  | .switched on => own .info (if on then "enabled".toList else "disabled".toList)
  | .defaultDelay d => own .debug ("default delay set to ".toList ++ number d ++ " ns".toList)
  | .shutDown n => own .info ("shut down (".toList ++ Decimal.text n ++ " targets released)".toList)
  | .commanded c => own .trace ("control command ".toList ++ c.text)
  | .loaded n d =>
    own .info ("core loaded (max_targets=".toList ++ Decimal.text n ++ ", max_delay=".toList ++ number d ++ " ns)".toList)
  | .noClock => own .warn "no clock registered, delays use the mock clock".toList
  | .clockTaken => own .debug "clock already registered".toList

end Event
end DelayProbe
