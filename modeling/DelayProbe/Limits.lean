import DelayProbe.Refusal
/-!
# Limits — how much a registry takes

Lengths count UTF-8 bytes.  A path or symbol must be shorter than its limit; a line or a delay may be as large as its
limit.  `Limits.check` refuses limits under which nothing could be registered.
-/
namespace DelayProbe

structure Limits where
  targets : Nat := 64
  pathBytes : Nat := 256
  symbolBytes : Nat := 128
  lineBytes : Nat := 512
  longestDelay : UInt64 := 10000000000
  defaultDelay : UInt64 := 1000000
  deriving DecidableEq, Repr

namespace Limits

/-- Limits that leave room for a one-character name, and a default delay within the longest. -/
def check (l : Limits) : Except Refusal Unit :=
  if l.targets = 0 ∨ l.pathBytes < 2 ∨ l.symbolBytes < 2 ∨ l.lineBytes = 0 then .error .invalidArgument
  else if l.longestDelay < l.defaultDelay then .error .outOfRange
  else .ok ()

def checkPath (l : Limits) (path : Text) : Except Refusal Unit :=
  if path = [] ∨ l.pathBytes ≤ path.byteLength then .error .nameTooLong else .ok ()

def checkSymbol (l : Limits) (symbol : Text) : Except Refusal Unit :=
  if symbol = [] ∨ l.symbolBytes ≤ symbol.byteLength then .error .nameTooLong else .ok ()

def checkDelay (l : Limits) (delay : UInt64) : Except Refusal Unit :=
  if l.longestDelay < delay then .error .outOfRange else .ok ()

/-- A delay written out: 64 bits decide what can be read at all, the limit what is allowed. -/
def readDelay (l : Limits) (text : Text) : Except Refusal UInt64 :=
  match Decimal.unsigned Decimal.word64Max text with
  | .error f => .error (.ofDecimal f)
  | .ok n => (l.checkDelay (UInt64.ofNat n)).map fun _ => UInt64.ofNat n

end Limits
end DelayProbe
