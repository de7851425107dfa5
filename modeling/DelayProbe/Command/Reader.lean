import DelayProbe.Command
import DelayProbe.Limits
/-!
# Reader — commands from lines

Checks are made in one fixed order, and the first that fails gives the refusal: separator, length of the path, leading slash,
length of the symbol, `pid=`, delay, limit of the delay, first character of the symbol.  A symbol ends at the first space;
without one it ends before the line end.  Everything after `pid=` is the process number, up to the line end.
-/
namespace DelayProbe

namespace Spec

/-- A process number; 0 asks for no filter. -/
def readPid (t : Text) : Except Refusal (Option UInt32) :=
  match Decimal.signed Decimal.int32Max t.stripLineEnd with
  | .error f => .error (.ofDecimal f)
  | .ok n => if n < 0 then .error .invalidArgument else if n = 0 then .ok none else .ok (some (UInt32.ofNat n.toNat))

/-- What follows the symbol and a space.  The process number is read first, so its refusal wins over the delay's. -/
def readFields (l : Limits) (fields : Text) : Except Refusal (Option UInt64 × Option UInt32) :=
  match Text.cutAt pidWord fields with
  | none => (l.readDelay fields.stripLineEnd).map fun d => (some d, none)
  | some (before, after) =>
    match readPid after with
    | .error e => .error e
    | .ok pid =>
      let delay := before.trimEnd Text.isBlank
      if delay = [] then .ok (none, pid) else (l.readDelay delay).map fun d => (some d, pid)

/-- The symbol, and what follows it. -/
def readTail (l : Limits) (rest : Text) : Except Refusal (Text × Option UInt64 × Option UInt32) :=
  match rest.cut ' ' with
  | some (symbol, fields) =>
    match l.checkSymbol symbol with
    | .error e => .error e
    | .ok () => (readFields l fields).map fun f => (symbol, f)
  | none =>
    match l.checkSymbol rest.stripLineEnd with
    | .error e => .error e
    | .ok () => .ok (rest.stripLineEnd, none, none)

/-- A symbol starts with an ASCII letter or an underscore. -/
def startsSymbol (c : Char) : Bool := c == '_' || c.isAlpha

def read (l : Limits) (t : Text) : Except Refusal Spec :=
  match t.cut ':' with
  | none => .error .invalidArgument
  | some (path, rest) =>
    match l.checkPath path with
    | .error e => .error e
    | .ok () =>
      if path.head? ≠ some '/' then .error .invalidArgument
      else
        match readTail l rest with
        | .error e => .error e
        | .ok (symbol, delay, pid) =>
          if symbol.head?.any startsSymbol then .ok ⟨⟨path, symbol⟩, delay, pid⟩ else .error .invalidArgument

end Spec

namespace Command

/-- A star alone, or with a line feed right behind it, stands for every target. -/
def isStar (t : Text) : Bool := decide (t = ['*']) || ['*', '\n'].isPrefixOf t

/-- What follows a minus sign.  The path of a target to remove need not start with a slash. -/
def readRemove (l : Limits) (t : Text) : Except Refusal Command :=
  if isStar t then .ok .removeAll
  else
    match t.cut ':' with
    | none => .error .invalidArgument
    | some (path, rest) =>
      match l.checkPath path with
      | .error e => .error e
      | .ok () => (l.checkSymbol rest.stripLineEnd).map fun _ => .remove ⟨path, rest.stripLineEnd⟩

def read (l : Limits) (line : Text) : Except Refusal Command :=
  match line with
  | [] => .error .invalidArgument
  | op :: rest =>
    if l.lineBytes < line.byteLength then .error .invalidArgument
    else if op = '+' then (Spec.read l rest).map .add
    else if op = '-' then readRemove l rest
    else if op = '=' then (Spec.read l rest).map .update
    else .error .invalidArgument

end Command
end DelayProbe
