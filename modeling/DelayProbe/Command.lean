import DelayProbe.Key
import DelayProbe.Text.Decimal
/-!
# Command — one line that changes the set of targets

```
+PATH:SYMBOL [DELAY] [pid=PID]   add
=PATH:SYMBOL [DELAY] [pid=PID]   update
-PATH:SYMBOL                     remove
-*                               remove all
```

This module holds the commands and how they are written (`Command.text`); `DelayProbe.Command.Reader` reads them.
-/
namespace DelayProbe

/-- A target named, with what the command says about it. -/
structure Spec where
  key : Key
  delay : Option UInt64 := none
  pid : Option UInt32 := none
  deriving DecidableEq, Repr

inductive Command where
  | add (spec : Spec)
  | remove (key : Key)
  | removeAll
  | update (spec : Spec)
  deriving DecidableEq, Repr

def pidWord : Text := ['p', 'i', 'd', '=']

namespace Spec

def delayText : Option UInt64 → Text
  | none => []
  | some d => ' ' :: Decimal.text d.toNat

def pidText : Option UInt32 → Text
  | none => []
  | some p => ' ' :: (pidWord ++ Decimal.text p.toNat)

def text (s : Spec) : Text := s.key.text ++ delayText s.delay ++ pidText s.pid

end Spec

def Command.text : Command → Text
  | .add s => '+' :: s.text
  | .remove k => '-' :: k.text
  | .removeAll => ['-', '*']
  | .update s => '=' :: s.text

end DelayProbe
