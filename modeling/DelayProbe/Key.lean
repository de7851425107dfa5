import DelayProbe.Text
/-!
# Key — what a target is called: a program file and a symbol in it

Keys are written `path:symbol` and ordered by path, then symbol.  `Key.inOrder` lists distinct keys in that order.
Pattern `path:symbol` stands for the key itself; a path pattern that ends in `*` stands for every path that starts with what
is before the star (`Pattern.covers`).  A symbol is never a pattern.
-/
namespace DelayProbe

structure Key where
  path : Text
  symbol : Text
  deriving DecidableEq, Repr

namespace Key

def text (k : Key) : Text := k.path ++ ':' :: k.symbol

/-- Path first, then symbol.  The order of code points is the order of UTF-8 bytes. -/
def le (a b : Key) : Bool := decide (a.path < b.path) || (decide (a.path = b.path) && !decide (b.symbol < a.symbol))

def inOrder (ks : List Key) : List Key := (ks.mergeSort le).eraseReps

end Key

inductive PathPattern where
  | only (path : Text)
  | startingWith (head : Text)
  deriving DecidableEq, Repr

namespace PathPattern

/-- A star at the end, and only there, stands for any ending. -/
def ofText (t : Text) : PathPattern := if t.getLast? = some '*' then .startingWith t.dropLast else .only t

def covers : PathPattern → Text → Bool
  | .only p, path => decide (path = p)
  | .startingWith h, path => h.isPrefixOf path

end PathPattern

structure Pattern where
  path : PathPattern
  symbol : Text
  deriving DecidableEq, Repr

namespace Pattern

/-- The part before the first colon is the path pattern.  A text without a colon is no pattern. -/
def ofText? (t : Text) : Option Pattern := (t.cut ':').map fun p => ⟨.ofText p.1, p.2⟩

def covers (p : Pattern) (k : Key) : Bool := decide (p.symbol = k.symbol) && p.path.covers k.path

end Pattern

/-- Whether a key is among those that a pattern text stands for. -/
def Key.matches (k : Key) (pattern : Text) : Bool := (Pattern.ofText? pattern).any (·.covers k)

end DelayProbe
