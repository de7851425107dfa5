import DelayProbe.Fault
import DelayProbe.Text.Decimal
/-!
# Refusal — why a request is turned down

`Unresolved` says why a symbol has no place in an image; `Refusal` says why a request was refused, and carries the cause where
another part of the system gave it.  Each refusal has a text for people (`Refusal.message`) and a system error number for
programs (`Refusal.errno`, negated in `Refusal.code`).  An image of the wrong format is not executable; any other failure to
place a symbol is a failed resolution (`Refusal.ofUnresolved`).
-/
namespace DelayProbe

inductive ImagePart where
  | identification
  | fileHeader
  | dataEncoding
  | sectionTable
  | segmentTable
  deriving DecidableEq, Repr

def ImagePart.name : ImagePart → String
  | .identification => "identification"
  | .fileHeader => "file header"
  | .dataEncoding => "data encoding"
  | .sectionTable => "section header table"
  | .segmentTable => "program header table"

/-- Why a symbol has no file offset in an image. -/
inductive Unresolved where
  | notElf
  | unsupportedClass
  | malformed (part : ImagePart)
  | symbolNotFound
  | notMapped (vaddr : Nat)
  deriving DecidableEq, Repr

namespace Unresolved

def message : Unresolved → Text
  | .notElf => "not an ELF image".toList
  | .unsupportedClass => "unsupported ELF class (only ELF64 is supported)".toList
  | .malformed part => "malformed ELF: ".toList ++ part.name.toList
  | .symbolNotFound => "symbol not found".toList
  | .notMapped vaddr => "symbol address ".toList ++ Decimal.hexText vaddr ++ " is not in any PT_LOAD segment".toList

/-- The image is of another format, so no symbol could be found in it. -/
def isFormatError : Unresolved → Bool
  | .notElf | .unsupportedClass => true
  | _ => false

end Unresolved

inductive Refusal where
  | invalidArgument
  | nameTooLong
  | outOfRange
  | notFound
  | alreadyExists
  | capacityExceeded
  | resolutionFailed (cause : Unresolved)
  | notExecutable (cause : Unresolved)
  | attachFailed (cause : Fault)
  | permissionDenied
  deriving DecidableEq, Repr

namespace Refusal

def ofUnresolved (u : Unresolved) : Refusal := if u.isFormatError then .notExecutable u else .resolutionFailed u

def ofDecimal : DecimalFault → Refusal
  | .invalid => .invalidArgument
  | .overflow => .outOfRange

def message : Refusal → Text
  | .invalidArgument => "invalid format".toList
  | .nameTooLong => "path or symbol name too long".toList
  | .outOfRange => "delay value out of range".toList
  | .notFound => "target not found".toList
  | .alreadyExists => "target already exists".toList
  | .capacityExceeded => "maximum target limit reached".toList
  | .resolutionFailed u => "symbol resolution failed: ".toList ++ u.message
  | .notExecutable u => "not a valid ELF file: ".toList ++ u.message
  | .attachFailed f => "attach failed: ".toList ++ f.text.toList
  | .permissionDenied => "permission denied".toList

def errno : Refusal → Errno
  | .invalidArgument => .invalid
  | .nameTooLong => .nameTooLong
  | .outOfRange => .range
  | .notFound | .resolutionFailed _ => .noEntry
  | .alreadyExists => .fileExists
  | .capacityExceeded => .noSpace
  | .notExecutable _ => .notExecutable
  | .attachFailed f => f.reported
  | .permissionDenied => .accessDenied

def code (e : Refusal) : Int := -(e.errno.number : Int)

end Refusal
end DelayProbe
