/-!
# Fault — what a probe backend reports when it cannot serve a request

A fault is one of a closed list of kinds (`FaultKind`), numbered from 1 in the order of `FaultKind.all`, or a system error
number (`Errno`).  On the wire a kind is its number and a system error number is negated (`Fault.ofCode?`), so the two never
meet: `FaultKind.notFound` and `Errno.noEntry` are different faults.
-/
namespace DelayProbe

inductive FaultKind where
  | addrInUse
  | alreadyConnected
  | alreadyExists
  | argumentListTooLong
  | badAddress
  | badFileDescriptor
  | badState
  | brokenPipe
  | connectionRefused
  | connectionReset
  | crossesDevices
  | directoryNotEmpty
  | filesystemLoop
  | illegalBytes
  | inProgress
  | interrupted
  | invalidData
  | invalidExecutable
  | invalidInput
  | io
  | isADirectory
  | nameTooLong
  | noMemory
  | noSuchDevice
  | noSuchProcess
  | notADirectory
  | notASocket
  | notATty
  | notConnected
  | notFound
  | operationNotPermitted
  | operationNotSupported
  | outOfRange
  | permissionDenied
  | readOnlyFilesystem
  | resourceBusy
  | storageFull
  | timedOut
  | tooManyOpenFiles
  | unexpectedEof
  | unsupported
  | wouldBlock
  | writeZero
  deriving DecidableEq, Repr

namespace FaultKind

/-- Every kind, the kind numbered 1 first. -/
def all : List FaultKind :=
    [.addrInUse, .alreadyConnected, .alreadyExists, .argumentListTooLong, .badAddress, .badFileDescriptor,
   .badState, .brokenPipe, .connectionRefused, .connectionReset, .crossesDevices, .directoryNotEmpty,
   .filesystemLoop, .illegalBytes, .inProgress, .interrupted, .invalidData, .invalidExecutable, .invalidInput, .io,
   .isADirectory, .nameTooLong, .noMemory, .noSuchDevice, .noSuchProcess, .notADirectory, .notASocket, .notATty,
   .notConnected, .notFound, .operationNotPermitted, .operationNotSupported, .outOfRange, .permissionDenied,
   .readOnlyFilesystem, .resourceBusy, .storageFull, .timedOut, .tooManyOpenFiles, .unexpectedEof, .unsupported,
   .wouldBlock, .writeZero]

def name : FaultKind → String
  | .addrInUse => "AddrInUse"
  | .alreadyConnected => "AlreadyConnected"
  | .alreadyExists => "AlreadyExists"
  | .argumentListTooLong => "ArgumentListTooLong"
  | .badAddress => "BadAddress"
  | .badFileDescriptor => "BadFileDescriptor"
  | .badState => "BadState"
  | .brokenPipe => "BrokenPipe"
  | .connectionRefused => "ConnectionRefused"
  | .connectionReset => "ConnectionReset"
  | .crossesDevices => "CrossesDevices"
  | .directoryNotEmpty => "DirectoryNotEmpty"
  | .filesystemLoop => "FilesystemLoop"
  | .illegalBytes => "IllegalBytes"
  | .inProgress => "InProgress"
  | .interrupted => "Interrupted"
  | .invalidData => "InvalidData"
  | .invalidExecutable => "InvalidExecutable"
  | .invalidInput => "InvalidInput"
  | .io => "Io"
  | .isADirectory => "IsADirectory"
  | .nameTooLong => "NameTooLong"
  | .noMemory => "NoMemory"
  | .noSuchDevice => "NoSuchDevice"
  | .noSuchProcess => "NoSuchProcess"
  | .notADirectory => "NotADirectory"
  | .notASocket => "NotASocket"
  | .notATty => "NotATty"
  | .notConnected => "NotConnected"
  | .notFound => "NotFound"
  | .operationNotPermitted => "OperationNotPermitted"
  | .operationNotSupported => "OperationNotSupported"
  | .outOfRange => "OutOfRange"
  | .permissionDenied => "PermissionDenied"
  | .readOnlyFilesystem => "ReadOnlyFilesystem"
  | .resourceBusy => "ResourceBusy"
  | .storageFull => "StorageFull"
  | .timedOut => "TimedOut"
  | .tooManyOpenFiles => "TooManyOpenFiles"
  | .unexpectedEof => "UnexpectedEof"
  | .unsupported => "Unsupported"
  | .wouldBlock => "WouldBlock"
  | .writeZero => "WriteZero"

end FaultKind

structure Errno where
  number : Nat
  deriving DecidableEq, Repr

namespace Errno

def noEntry : Errno := ⟨2⟩
def io : Errno := ⟨5⟩
def notExecutable : Errno := ⟨8⟩
def noMemory : Errno := ⟨12⟩
def accessDenied : Errno := ⟨13⟩
def busy : Errno := ⟨16⟩
def fileExists : Errno := ⟨17⟩
def invalid : Errno := ⟨22⟩
def noSpace : Errno := ⟨28⟩
def range : Errno := ⟨34⟩
def nameTooLong : Errno := ⟨36⟩
def noSystemCall : Errno := ⟨38⟩

/-- The numbers that have a name; 41 and 58 have none. -/
def names : List (Nat × String) :=
  [(1, "EPERM"), (2, "ENOENT"), (3, "ESRCH"), (4, "EINTR"), (5, "EIO"), (6, "ENXIO"), (7, "E2BIG"), (8, "ENOEXEC"),
   (9, "EBADF"), (10, "ECHILD"), (11, "EAGAIN"), (12, "ENOMEM"), (13, "EACCES"), (14, "EFAULT"), (15, "ENOTBLK"),
   (16, "EBUSY"), (17, "EEXIST"), (18, "EXDEV"), (19, "ENODEV"), (20, "ENOTDIR"), (21, "EISDIR"), (22, "EINVAL"),
   (23, "ENFILE"), (24, "EMFILE"), (25, "ENOTTY"), (26, "ETXTBSY"), (27, "EFBIG"), (28, "ENOSPC"), (29, "ESPIPE"),
   (30, "EROFS"), (31, "EMLINK"), (32, "EPIPE"), (33, "EDOM"), (34, "ERANGE"), (35, "EDEADLK"),
   (36, "ENAMETOOLONG"), (37, "ENOLCK"), (38, "ENOSYS"), (39, "ENOTEMPTY"), (40, "ELOOP"), (42, "ENOMSG"),
   (43, "EIDRM"), (44, "ECHRNG"), (45, "EL2NSYNC"), (46, "EL3HLT"), (47, "EL3RST"), (48, "ELNRNG"), (49, "EUNATCH"),
   (50, "ENOCSI"), (51, "EL2HLT"), (52, "EBADE"), (53, "EBADR"), (54, "EXFULL"), (55, "ENOANO"), (56, "EBADRQC"),
   (57, "EBADSLT"), (59, "EBFONT"), (60, "ENOSTR"), (61, "ENODATA"), (62, "ETIME"), (63, "ENOSR"), (64, "ENONET"),
   (65, "ENOPKG"), (66, "EREMOTE"), (67, "ENOLINK"), (68, "EADV"), (69, "ESRMNT"), (70, "ECOMM"), (71, "EPROTO"),
   (72, "EMULTIHOP"), (73, "EDOTDOT"), (74, "EBADMSG"), (75, "EOVERFLOW"), (76, "ENOTUNIQ"), (77, "EBADFD"),
   (78, "EREMCHG"), (79, "ELIBACC"), (80, "ELIBBAD"), (81, "ELIBSCN"), (82, "ELIBMAX"), (83, "ELIBEXEC"),
   (84, "EILSEQ"), (85, "ERESTART"), (86, "ESTRPIPE"), (87, "EUSERS"), (88, "ENOTSOCK"), (89, "EDESTADDRREQ"),
   (90, "EMSGSIZE"), (91, "EPROTOTYPE"), (92, "ENOPROTOOPT"), (93, "EPROTONOSUPPORT"), (94, "ESOCKTNOSUPPORT"),
   (95, "EOPNOTSUPP"), (96, "EPFNOSUPPORT"), (97, "EAFNOSUPPORT"), (98, "EADDRINUSE"), (99, "EADDRNOTAVAIL"),
   (100, "ENETDOWN"), (101, "ENETUNREACH"), (102, "ENETRESET"), (103, "ECONNABORTED"), (104, "ECONNRESET"),
   (105, "ENOBUFS"), (106, "EISCONN"), (107, "ENOTCONN"), (108, "ESHUTDOWN"), (109, "ETOOMANYREFS"),
   (110, "ETIMEDOUT"), (111, "ECONNREFUSED"), (112, "EHOSTDOWN"), (113, "EHOSTUNREACH"), (114, "EALREADY"),
   (115, "EINPROGRESS"), (116, "ESTALE"), (117, "EUCLEAN"), (118, "ENOTNAM"), (119, "ENAVAIL"), (120, "EISNAM"),
   (121, "EREMOTEIO"), (122, "EDQUOT"), (123, "ENOMEDIUM"), (124, "EMEDIUMTYPE"), (125, "ECANCELED"),
   (126, "ENOKEY"), (127, "EKEYEXPIRED"), (128, "EKEYREVOKED"), (129, "EKEYREJECTED"), (130, "EOWNERDEAD"),
   (131, "ENOTRECOVERABLE"), (132, "ERFKILL"), (133, "EHWPOISON")]

def name? (e : Errno) : Option String := names.lookup e.number

/-- The name, empty for a number without one. -/
def name (e : Errno) : String := e.name?.getD ""

end Errno

inductive Fault where
  | kind (k : FaultKind)
  | errno (e : Errno)
  deriving DecidableEq, Repr

namespace Fault

def ofCode? : Int → Option Fault
  | .ofNat 0 => none
  | .ofNat (n + 1) => FaultKind.all[n]?.map .kind
  | .negSucc n => if (Errno.name? ⟨n + 1⟩).isSome then some (.errno ⟨n + 1⟩) else none

def text : Fault → String
  | .kind k => "AxErrorKind::" ++ k.name
  | .errno e => "LinuxError::" ++ e.name

/-- The system error number a caller gets for a fault.  Kinds without a number of their own, and faults that carry a
number, count as input/output errors. -/
def reported : Fault → Errno
  | .kind .notFound => .noEntry
  | .kind .permissionDenied => .accessDenied
  | .kind .invalidInput => .invalid
  | .kind .invalidData => .notExecutable
  | .kind .noMemory => .noMemory
  | .kind .resourceBusy => .busy
  | .kind .alreadyExists => .fileExists
  | .kind .unsupported => .noSystemCall
  | _ => .io

end Fault
end DelayProbe
