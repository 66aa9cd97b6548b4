import CircularLog.MachineWord
import CircularLog.ProgramLogic

/-! The file, the handle on it and the system calls. The header is reached through the shared
mapping and the data area through the descriptor, so the two are separate fields of a file: every
seek goes to position 24 or beyond and no `write` can touch the header. -/
namespace CircularLog

structure Header where
  magic : ℕ
  flags : ℕ
  startOffset : ℕ
  endOffset : ℕ
  deriving DecidableEq, Repr

/-- `sizeof(Header)`, which is packed. -/
def headerSize : ℕ := 24

/-- A file as every handle on it sees it. `data i` is the byte at file position `24+i`. -/
structure File where
  header : Header
  data : ℕ → UInt8
  length : ℕ

/-- Store `n` bytes at a file position, extending the file when they go past its end. -/
def File.store (f : File) (position : ℕ) (ptr : Buffer) (n : ℕ) : File :=
  { f with
    data := fun p => if position ≤ p+headerSize ∧ p+headerSize < position+n then
      ptr (p+headerSize-position) else f.data p
    length := if n = 0 then f.length else max f.length (position+n) }

inductive Mode
  | read | append
  deriving DecidableEq, Repr

/-- What `header_` points to: nothing, or the file's header with the protection asked for. -/
inductive Mapping
  | null | readOnly | readWrite
  deriving DecidableEq, Repr

/-- The fields of class `Ringfile`. In `fd` the value `none` is -1. In `error` the value `none` says
that `error_` was never assigned. -/
structure Ringfile where
  fd : Option Mode
  fdIsOwned : Bool
  error : Option ℕ
  size : ℕ
  header : Mapping
  readOffset : ℕ
  streamingWriteOffset : ℕ
  streamingWriteBytesRemaining : ℕ
  streamingReadOffset : ℕ
  streamingReadBytesRemaining : ℕ
  deriving DecidableEq, Repr

/-- The answer of the operating system to one call: it does all it is asked for, it stops after `n`
bytes, or it fails and sets `errno`. -/
inductive Outcome
  | done
  | short (n : ℕ)
  | fail (errno : ℕ)
  deriving DecidableEq, Repr

/-- What the process did to the file or asked of the system. An offset of the header is changed by
two stores, the first of which leaves it unreduced. -/
inductive Event
  | lseek
  | read
  | write (position n : ℕ)
  | advance
  | reduce
  deriving DecidableEq, Repr

/-- A step together with the file it leaves, which is what another process, or the next one after a
crash, finds there. -/
structure Step where
  event : Event
  file : File

/-- A running process: the object, the file it has open and the position of its descriptor, the
answers of the calls to come, and the steps taken so far, the latest first. -/
structure State where
  self : Ringfile
  file : File
  position : ℕ
  outcomes : ℕ → Outcome
  steps : List Step

/-- Ways in which a run stops without returning. -/
inductive Fault
  | assertion
  | nullPointer
  | protection
  | divisionByZero
  | noReturn
  | lengthError
  | outOfFuel
  deriving DecidableEq, Repr

abbrev Op := EStateM Fault State

/-- The state after a system call, which uses up one answer. -/
def State.called (s : State) (event : Event) (file : File) (position : ℕ) : State :=
  { s with
    file := file
    position := position
    outcomes := fun i => s.outcomes (i+1)
    steps := ⟨event, file⟩ :: s.steps }

/-- The state after an assignment through the mapping. -/
def State.assigned (s : State) (event : Event) (file : File) : State :=
  { s with file := file, steps := ⟨event, file⟩ :: s.steps }

def eBadF : ℕ := 9
def eInval : ℕ := 22
def eNoEnt : ℕ := 2
def eExist : ℕ := 17

/-- `lseek(fd_, position, SEEK_SET)`, with the `errno` of a failed call. An `off_t` is signed, so a
position from `2^63` on is negative. -/
def lseek (position : ℕ) : Op (Option ℕ) := modifyGet fun s =>
  let called := s.called .lseek s.file
  match s.self.fd, s.outcomes 0 with
  -- a descriptor of -1
  | none, _ => (some eBadF, called s.position)
  | some _, .fail errno => (some errno, called s.position)
  | some _, _ =>
    if 2^63 ≤ position then (some eInval, called s.position) else (none, called position)

/-- How much of `count` bytes a call transfers. A count above the largest `ssize_t` is refused,
whatever the file. -/
def Outcome.transferred (outcome : Outcome) (count : ℕ) : Option ℕ :=
  if 2^63 ≤ count then none
  else match outcome with
    | .done => some count
    | .short n => some (min n count)
    | .fail _ => none

/-- `read(fd_, ptr+at_, count)`: the value returned, as `size_t`, and the buffer. -/
def sysRead (ptr : Buffer) (at_ count : ℕ) : Op (ℕ × Buffer) := modifyGet fun s =>
  match s.self.fd, (s.outcomes 0).transferred count with
  | none, _ => ((minusOne, ptr), s.called .read s.file s.position)
  | some _, none => ((minusOne, ptr), s.called .read s.file s.position)
  | some _, some n =>
    -- no byte is read behind the end of the file
    let n := min n (s.file.length-s.position)
    ((n, fun i =>
        if at_ ≤ i ∧ i < at_+n then s.file.data (s.position+(i-at_)-headerSize) else ptr i),
      s.called .read s.file (s.position+n))

/-- `write(fd_, ptr+at_, count)`: the value returned, as `size_t`. -/
def sysWrite (ptr : Buffer) (at_ count : ℕ) : Op ℕ := modifyGet fun s =>
  match s.self.fd, (s.outcomes 0).transferred count with
  | some .append, some n =>
    -- the last position must not be negative as an `off_t` either
    if 2^63 ≤ s.position+count then (minusOne, s.called (.write s.position 0) s.file s.position)
    else (n, s.called (.write s.position n) (s.file.store s.position (fun i => ptr (at_+i)) n)
      (s.position+n))
  -- a descriptor opened for reading, or a call that fails
  | _, _ => (minusOne, s.called (.write s.position 0) s.file s.position)

def assert (c : Prop) [Decidable c] : Op Unit := if c then pure () else throw .assertion

/-- The `%` operator. -/
def modulo (a b : ℕ) : Op ℕ := if b = 0 then throw .divisionByZero else pure (a%b)

/-- The header, read through `header_`. -/
def mappedHeader : Op Header := do
  let s ← get
  if s.self.header = .null then throw .nullPointer else pure s.file.header

/-- One assignment to a field of `*header_`. -/
def storeHeader (event : Event) (h : Header) : Op Unit := do
  let s ← get
  match s.self.header with
  | .null => throw .nullPointer
  | .readOnly => throw .protection
  | .readWrite => modify fun s => s.assigned event { s.file with header := h }

/-- A result that exists, where the source would run off the end of a function. -/
def reached (x : Option α) : Op α :=
  match x with
  | some a => pure a
  | none => throw .noReturn

/-- `bytes_max()`. -/
def Ringfile.bytesMax (r : Ringfile) : ℕ := sub64 r.size headerSize

def bytesMax : Op ℕ := do
  return (← get).self.bytesMax

end CircularLog
