import CircularLog.Command

/-! `Command::Parse` and `Command::Main`. `getopt_long` is taken to deliver the options in order and
then the operands that are left. -/
namespace CircularLog

inductive CommandMode
  | unspecified | read | stat | append
  deriving DecidableEq, Repr

/-- What `getopt_long` returns, with `optarg` where the option has one. The option string has no
`r`, so the mode of reading is not among them. -/
inductive Delivered
  | help
  | verbose
  | stat
  | append
  | size (optarg : Text)
  | invalid
  deriving DecidableEq, Repr

/-- The fields of class `Command`. -/
structure CommandLine extends Command where
  program : Text
  mode : CommandMode
  verbose : Bool

/-- The constructor, with the streams that the object is given. -/
def CommandLine.construct (stdin stdout stderr : Text) : CommandLine where
  path := []
  size := -1
  stdin := stdin
  stdout := stdout
  stderr := stderr
  program := []
  mode := .unspecified
  verbose := false

def CommandLine.say (c : CommandLine) (message : Text) : CommandLine :=
  { c with stderr := c.stderr ++ message ++ [newline] }

def isSpace (b : UInt8) : Bool := b == 32 || (9 ≤ b && b ≤ 13)

def isDigit (b : UInt8) : Bool := 48 ≤ b && b ≤ 57

/-- The number written in decimal digits. -/
def decimal (digits : Text) : ℕ := digits.foldl (fun n b => 10*n+(b.toNat-48)) 0

def eRange : ℕ := 34

/-- What `strtol` leaves behind: the value returned, `errno`, and the rest of the string. -/
structure Strtol where
  value : ℤ
  errno : ℕ
  units : Text

/-- A value of a 64-bit `long`, or the nearest one and an error. -/
def Strtol.ofInt (n : ℤ) (units : Text) : Strtol :=
  if 2^63 ≤ n then ⟨2^63-1, eRange, units⟩
  else if n < -2^63 then ⟨-2^63, eRange, units⟩
  else ⟨n, 0, units⟩

/-- `strtol(s, &units, 10)` with `errno` cleared before. Blanks and a sign may come first. A string
without digits is zero and is left whole. -/
def strtol (s : Text) : Strtol :=
  let blank := s.dropWhile isSpace
  let (negative, unsigned) := match blank with
    | 45 :: rest => (true, rest)
    | 43 :: rest => (false, rest)
    | _ => (false, blank)
  let digits := unsigned.takeWhile isDigit
  let n : ℤ := decimal digits
  if digits = [] then ⟨0, 0, s⟩
  else .ofInt (if negative then -n else n) (unsigned.dropWhile isDigit)

/-- The factor that a suffix stands for. -/
def unitFactor (units : Text) : Option ℤ :=
  if units = [] ∨ units = text "b" ∨ units = text "B" then some 1
  else if units = text "k" ∨ units = text "K" then some 1024
  else if units = text "m" ∨ units = text "M" then some (1024*1024)
  else if units = text "g" ∨ units = text "G" then some (1024*1024*1024)
  else none

/-- The value kept in a 64-bit `long`. Signed overflow is undefined; the product that the hardware
leaves is the one modelled. -/
def long (n : ℤ) : ℤ := n.bmod (2^64)

/-- What becomes of the loop over the options: it goes on, or `Parse` returns. -/
inductive Parsing
  | goesOn (c : CommandLine)
  | returns (ok : Bool) (c : CommandLine)

/-- The options that select a mode. -/
def CommandLine.setMode (c : CommandLine) (mode : CommandMode) : Parsing :=
  if c.mode ≠ .unspecified then
    .returns false (c.say (c.program ++ text ": cannot specify more than one mode option"))
  else .goesOn { c with mode := mode }

/-- The option `--size`. The range is checked before the units are looked at. -/
def CommandLine.setSize (c : CommandLine) (optarg : Text) : Parsing :=
  let parsed := strtol optarg
  let c : CommandLine := { c with size := parsed.value }
  if parsed.errno ≠ 0 ∨ c.size ≤ 0 then .returns false (c.say (c.program ++ text ": invalid size"))
  else match unitFactor parsed.units with
    | some factor => .goesOn { c with size := long (c.size*factor) }
    | none => .returns false (c.say (c.program ++ text ": invalid size"))

/-- One turn of the loop of `Parse`. -/
def CommandLine.parseOption (c : CommandLine) : Delivered → Parsing
  | .help => .returns true (c.say (text "usage: " ++ c.program ++ text " [-hvSas] [file]"))
  | .verbose => .goesOn { c with verbose := true }
  | .stat => c.setMode .stat
  | .append => c.setMode .append
  | .size optarg => c.setSize optarg
  | .invalid => .returns false (c.say (c.program ++ text ": invalid option"))

def CommandLine.parseOptions (c : CommandLine) : List Delivered → Parsing
  | [] => .goesOn c
  | option :: options =>
    match c.parseOption option with
    | .goesOn c => c.parseOptions options
    | .returns ok c => .returns ok c

/-- What `Parse` does behind its loop. -/
def CommandLine.parseOperands (c : CommandLine) (operands : List Text) : Bool × CommandLine :=
  let c : CommandLine := if c.mode = .unspecified then { c with mode := .read } else c
  match operands with
  | [] => (false, c.say (c.program ++ text ": missing file argument"))
  | [path] => (true, { c with path := path })
  | _ => (false, c.say (c.program ++ text ": too many file arguments"))

/-- `Command::Parse`. -/
def CommandLine.parse (c : CommandLine) (program : Text) (options : List Delivered)
    (operands : List Text) : Bool × CommandLine :=
  match ({ c with program := program } : CommandLine).parseOptions options with
  | .returns ok c => (ok, c)
  | .goesOn c => c.parseOperands operands

def decimalText (n : ℕ) : Text := text (toString n)

/-- The lines of `Command::Stat`. -/
def statReport (path : Text) (max used free : ℕ) : Text :=
  text "File: " ++ path ++ [newline] ++
  text "Size: " ++ decimalText max ++ text " bytes" ++ [newline] ++
  text "Used: " ++ decimalText used ++ text " bytes" ++ [newline] ++
  text "Free: " ++ decimalText free ++ text " bytes" ++ [newline]

section CommandLine
variable (strerror : Option ℕ → Text) (stringMaxSize : ℕ)

/-- `Command::Stat`. -/
def Command.stat (c : Command) (junk : Ringfile) (disk : Option File) (outcomes : ℕ → Outcome) :
    Finished :=
  match openFile junk.construct disk .read outcomes with
  | .fault f => .fault f
  | .failed self disk _ => .returned false (c.complain (text ": " ++ strerror self.error)) disk
  | .opened s =>
    match (do return (← bytesMax, ← bytesUsed, ← bytesAvailable) : Op (ℕ × ℕ × ℕ)) s with
    | .error f _ => .fault f
    | .ok (max, used, free) t =>
      .returned true { c with stdout := c.stdout ++ statReport c.path max used free } (some t.file)

/-- The switch of `Command::Main`: what `ok` is assigned from, or nothing where no case applies. -/
def CommandLine.dispatch (c : CommandLine) (junk : Ringfile) (disk : Text → Option File)
    (outcomes : ℕ → Outcome) (behind : ℕ → Buffer) (turns : ℕ) : Option Finished :=
  match c.mode with
  | .read => some (c.toCommand.read strerror stringMaxSize junk (disk c.path) outcomes turns)
  | .append => some (c.toCommand.write strerror junk (disk c.path) outcomes behind)
  | .stat => some (c.toCommand.stat strerror junk (disk c.path) outcomes)
  | .unspecified => none

/-- How the process ends. -/
inductive Exit
  | status (n : ℕ)
  | stopped (f : Fault)
  /-- `ok` was read without having been assigned -/
  | indeterminate

/-- `Command::Main`. -/
def CommandLine.main (c : CommandLine) (program : Text) (options : List Delivered)
    (operands : List Text) (junk : Ringfile) (disk : Text → Option File) (outcomes : ℕ → Outcome)
    (behind : ℕ → Buffer) (turns : ℕ) : Exit :=
  let (ok, c) := c.parse program options operands
  if !ok then .status 1
  else match c.dispatch strerror stringMaxSize junk disk outcomes behind turns with
    | none => .indeterminate
    | some (.fault f) => .stopped f
    | some (.returned ok _ _) => .status (if ok then 0 else 1)

end CommandLine

end CircularLog
