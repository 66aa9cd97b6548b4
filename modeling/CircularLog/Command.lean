import CircularLog.ReadBack

/-! The command line tool: `Command::Read` and `Command::Write`. Standard input and the two output
streams are byte strings. -/
namespace CircularLog

abbrev Text := List UInt8

def newline : UInt8 := 10

def text (s : String) : Text := s.toUTF8.data.toList

/-- The lines `std::getline` delivers. What follows the last newline is a line unless it is
empty. -/
def getLines : Text → List Text
  | [] => []
  | b :: rest =>
    -- a line that is blank is delivered as such
    if b = newline then [] :: getLines rest
    else match getLines rest with
      | [] => [[b]]
      | line :: lines => (b :: line) :: lines

/-- Lines as they are printed, each followed by a newline. -/
def printed (lines : List Text) : Text := lines.flatMap (fun line => line ++ [newline])

structure Command where
  path : Text
  size : ℤ
  stdin : Text
  stdout : Text
  stderr : Text

/-- How a command ends: it returns, or the process stops. `disk` is what the path names then. -/
inductive Finished
  | returned (ok : Bool) (c : Command) (disk : Option File)
  | fault (f : Fault)

def Finished.ok : Finished → Option Bool
  | .returned ok _ _ => some ok
  | .fault _ => none

def Command.complain (c : Command) (message : Text) : Command :=
  { c with stderr := c.stderr ++ c.path ++ message ++ [newline] }

section Command
variable (strerror : Option ℕ → Text) (stringMaxSize : ℕ)

/-- `Command::Read`, with a bound on the turns of its loop. -/
def Command.read (c : Command) (junk : Ringfile) (disk : Option File) (outcomes : ℕ → Outcome)
    (turns : ℕ) : Finished :=
  match openFile junk.construct disk .read outcomes with
  | .fault f => .fault f
  | .failed self disk _ => .returned false (c.complain (text ": " ++ strerror self.error)) disk
  | .opened s =>
    match readLoop stringMaxSize turns s with
    -- an uncaught exception or an assertion
    | .error f _ => .fault f
    | .ok (records, ok) t =>
      let c := { c with stdout := c.stdout ++ printed records }
      if ok then .returned true c (some t.file)
      else .returned false (c.complain (text ": " ++ strerror t.self.error)) (some t.file)

/-- The loop of `Command::Write`. A line's `c_str()` ends with a zero byte; `behind` is the memory
after it. -/
def writeLines (behind : ℕ → Buffer) : List Text → Op Bool
  | [] => return true
  | line :: lines => do
    if !(← write (memory (line ++ [0]) (behind lines.length)) line.length) then
      return false
    writeLines behind lines

/-- `Command::Write` once the file is open. -/
def Command.append (c : Command) (behind : ℕ → Buffer) (s : State) : Finished :=
  match writeLines behind (getLines c.stdin) s with
  | .error f _ => .fault f
  | .ok true t => .returned true c (some t.file)
  | .ok false t =>
    .returned false (c.complain (text ": writing: " ++ strerror t.self.error)) (some t.file)

/-- `Command::Write`. -/
def Command.write (c : Command) (junk : Ringfile) (disk : Option File) (outcomes : ℕ → Outcome)
    (behind : ℕ → Buffer) : Finished :=
  match openFile junk.construct disk .append outcomes with
  | .fault f => .fault f
  | .opened s => c.append strerror behind s
  | .failed self disk outcomes =>
    if self.error ≠ some eNoEnt then
      .returned false (c.complain (text ": cannot open: " ++ strerror self.error)) disk
    else if c.size = -1 then
      .returned false (c.complain (text ": does not exist and --size was not specified")) disk
    -- the size is converted to `size_t`, and the same object is used again
    else match create self disk (c.size%2^64).toNat outcomes with
      | .fault f => .fault f
      | .failed self disk _ =>
        .returned false (c.complain (text ": cannot create: " ++ strerror self.error)) disk
      | .opened s => c.append strerror behind s

/-- A path that names no file gets a ring of the given size. -/
theorem Command.write_create {c : Command} {junk self : Ringfile} {disk disk' : Option File}
    {outcomes later : ℕ → Outcome} {s : State} (behind : ℕ → Buffer)
    (hopen : openFile junk.construct disk .append outcomes = .failed self disk' later)
    (hnone : self.error = some eNoEnt) (hsize : c.size ≠ -1)
    (hcreate : create self disk' (c.size%2^64).toNat later = .opened s) :
    c.write strerror junk disk outcomes behind = c.append strerror behind s := by
  rw [Command.write, hopen]
  dsimp only
  rw [if_neg (fun h => h hnone), if_neg hsize, hcreate]

end Command

theorem getLines_append (line rest : Text) (h : newline ∉ line) :
    getLines (line ++ newline :: rest) = line :: getLines rest := by
  induction line with
  | nil => rfl
  | cons b line ih =>
    rw [List.mem_cons, not_or] at h
    rw [List.cons_append, getLines, if_neg (fun hb => h.1 hb.symm), ih h.2]

theorem getLines_printed (lines : List Text) (h : ∀ line ∈ lines, newline ∉ line) :
    getLines (printed lines) = lines := by
  induction lines with
  | nil => rfl
  | cons line lines ih =>
    have hsplit : printed (line :: lines) = line ++ newline :: printed lines := by
      simp [printed]
    rw [hsplit, getLines_append line _ (h line List.mem_cons_self),
      ih (fun l hl => h l (List.mem_cons_of_mem _ hl))]

end CircularLog
