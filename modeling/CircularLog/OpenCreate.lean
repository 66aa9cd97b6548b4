import CircularLog.RingfileOps

/-! `Create` and `Open`. The path names a file or nothing; what the constructor leaves alone is
whatever the memory held before. -/
namespace CircularLog

/-- `'GNIR'`, which is stored as the bytes `RING`. -/
def kMagic : ℕ := 0x474e4952

/-- An object's memory before it is constructed, when it holds zeros. -/
def blank : Ringfile := ⟨none, false, none, 0, .null, 0, 0, 0, 0, 0⟩

/-- The constructor of `Ringfile` in memory that held `junk`. -/
def Ringfile.construct (junk : Ringfile) : Ringfile :=
  { junk with
    fd := none
    fdIsOwned := false
    error := none
    header := .null
    streamingReadOffset := 0
    streamingWriteOffset := 0 }

/-- How a call of `Create` or `Open` ends: it returns true and the process goes on with the file
open, it returns false and leaves the path and the answers to come as given, or it stops. -/
inductive Opening
  | opened (s : State)
  | failed (self : Ringfile) (path : Option File) (outcomes : ℕ → Outcome)
  | fault (f : Fault)

/-- The answers left after `n` calls. -/
def later (outcomes : ℕ → Outcome) (n : ℕ) : ℕ → Outcome := fun i => outcomes (i+n)

/-- A file as `open` with `O_CREAT` and `ftruncate` leave it: `length` bytes, all zero. -/
def File.zeros (length : ℕ) : File := ⟨⟨0, 0, 0, 0⟩, fun _ => 0, length⟩

/-- `Create`. The calls are `open`, `ftruncate` and `mmap`. A failed `mmap` returns a pointer that
is not null, and the page behind an empty file cannot be touched. -/
def create (self : Ringfile) (path : Option File) (size : ℕ) (outcomes : ℕ → Outcome) : Opening :=
  match path, outcomes 0 with
  -- `O_EXCL` refuses a path that names a file
  | some f, _ => .failed { self with fd := none, error := some eExist } (some f) (later outcomes 1)
  | none, .fail errno =>
    .failed { self with fd := none, error := some errno } none (later outcomes 1)
  | none, _ =>
    let self := { self with fd := some .append, fdIsOwned := true }
    match outcomes 1 with
    | .fail errno => .failed { self with error := some errno } (some (.zeros 0)) (later outcomes 2)
    | _ =>
      -- a negative length
      if 2^63 ≤ size then
        .failed { self with error := some eInval } (some (.zeros 0)) (later outcomes 2)
      else match outcomes 2 with
        -- `MAP_FAILED` passes the test for a null pointer, and the store to `magic` stops the run
        | .fail _ => .fault .protection
        | _ =>
          if size = 0 then .fault .protection
          else .opened {
            self := { self with size := size, header := .readWrite }
            file := { File.zeros size with header := ⟨kMagic, 0, 0, 0⟩ }
            position := 0
            outcomes := later outcomes 3
            steps := [] }

/-- The process after a successful `Open`. -/
def openedState (self : Ringfile) (f : File) (mode : Mode) (outcomes : ℕ → Outcome) : State where
  self := { self with
    fd := some mode
    fdIsOwned := true
    size := f.length
    header := match mode with
      | .read => .readOnly
      | .append => .readWrite
    readOffset := f.header.startOffset }
  file := f
  position := 0
  outcomes := later outcomes 3
  steps := []

/-- `Open`. The calls are `open`, `fstat` and `mmap`. -/
def openFile (self : Ringfile) (path : Option File) (mode : Mode) (outcomes : ℕ → Outcome) :
    Opening :=
  match path, outcomes 0 with
  | path, .fail errno =>
    .failed { self with fd := none, error := some errno } path (later outcomes 1)
  | none, _ => .failed { self with fd := none, error := some eNoEnt } none (later outcomes 1)
  | some f, _ =>
    let self := { self with fd := some mode, fdIsOwned := true }
    match outcomes 1 with
    | .fail errno => .failed { self with error := some errno } (some f) (later outcomes 2)
    | _ =>
      match outcomes 2 with
      -- likewise, when `magic` is read
      | .fail _ => .fault .protection
      | _ =>
        if f.length = 0 then .fault .protection
        else if f.header.magic ≠ kMagic then
          -- `Close` before the error is set
          .failed { self with fd := none, size := f.length, header := .null, error := some eInval }
            (some f) (later outcomes 3)
        else .opened (openedState self f mode outcomes)

/-- Every call does all it is asked for. -/
def allDone : ℕ → Outcome := fun _ => .done

theorem openFile_eq (self : Ringfile) {f : File} (mode : Mode) {outcomes : ℕ → Outcome}
    (ho : ∀ i, outcomes i = .done) (hlen : f.length ≠ 0) (hm : f.header.magic = kMagic) :
    openFile self (some f) mode outcomes = .opened (openedState self f mode outcomes) := by
  simp only [openFile, ho]
  rw [if_neg hlen, if_neg (by simp [hm])]
  rfl

/-- The process after a successful `Create`. -/
def createdState (self : Ringfile) (size : ℕ) (outcomes : ℕ → Outcome) : State where
  self := { self with
    fd := some .append
    fdIsOwned := true
    size := size
    header := .readWrite }
  file := { File.zeros size with header := ⟨kMagic, 0, 0, 0⟩ }
  position := 0
  outcomes := later outcomes 3
  steps := []

/-- `Create` accepts every size that `ftruncate` does but zero. -/
theorem create_opened {self : Ringfile} {size : ℕ} {outcomes : ℕ → Outcome} {s : State}
    (h : create self none size outcomes = .opened s) :
    0 < size ∧ size < 2^63 ∧ s = createdState self size outcomes := by
  unfold create at h
  -- each of the three calls that fails ends otherwise
  cases h0 : outcomes 0 <;> cases h1 : outcomes 1 <;> simp only [h0, h1] at h <;> try cases h
  all_goals
    by_cases hlarge : 2^63 ≤ size
    · rw [if_pos hlarge] at h
      cases h
    rw [if_neg hlarge] at h
    cases h2 : outcomes 2 <;> simp only [h2] at h <;> try cases h
    all_goals
      by_cases hz : size = 0
      · rw [if_pos hz] at h
        cases h
      rw [if_neg hz] at h
      cases h
      exact ⟨by omega, by omega, rfl⟩

theorem create_allDone (self : Ringfile) {size : ℕ} (hpos : 0 < size) (hsize : size < 2^63) :
    create self none size allDone = .opened (createdState self size allDone) := by
  unfold create
  dsimp only [allDone]
  rw [if_neg (by omega), if_neg (by omega)]
  rfl

/-- The three ways in which `Open` of a file ends. An object that fails to open is left without a
descriptor or without a mapping. -/
theorem openFile_cases (self : Ringfile) (f : File) (mode : Mode) (outcomes : ℕ → Outcome) :
    (openFile self (some f) mode outcomes = .opened (openedState self f mode outcomes) ∧
      f.length ≠ 0 ∧ f.header.magic = kMagic) ∨
    (∃ self' rest, openFile self (some f) mode outcomes = .failed self' (some f) rest ∧
      (self'.fd = none ∨ self'.header = self.header)) ∨
    openFile self (some f) mode outcomes = .fault .protection := by
  unfold openFile
  cases outcomes 0 with
  | fail errno => exact Or.inr (Or.inl ⟨_, _, rfl, Or.inl rfl⟩)
  | _ =>
    cases outcomes 1 with
    | fail errno => exact Or.inr (Or.inl ⟨_, _, rfl, Or.inr rfl⟩)
    | _ =>
      cases outcomes 2 with
      | fail errno => exact Or.inr (Or.inr rfl)
      | _ =>
        dsimp only
        by_cases hz : f.length = 0
        · rw [if_pos hz]
          exact Or.inr (Or.inr rfl)
        by_cases hm : f.header.magic = kMagic
        · rw [if_neg hz, if_neg (not_not_intro hm)]
          exact Or.inl ⟨rfl, hz, hm⟩
        · rw [if_neg hz, if_pos hm]
          exact Or.inr (Or.inl ⟨_, _, rfl, Or.inl rfl⟩)

theorem openFile_opened {self : Ringfile} {f : File} {mode : Mode} {outcomes : ℕ → Outcome}
    {s : State} (h : openFile self (some f) mode outcomes = .opened s) :
    f.length ≠ 0 ∧ f.header.magic = kMagic ∧ s = openedState self f mode outcomes := by
  rcases openFile_cases self f mode outcomes with ⟨hopen, hlen, hm⟩ | ⟨_, _, hfail, _⟩ | hfault
  · rw [hopen] at h
    cases h
    exact ⟨hlen, hm, rfl⟩
  · rw [hfail] at h
    cases h
  · rw [hfault] at h
    cases h

/-- `Open` of the file at hand, in place of the handle there was. -/
def openAgain (self : Ringfile) (mode : Mode) : Op Bool := fun s =>
  match openFile self (some s.file) mode s.outcomes with
  | .opened t => .ok true t
  | .failed self _ _ => .ok false { s with self := self }
  | .fault f => .error f s

/-- Close the handle and open the same file again for appending, with a new object. -/
def reopen (junk : Ringfile) : Op Bool := do
  let _ ← close
  openAgain junk.construct .append

end CircularLog
