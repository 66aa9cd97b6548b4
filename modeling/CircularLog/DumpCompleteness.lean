import CircularLog.Command
import CircularLog.ExactReads

/-! What `Command::Read` makes of calls that fail or come short. `NextRecordSize` returns false for
a failure as it does at the end of file, and the loop takes the one for the other. -/
namespace CircularLog

/-- What the loop of `Command::Read` prints of the records from offset `off` on, and what is
returned then. -/
def dumped (M : ℕ) : List Record → ℕ → (ℕ → Outcome) → List Record × Bool
  | [], _, _ => ([], true)
  | r :: U, off, outcomes =>
    let size := transferResult M off 10 outcomes
    -- `NextRecordSize` fails, and the loop ends as it does at the end of file
    if !size.1 then ([], true)
    else
      let record := readResult M off r size.2
      if !record.1 then ([], false)
      else
        let rest := dumped M U ((off+frameSize r)%M) record.2
        (r :: rest.1, rest.2)

/-- Every transfer on the way through the records succeeds. -/
def AllRead (M : ℕ) : List Record → ℕ → (ℕ → Outcome) → Prop
  | [], _, _ => True
  | r :: U, off, outcomes =>
    let size := transferResult M off 10 outcomes
    let record := readResult M off r size.2
    size.1 = true ∧ record.1 = true ∧ AllRead M U ((off+frameSize r)%M) record.2

/-- The window of `NextRecordSize` is read whole at every record that the loop comes to, so the
first transfer that fails, if one does, is one of `Read`. -/
def SizesRead (M : ℕ) : List Record → ℕ → (ℕ → Outcome) → Prop
  | [], _, _ => True
  | r :: U, off, outcomes =>
    let size := transferResult M off 10 outcomes
    let record := readResult M off r size.2
    size.1 = true ∧ (record.1 = true → SizesRead M U ((off+frameSize r)%M) record.2)

/-- What a command returns and what it printed. -/
def Finished.output : Finished → Option (Bool × Text)
  | .returned ok c _ => some (ok, c.stdout)
  | .fault _ => none

/-- A dump returns true only if it printed all of `L`, and false if a transfer failed. -/
def Honest (c : Command) (L : List Record) (failed : Prop) (x : Finished) : Prop :=
  ∃ ok out, x.output = some (ok, out) ∧ (ok = true → out = c.stdout ++ printed L) ∧
    (failed → ok = false)

section DumpCompleteness
variable {M : ℕ} {s : State} {f : File} {L U : List Record}

theorem readLoop_exact {stringMaxSize : ℕ} (hstring : ∀ r ∈ U, r.length ≤ stringMaxSize)
    (h : Unread M s U) (turns : ℕ) (hturns : U.length < turns) :
    Sat (readLoop stringMaxSize turns) s
      (fun v _ => v = dumped M U s.self.readOffset s.outcomes) := by
  -- one turn for each record and one more that finds none
  induction turns generalizing s U with
  | zero => omega
  | succ turns ih =>
    rw [readLoop]
    cases U with
    | nil =>
      apply (nextRecordSize_none h).bind
      intro v t hspec
      obtain ⟨rfl, _⟩ := hspec
      exact sat_pure.mpr rfl
    | cons r U =>
      have hlen := hstring r List.mem_cons_self
      rw [List.length_cons] at hturns
      apply (nextRecordSize_exact h).bind
      intro v t hspec
      obtain ⟨hv, hout, hut, _, hself⟩ := hspec
      have hoff : t.self.readOffset = s.self.readOffset := by rw [hself]
      rw [dumped]
      cases hsize : (transferResult M s.self.readOffset 10 s.outcomes).1 with
      | false =>
        rw [if_neg (ne_true_of_eq_false hsize)] at hv
        subst hv
        exact sat_pure.mpr rfl
      | true =>
        rw [if_pos hsize] at hv
        subst hv
        dsimp only
        rw [if_neg (by omega)]
        apply (read_exact hut (fun _ => 0) le_rfl).bind
        intro w u hspec
        obtain ⟨ok, record⟩ := w
        obtain ⟨hok, hout', _, hdone⟩ := hspec
        rw [hoff, hout] at hok hout'
        dsimp only at hok hdone
        rw [← hok, sat_unless]
        constructor
        · intro hno
          change ok = false at hno
          subst hno
          rfl
        · intro hyes
          obtain ⟨hbytes, huu, hself'⟩ := hdone hyes
          change ok = true at hyes
          subst hyes
          apply (ih (fun q hq => hstring q (List.mem_cons_of_mem _ hq)) huu (by omega)).bind
          intro x y hrest
          subst hrest
          rw [sat_pure, hbytes, hout', hself']
          dsimp only
          rw [hoff]
          rfl

theorem dumped_all {off : ℕ} {outcomes : ℕ → Outcome} (h : SizesRead M U off outcomes) :
    ((dumped M U off outcomes).2 = true → (dumped M U off outcomes).1 = U) ∧
      (¬AllRead M U off outcomes → (dumped M U off outcomes).2 = false) := by
  -- on the records, with the answers that are left for them
  induction U generalizing off outcomes with
  | nil => exact ⟨fun _ => rfl, fun hno => absurd trivial hno⟩
  | cons r U ih =>
    obtain ⟨hsize, hrest⟩ := h
    rw [dumped, AllRead]
    dsimp only
    rw [hsize]
    cases hrecord : (readResult M off r (transferResult M off 10 outcomes).2).1 with
    | false => exact ⟨fun hyes => absurd hyes (by simp), fun _ => rfl⟩
    | true =>
      obtain ⟨hall, hfail⟩ := ih (hrest hrecord)
      constructor
      · intro hyes
        exact congrArg (List.cons r) (hall hyes)
      · intro hno
        exact hfail (fun hread => hno ⟨rfl, rfl, hread⟩)

/-- Where a window of `NextRecordSize` fails, the dump returns true although a transfer failed. -/
theorem dumped_short {off : ℕ} {outcomes : ℕ → Outcome} (h : ¬SizesRead M U off outcomes) :
    (dumped M U off outcomes).2 = true ∧ ¬AllRead M U off outcomes := by
  induction U generalizing off outcomes with
  | nil => exact absurd trivial h
  | cons r U ih =>
    rw [SizesRead] at h
    rw [dumped, AllRead]
    dsimp only at h ⊢
    cases hsize : (transferResult M off 10 outcomes).1 with
    | false => exact ⟨rfl, fun hread => absurd hread.1 (by simp)⟩
    | true =>
      rw [hsize] at h
      cases hrecord : (readResult M off r (transferResult M off 10 outcomes).2).1 with
      | false => exact absurd ⟨rfl, fun hyes => by rw [hrecord] at hyes; cases hyes⟩ h
      | true =>
        obtain ⟨hyes, hno⟩ := ih (fun hrest => h ⟨rfl, fun _ => hrest⟩)
        exact ⟨hyes, fun hread => hno hread.2.2⟩

/-- `Command::Read` on a file that opens prints what the loop returns, and returns what it does. -/
theorem Command.read_output (strerror : Option ℕ → Text) {stringMaxSize : ℕ}
    (hstring : ∀ r ∈ L, r.length ≤ stringMaxSize) (c : Command) (junk : Ringfile)
    (hw : WellFormed M f L) {outcomes : ℕ → Outcome}
    (hopen : openFile junk.construct (some f) .read outcomes = .opened s) {turns : ℕ}
    (hturns : L.length < turns) :
    (c.read strerror stringMaxSize junk (some f) outcomes turns).output =
      some ((dumped M L s.self.readOffset s.outcomes).2,
        c.stdout ++ printed (dumped M L s.self.readOffset s.outcomes).1) := by
  have hu : Unread M s L := by
    obtain ⟨_, _, rfl⟩ := openFile_opened hopen
    exact ⟨⟨by simp [openedState], by simp [openedState], hw.length, hw.length, hw.bound⟩,
      hw.layout⟩
  obtain ⟨v, t, hrun, rfl⟩ := readLoop_exact hstring hu turns hturns
  rw [Command.read, hopen]
  dsimp only
  rw [hrun]
  dsimp only
  cases (dumped M L s.self.readOffset s.outcomes).2 with
  | true => rfl
  | false => rfl

end DumpCompleteness

/-- A dump says the truth exactly when no window of `NextRecordSize` is the first transfer to fail,
whatever the answers of the system to `lseek` and `read`. There is a string for each record, so
`resize` does not throw. -/
theorem dump_honest_iff {M : ℕ} {f : File} {L : List Record} (hw : WellFormed M f L)
    (strerror : Option ℕ → Text) {stringMaxSize : ℕ}
    (hstring : ∀ r ∈ L, r.length ≤ stringMaxSize) (c : Command) (junk : Ringfile)
    {outcomes : ℕ → Outcome} {s : State}
    (hopen : openFile junk.construct (some f) .read outcomes = .opened s) {turns : ℕ}
    (hturns : L.length < turns) :
    Honest c L (¬AllRead M L f.header.startOffset s.outcomes)
        (c.read strerror stringMaxSize junk (some f) outcomes turns) ↔
      SizesRead M L f.header.startOffset s.outcomes := by
  have hout := c.read_output strerror hstring junk hw hopen hturns
  have hstart : s.self.readOffset = f.header.startOffset := by
    obtain ⟨_, _, rfl⟩ := openFile_opened hopen
    rfl
  rw [hstart] at hout
  constructor
  · intro h
    obtain ⟨ok, out, hfinished, _, hfail⟩ := h
    rw [hout] at hfinished
    cases hfinished
    -- true would be returned for a transfer that failed
    by_contra hshort
    obtain ⟨hyes, hno⟩ := dumped_short hshort
    rw [hfail hno] at hyes
    cases hyes
  · intro h
    obtain ⟨hall, hfail⟩ := dumped_all h
    refine ⟨_, _, hout, fun hyes => ?_, hfail⟩
    rw [hall hyes]

/-- Answers of which one, to an `lseek` after the file is open, is a failure. -/
def oneFailure (n errno : ℕ) : ℕ → Outcome := fun i => if i = n then .fail errno else .done

theorem dump_honest_iff_one_failure :
    ∃ s, openFile blank.construct (some (File.holding 26 0 [[1, 2, 3], [4, 5, 6]])) .read
        (oneFailure 9 5) = .opened s ∧
      (Honest ⟨[], -1, [], [], []⟩ [[1, 2, 3], [4, 5, 6]]
        (¬AllRead 26 [[1, 2, 3], [4, 5, 6]] 0 s.outcomes)
        (Command.read (fun _ => []) (2^62-1) ⟨[], -1, [], [], []⟩ blank
          (some (File.holding 26 0 [[1, 2, 3], [4, 5, 6]])) (oneFailure 9 5) 3) ↔
      SizesRead 26 [[1, 2, 3], [4, 5, 6]] 0 s.outcomes) := by
  have hw : WellFormed 26 (File.holding 26 0 [[1, 2, 3], [4, 5, 6]]) [[1, 2, 3], [4, 5, 6]] :=
    wellFormed_holding (by norm_num) (by decide) (by norm_num) (by simp)
  exact ⟨_, rfl, dump_honest_iff hw _ (by simp) _ blank rfl (by decide)⟩

/-- The seek for the second record's window fails. The tool prints the first record and returns
true. -/
theorem failed_seek_truncates_dump :
    WellFormed 26 (File.holding 26 0 [[1, 2, 3], [4, 5, 6]]) [[1, 2, 3], [4, 5, 6]] ∧
      (Command.read (fun _ => []) (2^62-1) ⟨[], -1, [], [], []⟩ blank
        (some (File.holding 26 0 [[1, 2, 3], [4, 5, 6]])) (oneFailure 9 5) 3).output =
        some (true, printed [[1, 2, 3]]) ∧
      printed [[1, 2, 3]] ≠ printed [[1, 2, 3], [4, 5, 6]] := by
  refine ⟨wellFormed_holding (by norm_num) (by decide) (by norm_num) (by simp), ?_, by decide⟩
  -- the whole command is run
  decide +kernel

end CircularLog
