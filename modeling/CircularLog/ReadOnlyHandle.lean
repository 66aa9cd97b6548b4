import CircularLog.ClosedHandle
import CircularLog.SessionProtocol

/-! Handles that cannot change the file. What is shown of a handle opened for reading holds for all
calls of all member functions, the writing ones included, on files with any content. -/
namespace CircularLog

/-- `I` does not depend on what a call that leaves the file alone changes, nor on the fields of the
object other than the descriptor, the mapping, the size and the cursor. -/
structure Indifferent (I : State → Prop) : Prop where
  called : ∀ {s : State} (event : Event) (position : ℕ), I s → I (s.called event s.file position)
  assigned : ∀ {s : State} (self : Ringfile), I s → self.fd = s.self.fd →
    self.header = s.self.header → self.size = s.self.size → self.readOffset = s.self.readOffset →
    I { s with self := self }

/-- Nor on the cursor. -/
structure CursorFree (I : State → Prop) : Prop extends Indifferent I where
  moved : ∀ {s : State} (offset : ℕ), I s →
    I { s with self := { s.self with readOffset := offset } }

/-- Where `I` holds, neither the descriptor nor the mapping lets the process change the file. -/
structure Barred (I : State → Prop) : Prop extends Indifferent I where
  fd : ∀ {s : State}, I s → s.self.fd ≠ some .append
  header : ∀ {s : State}, I s → s.self.header ≠ .readWrite

section Reading
variable {I : State → Prop} {α : Type}

theorem bytesMax_maintains : Maintains I bytesMax :=
  maintains_get (fun _ _ => maintains_pure _)

theorem modulo_maintains (a b : ℕ) : Maintains I (modulo a b) :=
  (maintains_throw _).ite (maintains_pure _)

theorem assert_maintains (c : Prop) [Decidable c] : Maintains I (assert c) :=
  (maintains_pure _).ite (maintains_throw _)

theorem reached_maintains (x : Option α) : Maintains I (reached x) := by
  cases x with
  | none => exact maintains_throw _
  | some a => exact maintains_pure a

theorem mappedHeader_maintains : Maintains I mappedHeader :=
  maintains_get (fun _ _ => (maintains_throw _).ite (maintains_pure _))

theorem bytesUsed_maintains : Maintains I bytesUsed := by
  apply mappedHeader_maintains.bind
  intro h
  exact (maintains_pure _).ite (bytesMax_maintains.bind (fun _ => maintains_pure _))

theorem bytesAvailable_maintains : Maintains I bytesAvailable :=
  bytesUsed_maintains.bind (fun _ => bytesMax_maintains.bind (fun _ => maintains_pure _))

theorem endOfFile_maintains : Maintains I endOfFile :=
  maintains_get (fun _ _ => mappedHeader_maintains.bind (fun _ => maintains_pure _))

variable (hI : Indifferent I)
include hI

theorem lseek_maintains (position : ℕ) : Maintains I (lseek position) := by
  apply maintains_modifyGet
  intro s hs
  -- no descriptor, a call that fails, and one that may be asked for a negative position
  split
  · exact hI.called _ _ hs
  · exact hI.called _ _ hs
  · split_ifs
    · exact hI.called _ _ hs
    · exact hI.called _ _ hs

theorem sysRead_maintains (ptr : Buffer) (at_ count : ℕ) :
    Maintains I (sysRead ptr at_ count) := by
  apply maintains_modifyGet
  intro s hs
  split
  · exact hI.called _ _ hs
  · exact hI.called _ _ hs
  · exact hI.called _ _ hs

theorem seekToOffset_maintains (offset : ℕ) : Maintains I (seekToOffset offset) := by
  apply bytesMax_maintains.bind
  intro m
  apply (assert_maintains _).bind
  intro _
  apply bytesMax_maintains.bind
  intro m'
  apply (modulo_maintains _ _).bind
  intro position
  apply (lseek_maintains hI _).bind
  intro r
  cases r with
  | none => exact maintains_pure _
  | some errno =>
    -- only `error_` is assigned
    apply Maintains.bind (maintains_modifyGet ?_) (fun _ => maintains_pure _)
    exact fun s hs => hI.assigned { s.self with error := some errno } hs rfl rfl rfl rfl

theorem readPart_maintains (offset : ℕ) (ptr : Buffer) (at_ count : ℕ) :
    Maintains I (readPart offset ptr at_ count) := by
  apply (maintains_pure _).ite
  apply (seekToOffset_maintains hI offset).bind
  intro ok
  apply (maintains_pure _).ite
  exact (sysRead_maintains hI _ _ _).bind (fun _ => maintains_pure _)

omit hI in
/-- What both wrapping transfers begin with. -/
theorem reducedOffsets_maintains (offset n : ℕ) {f : ℕ → ℕ → ℕ → Op α}
    (hf : ∀ first end_ m, Maintains I (f first end_ m)) :
    Maintains I (do
      let offset ← modulo offset (← bytesMax)
      let endOffset ← modulo (u64 (offset+n)) (← bytesMax)
      f offset endOffset (← bytesMax)) := by
  apply bytesMax_maintains.bind
  intro m
  apply (modulo_maintains _ _).bind
  intro first
  apply bytesMax_maintains.bind
  intro m'
  apply (modulo_maintains _ _).bind
  intro end_
  exact bytesMax_maintains.bind (hf first end_)

theorem wrappingRead_maintains (offset : ℕ) (ptr : Buffer) (n : ℕ) :
    Maintains I (wrappingRead offset ptr n) := by
  apply reducedOffsets_maintains
  intro first end_ m
  apply (readPart_maintains hI _ _ _ _).bind
  intro v
  exact (maintains_pure _).ite (readPart_maintains hI _ _ _ _)

theorem readVarint_maintains (offset : ℕ) : Maintains I (readVarint offset) := by
  apply (wrappingRead_maintains hI _ _ _).bind
  intro v
  apply (maintains_pure _).ite
  exact (reached_maintains _).bind (fun _ => maintains_pure _)

theorem setStreamingRead_maintains (offset remaining : ℕ) :
    Maintains I (setStreamingRead offset remaining) :=
  maintains_modifyGet (fun s hs => hI.assigned { s.self with
    streamingReadOffset := offset
    streamingReadBytesRemaining := remaining } hs rfl rfl rfl rfl)

theorem nextRecordSize_maintains : Maintains I nextRecordSize := by
  apply maintains_get
  intro s _
  apply (maintains_pure _).ite
  apply mappedHeader_maintains.bind
  intro h
  apply (maintains_pure _).ite
  apply (readVarint_maintains hI _).bind
  intro d
  cases d with
  | none => exact maintains_pure _
  | some d => exact maintains_pure _

theorem streamingRead_maintains (ptr : Buffer) (n : ℕ) :
    Maintains I (streamingRead ptr n) := by
  apply maintains_get
  intro s _
  apply (maintains_pure _).ite
  apply (wrappingRead_maintains hI _ _ _).bind
  intro v
  apply (maintains_pure _).ite
  exact (setStreamingRead_maintains hI _ _).bind (fun _ => maintains_pure _)

theorem streamingReadFinish_maintains : Maintains I streamingReadFinish := by
  apply maintains_get
  intro s _
  exact (setStreamingRead_maintains hI _ _).bind (fun _ => maintains_pure _)

omit hI

theorem setReadOffset_maintains (hI : CursorFree I) (offset : ℕ) :
    Maintains I (setReadOffset offset) :=
  maintains_modifyGet (fun _ hs => hI.moved offset hs)

/-- The cursor moves behind a record. -/
theorem advanceCursor_maintains (hI : CursorFree I) (a : ℕ) {x : Op α} (hx : Maintains I x) :
    Maintains I (do
      setReadOffset (← modulo a (← bytesMax))
      x) := by
  apply bytesMax_maintains.bind
  intro m
  apply (modulo_maintains _ _).bind
  intro cursor
  exact (setReadOffset_maintains hI _).bind (fun _ => hx)

/-- `Read` moves the cursor at its end only. -/
theorem read_maintains_of (hI : Indifferent I)
    (hadvance : ∀ (a : ℕ) (v : Bool × Buffer), Maintains I (do
      setReadOffset (← modulo a (← bytesMax))
      return v)) (buffer : Buffer) (bufferSize : ℕ) : Maintains I (read buffer bufferSize) := by
  apply maintains_get
  intro s _
  apply (maintains_pure _).ite
  apply (readVarint_maintains hI _).bind
  intro d
  cases d with
  | none => exact maintains_pure _
  | some d =>
    apply (maintains_pure _).ite
    apply (wrappingRead_maintains hI _ _ _).bind
    intro v
    exact (maintains_pure _).ite (hadvance _ _)

theorem read_maintains (hI : CursorFree I) (buffer : Buffer) (bufferSize : ℕ) :
    Maintains I (read buffer bufferSize) :=
  read_maintains_of hI.toIndifferent
    (fun a _ => advanceCursor_maintains hI a (maintains_pure _)) buffer bufferSize

theorem streamingReadStart_maintains (hI : CursorFree I) : Maintains I streamingReadStart := by
  apply maintains_get
  intro s _
  apply (assert_maintains _).bind
  intro _
  apply (assert_maintains _).bind
  intro _
  apply (assert_maintains _).bind
  intro _
  apply mappedHeader_maintains.bind
  intro h
  apply (maintains_pure _).ite
  apply (readVarint_maintains hI.toIndifferent _).bind
  intro d
  cases d with
  | none => exact maintains_pure _
  | some d =>
    apply (setStreamingRead_maintains hI.toIndifferent _ _).bind
    intro _
    exact advanceCursor_maintains hI _ (maintains_pure _)

/-- Every call of a reader. -/
theorem ReaderCall.run_maintains (hI : CursorFree I) (c : ReaderCall) : Maintains I c.run := by
  cases c with
  | nextRecordSize =>
    exact (nextRecordSize_maintains hI.toIndifferent).bind (fun _ => maintains_pure _)
  | read buffer n => exact (read_maintains hI buffer n).bind (fun _ => maintains_pure _)
  | streamingReadStart => exact (streamingReadStart_maintains hI).bind (fun _ => maintains_pure _)
  | streamingRead ptr n =>
    exact (streamingRead_maintains hI.toIndifferent ptr n).bind (fun _ => maintains_pure _)
  | streamingReadFinish =>
    exact (streamingReadFinish_maintains hI.toIndifferent).bind (fun _ => maintains_pure _)

end Reading

section Writing
variable {I : State → Prop} (hI : Barred I)
include hI

/-- A `write` on a descriptor that was opened for reading fails. -/
theorem sysWrite_maintains (ptr : Buffer) (at_ count : ℕ) :
    Maintains I (sysWrite ptr at_ count) := by
  apply maintains_modifyGet
  intro s hs
  have hfd := hI.fd hs
  split
  · -- only a descriptor for appending gets bytes into the file
    contradiction
  · exact hI.called _ _ hs

/-- A store through a mapping for reading, or through none, stops the run. -/
theorem storeHeader_maintains (event : Event) (h : Header) :
    Maintains I (storeHeader event h) := by
  apply maintains_get
  intro s hs
  have hheader := hI.header hs
  cases hm : s.self.header with
  | null => exact maintains_throw _
  | readOnly => exact maintains_throw _
  | readWrite => contradiction

theorem writePart_maintains (offset : ℕ) (ptr : Buffer) (at_ count : ℕ) :
    Maintains I (writePart offset ptr at_ count) := by
  apply (maintains_pure _).ite
  apply (seekToOffset_maintains hI.toIndifferent offset).bind
  intro ok
  apply (maintains_pure _).ite
  exact (sysWrite_maintains hI _ _ _).bind (fun _ => maintains_pure _)

theorem wrappingWrite_maintains (offset : ℕ) (ptr : Buffer) (n : ℕ) :
    Maintains I (wrappingWrite offset ptr n) := by
  apply reducedOffsets_maintains
  intro first end_ m
  apply (writePart_maintains hI _ _ _ _).bind
  intro ok
  exact (maintains_pure _).ite (writePart_maintains hI _ _ _ _)

/-- A field of the header is assigned and then reduced. -/
theorem twoStores_maintains (f : Header → Header) (p : Header → ℕ) (g : Header → ℕ → Header) :
    Maintains I (do
      let h ← mappedHeader
      storeHeader .advance (f h)
      let h ← mappedHeader
      storeHeader .reduce (g h (← modulo (p h) (← bytesMax)))) := by
  apply mappedHeader_maintains.bind
  intro h
  apply (storeHeader_maintains hI _ _).bind
  intro _
  apply mappedHeader_maintains.bind
  intro h'
  apply bytesMax_maintains.bind
  intro m
  exact (modulo_maintains _ _).bind (fun _ => storeHeader_maintains hI _ _)

theorem popRecord_maintains : Maintains I popRecord := by
  apply mappedHeader_maintains.bind
  intro h
  apply (maintains_pure _).ite
  apply (readVarint_maintains hI.toIndifferent _).bind
  intro d
  cases d with
  | none => exact maintains_pure _
  | some d =>
    have hadvance : Maintains I (advanceStart (u64 (d.1+d.2))) := twoStores_maintains hI _ _ _
    exact hadvance.bind (fun _ => maintains_pure _)

theorem popUntilAvailable_maintains (need fuel : ℕ) :
    Maintains I (popUntilAvailable need fuel) := by
  -- on the turns that are left
  induction fuel with
  | zero =>
    apply bytesAvailable_maintains.bind
    intro a
    exact (maintains_throw _).ite (maintains_pure _)
  | succ fuel ih =>
    apply bytesAvailable_maintains.bind
    intro a
    refine Maintains.ite ?_ (maintains_pure _)
    apply (popRecord_maintains hI).bind
    intro ok
    apply (maintains_pure _).ite
    apply bytesAvailable_maintains.bind
    intro b
    exact (assert_maintains _).bind (fun _ => ih)

theorem startRecord_maintains (n : ℕ) : Maintains I (startRecord n) := by
  apply (reached_maintains _).bind
  intro headerSize
  apply bytesMax_maintains.bind
  intro m
  apply (maintains_pure _).ite
  apply (popUntilAvailable_maintains hI _ _).bind
  intro ok
  apply (maintains_pure _).ite
  apply mappedHeader_maintains.bind
  intro h
  apply (wrappingWrite_maintains hI _ _ _).bind
  intro ok'
  exact (maintains_pure _).ite (maintains_pure _)

theorem write_maintains (ptr : Buffer) (n : ℕ) : Maintains I (write ptr n) := by
  apply (startRecord_maintains hI n).bind
  intro r
  cases r with
  | none => exact maintains_pure _
  | some headerSize =>
    apply mappedHeader_maintains.bind
    intro h
    apply (wrappingWrite_maintains hI _ _ _).bind
    intro ok
    apply (maintains_pure _).ite
    apply mappedHeader_maintains.bind
    intro h'
    have hassign : Maintains I (assignEnd (u64 (h'.endOffset+u64 (headerSize+n)))) :=
      twoStores_maintains hI _ _ _
    exact hassign.bind (fun _ => maintains_pure _)

theorem setStreamingWrite_maintains (offset remaining : ℕ) :
    Maintains I (setStreamingWrite offset remaining) :=
  maintains_modifyGet (fun s hs => hI.assigned { s.self with
    streamingWriteOffset := offset
    streamingWriteBytesRemaining := remaining } hs rfl rfl rfl rfl)

theorem streamingWriteStart_maintains (n : ℕ) : Maintains I (streamingWriteStart n) := by
  apply maintains_get
  intro s _
  apply (assert_maintains _).bind
  intro _
  apply (startRecord_maintains hI n).bind
  intro r
  cases r with
  | none => exact maintains_pure _
  | some headerSize =>
    apply mappedHeader_maintains.bind
    intro h
    exact (setStreamingWrite_maintains hI _ _).bind (fun _ => maintains_pure _)

theorem streamingWrite_maintains (ptr : Buffer) (n : ℕ) :
    Maintains I (streamingWrite ptr n) := by
  apply maintains_get
  intro s _
  apply (assert_maintains _).bind
  intro _
  apply (wrappingWrite_maintains hI _ _ _).bind
  intro ok
  apply (maintains_pure _).ite
  exact (setStreamingWrite_maintains hI _ _).bind (fun _ => maintains_pure _)

theorem streamingWriteFinish_maintains : Maintains I streamingWriteFinish := by
  apply maintains_get
  intro s _
  apply (assert_maintains _).bind
  intro _
  have hassign : Maintains I (assignEnd s.self.streamingWriteOffset) := twoStores_maintains hI _ _ _
  apply hassign.bind
  intro _
  exact (setStreamingWrite_maintains hI _ _).bind (fun _ => maintains_pure _)

/-- Every call of a writer. -/
theorem WriteCall.run_maintains (c : WriteCall) : Maintains I c.run := by
  cases c with
  | write r behind => exact write_maintains hI _ _
  | start n => exact streamingWriteStart_maintains hI n
  | chunk data behind => exact streamingWrite_maintains hI _ _
  | finish => exact streamingWriteFinish_maintains hI

end Writing

/-- A call of any public member function but `Create` and `Open`. -/
inductive MemberCall
  | reading (c : ReaderCall)
  | writing (c : WriteCall)
  | endOfFile
  | bytesMax
  | bytesUsed
  | bytesAvailable
  | close

/-- Make the call and drop what it returns. -/
def MemberCall.run : MemberCall → Op Unit
  | .reading c => do let _ ← c.run
  | .writing c => do let _ ← c.run
  | .endOfFile => do let _ ← CircularLog.endOfFile
  | .bytesMax => do let _ ← CircularLog.bytesMax
  | .bytesUsed => do let _ ← CircularLog.bytesUsed
  | .bytesAvailable => do let _ ← CircularLog.bytesAvailable
  | .close => do let _ ← CircularLog.close

def runMembers : List MemberCall → Op Unit
  | [] => return ()
  | c :: cs => do
    c.run
    runMembers cs

/-- The process cannot change the file, which is `f` and was `f` after every step so far. -/
structure Harmless (f : File) (s : State) : Prop where
  fd : s.self.fd ≠ some .append
  header : s.self.header ≠ .readWrite
  file : s.file = f
  steps : ∀ x ∈ s.steps, x.file = f

section Harmless
variable {f : File}

theorem harmless_cursorFree (f : File) : CursorFree (Harmless f) where
  called := by
    intro s event position h
    refine ⟨h.fd, h.header, h.file, ?_⟩
    intro x hx
    rcases List.mem_cons.mp hx with rfl | hx
    · exact h.file
    · exact h.steps x hx
  assigned := by
    intro s self h hfd hheader _ _
    refine ⟨?_, ?_, h.file, h.steps⟩
    · rw [hfd]
      exact h.fd
    · rw [hheader]
      exact h.header
  moved := fun _ h => ⟨h.fd, h.header, h.file, h.steps⟩

theorem harmless_barred (f : File) : Barred (Harmless f) where
  toIndifferent := (harmless_cursorFree f).toIndifferent
  fd := Harmless.fd
  header := Harmless.header

theorem close_harmless : Maintains (Harmless f) close := by
  refine Maintains.bind (maintains_modifyGet ?_) (fun _ => maintains_pure _)
  intro s h
  -- `Close` takes the mapping away and may take the descriptor away
  refine ⟨?_, by dsimp only; split_ifs <;> simp, h.file, h.steps⟩
  dsimp only
  split_ifs
  · simp
  · exact h.fd

theorem MemberCall.run_harmless (c : MemberCall) : Maintains (Harmless f) c.run := by
  cases c with
  | reading c => exact (c.run_maintains (harmless_cursorFree f)).bind (fun _ => maintains_pure _)
  | writing c => exact (c.run_maintains (harmless_barred f)).bind (fun _ => maintains_pure _)
  | endOfFile => exact endOfFile_maintains.bind (fun _ => maintains_pure _)
  | bytesMax => exact bytesMax_maintains.bind (fun _ => maintains_pure _)
  | bytesUsed => exact bytesUsed_maintains.bind (fun _ => maintains_pure _)
  | bytesAvailable => exact bytesAvailable_maintains.bind (fun _ => maintains_pure _)
  | close => exact close_harmless.bind (fun _ => maintains_pure _)

theorem runMembers_harmless (calls : List MemberCall) :
    Maintains (Harmless f) (runMembers calls) := by
  -- on the calls
  induction calls with
  | nil => exact maintains_pure _
  | cons c calls ih => exact c.run_harmless.bind (fun _ => ih)

end Harmless

/-- Whatever is called on a handle that was opened for reading, in whatever order, and whatever the
file holds and the system answers: the file stays as it was, after every single step, and also
where a call stops the process. -/
theorem read_handle_harmless {self : Ringfile} {f : File} {outcomes : ℕ → Outcome} {s : State}
    (h : openFile self (some f) .read outcomes = .opened s) (calls : List MemberCall) :
    Ends (runMembers calls) s (fun _ t => Harmless f t) (fun _ t => Harmless f t) := by
  obtain ⟨_, _, rfl⟩ := openFile_opened h
  apply runMembers_harmless
  exact ⟨by simp [openedState], by simp [openedState], rfl, by simp [openedState]⟩

theorem read_handle_harmless_write :
    ∃ s, openFile blank.construct (some (File.holding 26 24 [[1, 2, 3]])) .read allDone =
        .opened s ∧
      Ends (runMembers [.writing (.write [4] uninitialized), .close, .endOfFile]) s
        (fun _ t => Harmless (File.holding 26 24 [[1, 2, 3]]) t)
        (fun _ t => Harmless (File.holding 26 24 [[1, 2, 3]]) t) := by
  have hdone : ∀ i, allDone i = .done := fun _ => rfl
  have hopen := openFile_eq blank.construct (f := File.holding 26 24 [[1, 2, 3]]) .read hdone
    (by decide) rfl
  exact ⟨_, hopen, read_handle_harmless hopen _⟩

end CircularLog
