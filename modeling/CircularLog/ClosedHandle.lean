import CircularLog.SizeCheck

/-! Calls on a handle that may have been closed before. `Close` takes the mapping away; some of the
member functions ask whether it is there, and the others do not. -/
namespace CircularLog

/-- A member function called on an open or a closed handle. -/
inductive MethodCall
  | write (ptr : Buffer) (size : UInt64)
  | read (buffer : Buffer) (bufferSize : UInt64)
  | nextRecordSize
  | endOfFile
  | bytesUsed
  | close

/-- The call, with the value that says whether it succeeded. -/
def MethodCall.run : MethodCall → Op Bool
  | .write ptr size => CircularLog.write ptr size.toNat
  | .read buffer bufferSize => do
    return (← CircularLog.read buffer bufferSize.toNat).1
  | .nextRecordSize => do
    return (← CircularLog.nextRecordSize).isSome
  | .endOfFile => CircularLog.endOfFile
  | .bytesUsed => do
    let _ ← CircularLog.bytesUsed
    return true
  | .close => CircularLog.close

/-- The calls that are to return false on a closed handle. -/
def MethodCall.isTransfer : MethodCall → Bool
  | .write _ _ | .read _ _ | .nextRecordSize => true
  | _ => false

def MethodCall.isClose : MethodCall → Bool
  | .close => true
  | _ => false

/-- The call goes to `*header_` without a look at `header_`. `Write` does so behind its size check,
which compares with `bytes_max()`. -/
def MethodCall.Unchecked (max : ℕ) : MethodCall → Prop
  | .write _ size => u64 (Varint.size size.toNat+size.toNat+1) ≤ max
  | .endOfFile | .bytesUsed => True
  | _ => False

/-- No call goes through a null `header_`, and from the first `Close` on every transfer returns
false and leaves the file alone. `closed` says whether there has been one. -/
def FailsCleanly : Bool → List MethodCall → State → Prop
  | _, [], _ => True
  | closed, c :: cs, s => Ends c.run s
    (fun ok t => (closed = true → c.isTransfer = true →
        ok = false ∧ t.file = s.file ∧ t.steps = s.steps) ∧
      FailsCleanly (closed || c.isClose) cs t)
    (fun e _ => e ≠ .nullPointer ∧ ¬(closed = true ∧ c.isTransfer = true))

/-- From the first `Close` on only calls are made that look at `header_` first. -/
def OnlyChecked : Bool → List MethodCall → State → Prop
  | _, [], _ => True
  | closed, c :: cs, s => (closed = true → ¬c.Unchecked s.self.bytesMax) ∧
    ∀ ok t, c.run s = .ok ok t → OnlyChecked (closed || c.isClose) cs t

/-- The same of a list of calls, whether or not a run gets to them all. -/
def CheckedBehindClose (max : ℕ) : Bool → List MethodCall → Prop
  | _, [] => True
  | closed, c :: cs => (closed = true → ¬c.Unchecked max) ∧
    CheckedBehindClose max (closed || c.isClose) cs

/-- The handle is the result of a successful `Open` or `Create`. -/
def SuccessfullyOpened (s : State) : Prop :=
  (∃ self path mode outcomes, openFile self path mode outcomes = .opened s) ∨
    ∃ self path size outcomes, create self path size outcomes = .opened s

/-- The mapping stays and `size_` with it, and no run stops on a null pointer. -/
def KeepsMapping {α : Type} (size : ℕ) (x : Op α) : Prop :=
  Preserves (fun s => s.self.header ≠ .null ∧ s.self.size = size) (fun e => e ≠ .nullPointer) x

section KeepsMapping
variable {α : Type} {size : ℕ}

theorem bytesMax_keeps : KeepsMapping size bytesMax :=
  preserves_get (fun _ _ => preserves_pure _)

theorem modulo_keeps (a b : ℕ) : KeepsMapping size (modulo a b) :=
  (preserves_throw (by decide)).ite (preserves_pure _)

theorem assert_keeps (c : Prop) [Decidable c] : KeepsMapping size (assert c) :=
  (preserves_pure _).ite (preserves_throw (by decide))

theorem reached_keeps (x : Option α) : KeepsMapping size (reached x) := by
  cases x with
  | none => exact preserves_throw (by decide)
  | some a => exact preserves_pure a

theorem mappedHeader_keeps : KeepsMapping size mappedHeader := by
  apply preserves_get
  intro s hs
  rw [if_neg hs.1]
  exact preserves_pure _

theorem storeHeader_keeps (event : Event) (h : Header) :
    KeepsMapping size (storeHeader event h) := by
  apply preserves_get
  intro s hs
  -- a store through a mapping for reading stops the run, but on another fault
  cases hm : s.self.header with
  | null => exact absurd hm hs.1
  | readOnly => exact preserves_throw (by decide)
  | readWrite => exact preserves_modifyGet (fun _ ht => ht)

/-- A system call does not touch the object. -/
theorem called_keeps {g : State → α × State} (hg : ∀ s, (g s).2.self = s.self) :
    KeepsMapping size (modifyGet g) := by
  apply preserves_modifyGet
  intro s hs
  rwa [hg s]

theorem lseek_keeps (position : ℕ) : KeepsMapping size (lseek position) := by
  apply called_keeps
  intro s
  -- no descriptor, a call that fails, and one that may be asked for a negative position
  split
  · rfl
  · rfl
  · split_ifs <;> rfl

theorem sysRead_keeps (ptr : Buffer) (at_ count : ℕ) :
    KeepsMapping size (sysRead ptr at_ count) := by
  apply called_keeps
  intro s
  split <;> rfl

theorem sysWrite_keeps (ptr : Buffer) (at_ count : ℕ) :
    KeepsMapping size (sysWrite ptr at_ count) := by
  apply called_keeps
  intro s
  split
  · split_ifs <;> rfl
  · rfl

theorem seekToOffset_keeps (offset : ℕ) : KeepsMapping size (seekToOffset offset) := by
  apply bytesMax_keeps.bind
  intro m
  apply (assert_keeps _).bind
  intro _
  apply bytesMax_keeps.bind
  intro m'
  apply (modulo_keeps _ _).bind
  intro position
  apply (lseek_keeps _).bind
  intro r
  cases r with
  | none => exact preserves_pure _
  | some errno =>
    -- only `error_` is assigned
    exact Preserves.bind (preserves_modifyGet (fun _ hs => hs)) (fun _ => preserves_pure _)

theorem readPart_keeps (offset : ℕ) (ptr : Buffer) (at_ count : ℕ) :
    KeepsMapping size (readPart offset ptr at_ count) := by
  apply (preserves_pure _).ite
  apply (seekToOffset_keeps offset).bind
  intro ok
  apply (preserves_pure _).ite
  exact (sysRead_keeps _ _ _).bind (fun _ => preserves_pure _)

/-- What both wrapping transfers begin with. -/
theorem reducedOffsets_keeps (offset n : ℕ) {f : ℕ → ℕ → ℕ → Op α}
    (hf : ∀ first end_ m, KeepsMapping size (f first end_ m)) :
    KeepsMapping size (do
      let offset ← modulo offset (← bytesMax)
      let endOffset ← modulo (u64 (offset+n)) (← bytesMax)
      f offset endOffset (← bytesMax)) := by
  apply bytesMax_keeps.bind
  intro m
  apply (modulo_keeps _ _).bind
  intro first
  apply bytesMax_keeps.bind
  intro m'
  apply (modulo_keeps _ _).bind
  intro end_
  exact bytesMax_keeps.bind (hf first end_)

theorem wrappingRead_keeps (offset : ℕ) (ptr : Buffer) (n : ℕ) :
    KeepsMapping size (wrappingRead offset ptr n) := by
  apply reducedOffsets_keeps
  intro first end_ m
  apply (readPart_keeps _ _ _ _).bind
  intro v
  exact (preserves_pure _).ite (readPart_keeps _ _ _ _)

theorem writePart_keeps (offset : ℕ) (ptr : Buffer) (at_ count : ℕ) :
    KeepsMapping size (writePart offset ptr at_ count) := by
  apply (preserves_pure _).ite
  apply (seekToOffset_keeps offset).bind
  intro ok
  apply (preserves_pure _).ite
  exact (sysWrite_keeps _ _ _).bind (fun _ => preserves_pure _)

theorem wrappingWrite_keeps (offset : ℕ) (ptr : Buffer) (n : ℕ) :
    KeepsMapping size (wrappingWrite offset ptr n) := by
  apply reducedOffsets_keeps
  intro first end_ m
  apply (writePart_keeps _ _ _ _).bind
  intro ok
  exact (preserves_pure _).ite (writePart_keeps _ _ _ _)

theorem bytesUsed_keeps : KeepsMapping size bytesUsed := by
  apply mappedHeader_keeps.bind
  intro h
  exact (preserves_pure _).ite (bytesMax_keeps.bind (fun _ => preserves_pure _))

theorem bytesAvailable_keeps : KeepsMapping size bytesAvailable :=
  bytesUsed_keeps.bind (fun _ => bytesMax_keeps.bind (fun _ => preserves_pure _))

theorem readVarint_keeps (offset : ℕ) : KeepsMapping size (readVarint offset) := by
  apply (wrappingRead_keeps _ _ _).bind
  intro v
  apply (preserves_pure _).ite
  exact (reached_keeps _).bind (fun _ => preserves_pure _)

/-- A field of the header is assigned and then reduced. -/
theorem twoStores_keeps (f : Header → Header) (p : Header → ℕ) (g : Header → ℕ → Header) :
    KeepsMapping size (do
      let h ← mappedHeader
      storeHeader .advance (f h)
      let h ← mappedHeader
      storeHeader .reduce (g h (← modulo (p h) (← bytesMax)))) := by
  apply mappedHeader_keeps.bind
  intro h
  apply (storeHeader_keeps _ _).bind
  intro _
  apply mappedHeader_keeps.bind
  intro h'
  apply bytesMax_keeps.bind
  intro m
  exact (modulo_keeps _ _).bind (fun _ => storeHeader_keeps _ _)

theorem advanceStart_keeps (n : ℕ) : KeepsMapping size (advanceStart n) :=
  twoStores_keeps _ _ _

theorem assignEnd_keeps (n : ℕ) : KeepsMapping size (assignEnd n) :=
  twoStores_keeps _ _ _

theorem popRecord_keeps : KeepsMapping size popRecord := by
  apply mappedHeader_keeps.bind
  intro h
  apply (preserves_pure _).ite
  apply (readVarint_keeps _).bind
  intro d
  cases d with
  | none => exact preserves_pure _
  | some d => exact (advanceStart_keeps _).bind (fun _ => preserves_pure _)

theorem popUntilAvailable_keeps (need fuel : ℕ) :
    KeepsMapping size (popUntilAvailable need fuel) := by
  -- on the turns that are left
  induction fuel with
  | zero =>
    apply bytesAvailable_keeps.bind
    intro a
    exact (preserves_throw (by decide)).ite (preserves_pure _)
  | succ fuel ih =>
    apply bytesAvailable_keeps.bind
    intro a
    refine Preserves.ite ?_ (preserves_pure _)
    -- one turn; the assertion may stop it, which is no null pointer either
    apply popRecord_keeps.bind
    intro ok
    apply (preserves_pure _).ite
    apply bytesAvailable_keeps.bind
    intro b
    exact (assert_keeps _).bind (fun _ => ih)

theorem startRecord_keeps (n : ℕ) : KeepsMapping size (startRecord n) := by
  apply (reached_keeps _).bind
  intro headerSize
  apply bytesMax_keeps.bind
  intro m
  apply (preserves_pure _).ite
  -- past the size check
  apply (popUntilAvailable_keeps _ _).bind
  intro ok
  apply (preserves_pure _).ite
  apply mappedHeader_keeps.bind
  intro h
  apply (wrappingWrite_keeps _ _ _).bind
  intro ok'
  exact (preserves_pure _).ite (preserves_pure _)

theorem write_keeps (ptr : Buffer) (n : ℕ) : KeepsMapping size (write ptr n) := by
  apply (startRecord_keeps n).bind
  intro r
  cases r with
  | none => exact preserves_pure _
  | some headerSize =>
    apply mappedHeader_keeps.bind
    intro h
    -- the payload goes behind the length, and `end_offset` behind both
    apply (wrappingWrite_keeps _ _ _).bind
    intro ok
    apply (preserves_pure _).ite
    apply mappedHeader_keeps.bind
    intro h'
    exact (assignEnd_keeps _).bind (fun _ => preserves_pure _)

theorem endOfFile_keeps : KeepsMapping size endOfFile :=
  preserves_get (fun _ _ => mappedHeader_keeps.bind (fun _ => preserves_pure _))

theorem nextRecordSize_keeps : KeepsMapping size nextRecordSize := by
  apply preserves_get
  intro s _
  apply (preserves_pure _).ite
  apply mappedHeader_keeps.bind
  intro h
  apply (preserves_pure _).ite
  apply (readVarint_keeps _).bind
  intro d
  cases d with
  | none => exact preserves_pure _
  | some d => exact preserves_pure _

theorem read_keeps (buffer : Buffer) (bufferSize : ℕ) :
    KeepsMapping size (read buffer bufferSize) := by
  apply preserves_get
  intro s _
  apply (preserves_pure _).ite
  apply (readVarint_keeps _).bind
  intro d
  cases d with
  | none => exact preserves_pure _
  | some d =>
    apply (preserves_pure _).ite
    -- the payload, and behind it the cursor
    apply (wrappingRead_keeps _ _ _).bind
    intro v
    apply (preserves_pure _).ite
    apply bytesMax_keeps.bind
    intro m
    apply (modulo_keeps _ _).bind
    intro cursor
    exact Preserves.bind (preserves_modifyGet (fun _ hs => hs)) (fun _ => preserves_pure _)

/-- While the mapping is there, every call but `Close` leaves it there. -/
theorem MethodCall.run_keeps (c : MethodCall) (hc : c.isClose = false) :
    KeepsMapping size c.run := by
  cases c with
  | write ptr n => exact write_keeps ptr n.toNat
  | read buffer bufferSize => exact (read_keeps buffer _).bind (fun _ => preserves_pure _)
  | nextRecordSize => exact nextRecordSize_keeps.bind (fun _ => preserves_pure _)
  | endOfFile => exact endOfFile_keeps
  | bytesUsed => exact bytesUsed_keeps.bind (fun _ => preserves_pure _)
  | close => cases hc

end KeepsMapping

section ClosedHandle
variable {s : State} {n : ℕ}

theorem mappedHeader_null (h : s.self.header = .null) : Stops .nullPointer mappedHeader s := by
  rw [mappedHeader, stops_of_run (get_run s), if_pos h]
  exact ⟨s, rfl⟩

theorem endOfFile_null (h : s.self.header = .null) : Stops .nullPointer endOfFile s := by
  rw [endOfFile, stops_of_run (get_run s)]
  exact (mappedHeader_null h).bind

theorem bytesUsed_null (h : s.self.header = .null) : Stops .nullPointer bytesUsed s :=
  (mappedHeader_null h).bind

/-- The condition of the eviction loop looks at the header, before any turn of it. -/
theorem popUntilAvailable_null (h : s.self.header = .null) (need fuel : ℕ) :
    Stops .nullPointer (popUntilAvailable need fuel) s := by
  have havailable : Stops .nullPointer bytesAvailable s := (bytesUsed_null h).bind
  cases fuel with
  | zero => exact havailable.bind
  | succ fuel => exact havailable.bind

theorem write_null (h : s.self.header = .null) (hn : n < 2^64)
    (hpass : u64 (Varint.size n+n+1) ≤ s.self.bytesMax) (ptr : Buffer) :
    Stops .nullPointer (write ptr n) s := by
  have hcheck := passesCheck_run hn s
  rw [decide_eq_true hpass] at hcheck
  -- the check is passed, and the first thing behind it is to ask for `bytes_available()`
  have hstart : Stops .nullPointer (startRecord n) s := by
    rw [Stops, startRecord_passed hcheck]
    change Stops .nullPointer (startChecked n) s
    rw [startChecked, stops_of_run (reached_byteSize hn s)]
    exact (popUntilAvailable_null h _ _).bind
  exact hstart.bind

theorem isClosed_null (h : s.self.header = .null) : s.self.isClosed = true := by
  simp [Ringfile.isClosed, h]

theorem nextRecordSize_closed (h : s.self.isClosed = true) : nextRecordSize s = .ok none s := by
  apply run_of_sat
  rw [nextRecordSize, sat_bind, sat_get, if_pos h, sat_pure]
  exact ⟨rfl, rfl⟩

theorem read_closed (h : s.self.isClosed = true) (buffer : Buffer) (bufferSize : ℕ) :
    read buffer bufferSize s = .ok (false, buffer) s := by
  apply run_of_sat
  rw [read, sat_bind, sat_get, if_pos h, sat_pure]
  exact ⟨rfl, rfl⟩

/-- The descriptor may stay, if the handle does not own it. -/
theorem close_null (s : State) :
    Sat close s (fun _ t => t.self.header = .null ∧ t.self.size = s.self.size) := by
  rw [close, sat_bind, sat_modify, sat_pure]
  dsimp only
  split_ifs
  · exact ⟨rfl, rfl⟩
  · exact ⟨rfl, rfl⟩

namespace MethodCall

/-- What a call does to an open handle. -/
theorem run_open (h : s.self.header ≠ .null) (c : MethodCall) :
    Ends c.run s
      (fun _ t => (t.self.header = .null ↔ c.isClose = true) ∧ t.self.size = s.self.size)
      (fun e _ => e ≠ .nullPointer) := by
  -- `Close` alone takes the mapping away
  by_cases hc : c.isClose = true
  · cases c with
    | close => exact ((close_null s).mono (fun _ _ ht => ⟨iff_of_true ht.1 rfl, ht.2⟩)).ends _
    | _ => cases hc
  · have hkeeps := c.run_keeps (Bool.eq_false_iff.mpr hc) s ⟨h, rfl⟩
    exact hkeeps.mono (fun _ _ ht => ⟨iff_of_false ht.1 hc, ht.2⟩) (fun _ _ he => he)

/-- What a call that looks at `header_` first does to a closed one. -/
theorem run_closed (h : s.self.header = .null) {c : MethodCall}
    (hc : ¬c.Unchecked s.self.bytesMax) :
    Sat c.run s (fun ok t => t.self.header = .null ∧ t.self.size = s.self.size ∧
      (c.isTransfer = true → ok = false ∧ t.file = s.file ∧ t.steps = s.steps)) := by
  have hclosed := isClosed_null h
  cases c with
  | write ptr n =>
    have hcheck := passesCheck_run n.toNat_lt s
    have hbig : ¬u64 (Varint.size n.toNat+n.toNat+1) ≤ s.self.bytesMax := hc
    rw [decide_eq_false hbig] at hcheck
    exact (sat_of_run (write_refused hcheck ptr)).mpr ⟨h, rfl, fun _ => ⟨rfl, rfl, rfl⟩⟩
  | read buffer bufferSize =>
    rw [run, sat_bind, sat_of_run (read_closed hclosed buffer _), sat_pure]
    exact ⟨h, rfl, fun _ => ⟨rfl, rfl, rfl⟩⟩
  | nextRecordSize =>
    rw [run, sat_bind, sat_of_run (nextRecordSize_closed hclosed), sat_pure]
    exact ⟨h, rfl, fun _ => ⟨rfl, rfl, rfl⟩⟩
  | endOfFile => exact absurd trivial hc
  | bytesUsed => exact absurd trivial hc
  | close => exact (close_null s).mono (fun _ _ ht => ⟨ht.1, ht.2, by simp [isTransfer]⟩)

theorem run_unchecked (h : s.self.header = .null) {c : MethodCall}
    (hc : c.Unchecked s.self.bytesMax) : Stops .nullPointer c.run s := by
  cases c with
  | write ptr n => exact write_null h n.toNat_lt hc ptr
  | endOfFile => exact endOfFile_null h
  | bytesUsed => exact (bytesUsed_null h).bind
  | read buffer bufferSize => exact False.elim hc
  | nextRecordSize => exact False.elim hc
  | close => exact False.elim hc

end MethodCall

/-- The mapping is null exactly when there has been a `Close`, and that is all that matters. -/
theorem failsCleanly_iff {closed : Bool} (h : s.self.header = .null ↔ closed = true)
    (calls : List MethodCall) : FailsCleanly closed calls s ↔ OnlyChecked closed calls s := by
  -- on the calls that are left; the flag and the mapping go together all along
  induction calls generalizing closed s with
  | nil => exact Iff.rfl
  | cons c cs ih =>
    rw [FailsCleanly, OnlyChecked]
    cases closed with
    | false =>
      -- an open handle: only the calls to come matter
      obtain ⟨hok, herror⟩ := c.run_open (fun hnull => Bool.false_ne_true (h.mp hnull))
      constructor
      · intro hfails
        refine ⟨by simp, ?_⟩
        intro ok t ht
        exact (ih (hok ok t ht).1).mp (hfails.1 ok t ht).2
      · intro hchecked
        constructor
        · intro ok t ht
          exact ⟨by simp, (ih (hok ok t ht).1).mpr (hchecked.2 ok t ht)⟩
        · intro e t he
          exact ⟨herror e t he, by simp⟩
    | true =>
      have hnull := h.mpr rfl
      by_cases hc : c.Unchecked s.self.bytesMax
      · -- neither holds: the call stops on the null pointer
        obtain ⟨t, ht⟩ := MethodCall.run_unchecked hnull hc
        refine iff_of_false ?_ (fun hchecked => hchecked.1 rfl hc)
        intro hfails
        exact (hfails.2 _ t ht).1 rfl
      · -- the call returns, and the handle is closed as before
        obtain ⟨ok, t, ht, hheader, _, htransfer⟩ := MethodCall.run_closed hnull hc
        have hrest := ih (iff_of_true hheader rfl)
        constructor
        · intro hfails
          refine ⟨fun _ => hc, ?_⟩
          intro ok' t' ht'
          rw [ht] at ht'
          cases ht'
          exact hrest.mp (hfails.1 ok t ht).2
        · intro hchecked
          have hfails := hrest.mpr (hchecked.2 ok t ht)
          exact Sat.ends ⟨ok, t, ht, fun _ => htransfer, hfails⟩ _

/-- `bytes_max()` is the same in every state of a run, so it is enough to look at the calls. -/
theorem onlyChecked_of_list {closed : Bool} (h : s.self.header = .null ↔ closed = true)
    {calls : List MethodCall} (hcalls : CheckedBehindClose s.self.bytesMax closed calls) :
    OnlyChecked closed calls s := by
  induction calls generalizing closed s with
  | nil => trivial
  | cons c cs ih =>
    obtain ⟨hc, hcs⟩ := hcalls
    refine ⟨hc, ?_⟩
    intro ok t ht
    -- what the next call starts from, whether or not this one was `Close`
    have hstate : (t.self.header = .null ↔ (closed || c.isClose) = true) ∧
        t.self.size = s.self.size := by
      cases closed with
      | false => exact (c.run_open (fun hnull => Bool.false_ne_true (h.mp hnull))).1 ok t ht
      | true =>
        have hspec := (sat_of_run ht).mp (MethodCall.run_closed (h.mpr rfl) (hc rfl))
        exact ⟨iff_of_true hspec.1 rfl, hspec.2.1⟩
    apply ih hstate.1
    rwa [Ringfile.bytesMax, hstate.2]

theorem SuccessfullyOpened.mapped (h : SuccessfullyOpened s) : s.self.header ≠ .null := by
  -- `Open` needs a file at the path, and `Create` none
  rcases h with ⟨self, path, mode, outcomes, hs⟩ | ⟨self, path, size, outcomes, hs⟩
  · obtain ⟨f, rfl⟩ : ∃ f, path = some f := by
      cases path with
      | none => cases h0 : outcomes 0 <;> simp [openFile, h0] at hs
      | some f => exact ⟨f, rfl⟩
    obtain ⟨_, _, rfl⟩ := openFile_opened hs
    cases mode <;> simp [openedState]
  · obtain rfl : path = none := by
      cases path with
      | none => rfl
      | some f => simp [create] at hs
    obtain ⟨_, _, rfl⟩ := create_opened hs
    simp [createdState]

/-- A call that does not look at `header_` fails the worst way right behind a `Close`. -/
theorem not_failsCleanly_close {c : MethodCall} (hc : c.Unchecked s.self.bytesMax) :
    ¬FailsCleanly false [.close, c] s := by
  intro hfails
  -- `Close` returns in any case
  obtain ⟨ok, t, ht, hnull, hsize⟩ := close_null s
  have hmax : t.self.bytesMax = s.self.bytesMax := by
    rw [Ringfile.bytesMax, hsize, Ringfile.bytesMax]
  rw [← hmax] at hc
  obtain ⟨u, hu⟩ := MethodCall.run_unchecked hnull hc
  exact ((hfails.1 ok t ht).2.2 _ u hu).1 rfl

end ClosedHandle

/-- Calls on a handle fail cleanly exactly when, once it is closed, none of them is one that goes to
the header unchecked. -/
theorem fails_cleanly_iff {s : State} (h : SuccessfullyOpened s) (calls : List MethodCall) :
    FailsCleanly false calls s ↔ OnlyChecked false calls s :=
  failsCleanly_iff (iff_of_false h.mapped (by simp)) calls

/-- On a ring of 26 bytes, with a `Write` of 50 that the size check refuses. -/
theorem fails_cleanly_iff_checked :
    ∃ s, create blank.construct none (26+24) allDone = .opened s ∧
      FailsCleanly false [.endOfFile, .close, .nextRecordSize, .read uninitialized 5,
        .write uninitialized 50, .close] s := by
  have hs := create_allDone blank.construct (show 0 < 26+24 by norm_num) (by norm_num)
  refine ⟨_, hs, (fails_cleanly_iff (Or.inr ⟨_, _, _, _, hs⟩) _).mpr ?_⟩
  apply onlyChecked_of_list
  · exact iff_of_false (by simp [createdState]) (by simp)
  · have hbig : ¬u64 (Varint.size 50+50+1) ≤ 26 := by decide +kernel
    exact ⟨by simp, fun _ => id, fun _ => id, fun _ => id, fun _ => hbig, fun _ => id, trivial⟩

/-- A ring of 26 bytes and a reader of it. Behind a `Close` the end of the file cannot be asked for,
nor the number of bytes used, and a record of one byte is not refused. -/
theorem closed_handle_dereferenced :
    ∃ s t, create blank.construct none (26+24) allDone = .opened s ∧
      openFile blank.construct (some s.file) .read allDone = .opened t ∧
      ¬FailsCleanly false [.close, .endOfFile] t ∧ ¬FailsCleanly false [.close, .bytesUsed] t ∧
      ¬FailsCleanly false [.close, .write uninitialized 1] s := by
  have hs := create_allDone blank.construct (show 0 < 26+24 by norm_num) (by norm_num)
  refine ⟨_, _, hs, rfl, ?_, ?_, ?_⟩
  · exact not_failsCleanly_close trivial
  · exact not_failsCleanly_close trivial
  · apply not_failsCleanly_close
    rw [MethodCall.Unchecked]
    decide +kernel

end CircularLog
