import CircularLog.RecordRead

/-! A reader against a queue. Whatever calls it makes, in whatever order, the handle answers as a
queue of records does from which `Read` and `StreamingReadStart` take the front. -/
namespace CircularLog

/-- A call of a reader, with the memory it hands over. -/
inductive ReaderCall
  | nextRecordSize
  | read (buffer : Buffer) (bufferSize : ℕ)
  | streamingReadStart
  | streamingRead (ptr : Buffer) (size : ℕ)
  | streamingReadFinish

/-- What a call returns and leaves in the memory it was given. -/
inductive Answer
  | size (n : Option ℕ)
  | read (ok : Bool) (buffer : Buffer)
  | started (n : ℕ)
  | delivered (n : ℕ) (buffer : Buffer)
  | finished (ok : Bool)

def ReaderCall.run : ReaderCall → Op Answer
  | .nextRecordSize => return .size (← CircularLog.nextRecordSize)
  | .read buffer bufferSize => do
    let (ok, buffer) ← CircularLog.read buffer bufferSize
    return .read ok buffer
  | .streamingReadStart => return .started (← CircularLog.streamingReadStart)
  | .streamingRead ptr size => do
    let (n, buffer) ← CircularLog.streamingRead ptr size
    return .delivered n buffer
  | .streamingReadFinish => return .finished (← CircularLog.streamingReadFinish)

def runCalls : List ReaderCall → Op (List Answer)
  | [] => return []
  | call :: calls => do
    let answer ← call.run
    return answer :: (← runCalls calls)

/-- The records not yet taken, and what is left of the record of an open streaming session. -/
structure Queue where
  unread : List Record
  session : Option (List UInt8)

/-- The answer of the queue and the queue afterwards. A call out of protocol has no answer: a `Read`
with nothing unread, a session inside a session, a call of a session outside one. -/
def Queue.call : Queue → ReaderCall → Option (Answer × Queue)
  | ⟨U, session⟩, .nextRecordSize => some (.size (U.head?.map List.length), ⟨U, session⟩)
  | ⟨r :: U, session⟩, .read buffer bufferSize =>
    if r.length ≤ bufferSize then some (.read true (overlay r buffer), ⟨U, session⟩)
    else some (.read false buffer, ⟨r :: U, session⟩)
  | ⟨r :: U, none⟩, .streamingReadStart => some (.started r.length, ⟨U, some r⟩)
  | ⟨[], none⟩, .streamingReadStart => some (.started minusOne, ⟨[], none⟩)
  | ⟨U, some rest⟩, .streamingRead ptr size =>
    some (.delivered (min size rest.length) (overlay (rest.take size) ptr),
      ⟨U, some (rest.drop size)⟩)
  | ⟨U, some _⟩, .streamingReadFinish => some (.finished true, ⟨U, none⟩)
  | _, _ => none

def Queue.calls : Queue → List ReaderCall → Option (List Answer × Queue)
  | q, [] => some ([], q)
  | q, call :: calls => do
    let (answer, q) ← q.call call
    let (answers, q) ← q.calls calls
    return (answer :: answers, q)

/-- The answers that take a record off the queue. -/
def Answer.takes : Answer → Bool
  | .read ok _ => ok
  | .started n => n != minusOne
  | _ => false

/-- The handle is where the queue says. -/
structure Serves (M : ℕ) (s : State) (q : Queue) : Prop where
  unread : Unread M s q.unread
  nonempty : ∀ r ∈ q.unread, r ≠ []
  ideal : Ideal s
  closed : q.session = none → s.self.streamingReadOffset = 0
  session : ∀ rest, q.session = some rest → Reading M s rest q.unread

/-- A file that holds the records `L`, the first one anywhere. -/
structure WellFormed (M : ℕ) (f : File) (L : List Record) : Prop where
  length : f.length = M+24
  bound : M+24 < 2^63
  magic : f.header.magic = kMagic
  layout : Layout M f L
  nonempty : ∀ r ∈ L, r ≠ []

/-- A file that holds `L` from `start` on, with zeros elsewhere. -/
def File.holding (M start : ℕ) (L : List Record) : File where
  header := ⟨kMagic, 0, start, (start+used L)%M⟩
  data p := (frames L).getD ((p+(M-start))%M) 0
  length := M+24

theorem wellFormed_holding {M start : ℕ} {L : List Record} (hs : start < M) (hL : used L < M)
    (hM : M+24 < 2^63) (hne : ∀ r ∈ L, r ≠ []) : WellFormed M (File.holding M start L) L := by
  refine ⟨rfl, hM, rfl, ⟨hs, rfl, hL, ?_⟩, hne⟩
  apply stored_iff.mpr
  intro i hi
  have hlt : i < M := by
    rw [frames_length] at hi
    omega
  -- the cell met after `i` steps holds entry `i`
  have hindex : ((start+i)%M+(M-start))%M = i := by
    rw [Nat.mod_add_mod, show start+i+(M-start) = i+M by omega, Nat.add_mod_right,
      Nat.mod_eq_of_lt hlt]
  dsimp only [File.holding]
  rw [hindex]
  rw [List.getD_eq_getElem?_getD, List.getElem?_eq_getElem hi, Option.getD_some]

section ReaderRuns
variable {M : ℕ} {s t : State} {f : File} {q q' : Queue} {L : List Record}

theorem Reading.congr {rest : List UInt8} {U V : List Record} (h : Reading M s rest U)
    (hu : Unread M t V) (hf : t.file = s.file)
    (hoff : t.self.streamingReadOffset = s.self.streamingReadOffset)
    (hrem : t.self.streamingReadBytesRemaining = s.self.streamingReadBytesRemaining) :
    Reading M t rest V := by
  refine ⟨hu, ?_, ?_, h.fits, ?_⟩
  · rw [hrem]
    exact h.remaining
  · rw [hf, hoff]
    exact h.stored
  · rw [hoff]
    exact h.bound

theorem Serves.congr (h : Serves M s q) {V : List Record} (hu : Unread M t V)
    (hV : ∀ r ∈ V, r ≠ []) (hl : Looked s t)
    (hoff : t.self.streamingReadOffset = s.self.streamingReadOffset)
    (hrem : t.self.streamingReadBytesRemaining = s.self.streamingReadBytesRemaining) :
    Serves M t ⟨V, q.session⟩ := by
  refine ⟨hu, hV, hl.ideal h.ideal, ?_, ?_⟩
  · intro hn
    rw [hoff]
    exact h.closed hn
  · intro rest hr
    exact (h.session rest hr).congr hu hl.file hoff hrem

/-- A reader that opens the file starts with all its records unread. -/
theorem Layout.open_unread (hl : Layout M f L) (hlen : f.length = M+24) (hb : M+24 < 2^63)
    (hmagic : f.header.magic = kMagic) (junk : Ringfile) :
    ∃ s, openFile junk.construct (some f) .read allDone = .opened s ∧ s.file = f ∧ Ideal s ∧
      Unread M s L ∧ s.self.readOffset = f.header.startOffset ∧ s.self.streamingReadOffset = 0 := by
  refine ⟨openedState junk.construct f .read allDone, ?_, rfl, fun _ => rfl, ?_, rfl, rfl⟩
  · apply openFile_eq junk.construct .read (fun _ => rfl)
    · omega
    · exact hmagic
  · refine ⟨⟨?_, ?_, hlen, hlen, hb⟩, hl⟩
    · simp [openedState]
    · simp [openedState]

theorem WellFormed.open_serves (h : WellFormed M f L) (junk : Ringfile) :
    ∃ s, openFile junk.construct (some f) .read allDone = .opened s ∧ s.file = f ∧
      Serves M s ⟨L, none⟩ := by
  obtain ⟨s, hs, hf, hi, hu, _, hclosed⟩ := h.layout.open_unread h.length h.bound h.magic junk
  refine ⟨s, hs, hf, hu, h.nonempty, hi, fun _ => hclosed, ?_⟩
  intro rest hr
  cases hr

theorem ReaderCall.run_spec (hM : 10 ≤ M) (h : Serves M s q) {call : ReaderCall} {answer : Answer}
    (hq : q.call call = some (answer, q')) :
    Sat call.run s (fun a t => a = answer ∧ t.file = s.file ∧ Serves M t q') := by
  obtain ⟨U, session⟩ := q
  cases call with
  | nextRecordSize =>
    cases hq
    cases U with
    | nil =>
      apply (nextRecordSize_none h.unread).bind
      intro v t hspec
      obtain ⟨rfl, rfl⟩ := hspec
      exact sat_pure.mpr ⟨rfl, rfl, h⟩
    | cons r U =>
      apply (nextRecordSize_spec hM h.unread).bind
      intro v t hspec
      obtain ⟨hl, hself, hu, _, hv⟩ := hspec
      rw [hv h.ideal]
      -- the cursor stays, and so does an open session
      refine sat_pure.mpr ⟨rfl, hl.file, h.congr hu h.nonempty hl ?_ ?_⟩ <;> rw [hself]
  | read buffer bufferSize =>
    cases U with
    | nil => cases hq
    | cons r U =>
      apply (read_spec hM h.unread (h.nonempty r List.mem_cons_self) buffer bufferSize).bind
      intro v t hspec
      obtain ⟨ok, buffer'⟩ := v
      obtain ⟨hl, hcases, hsmall, hroom⟩ := hspec
      rw [Queue.call] at hq
      split_ifs at hq with hfit <;> cases hq
      · -- there is room, so the record is taken
        rcases hcases with ⟨hno, _⟩ | ⟨hv, _, hu, hself⟩
        · exact absurd (hroom h.ideal hfit) (ne_true_of_eq_false hno)
        · cases hv
          refine sat_pure.mpr ⟨rfl, hl.file, h.congr hu ?_ hl ?_ ?_⟩
          · exact fun r hr => h.nonempty r (List.mem_cons_of_mem _ hr)
          · rw [hself]
          · rw [hself]
      · -- there is none, so it stays
        rcases hcases with ⟨_, hself, hu⟩ | ⟨_, hle, _, _⟩
        · cases hsmall (by omega)
          refine sat_pure.mpr ⟨rfl, hl.file, h.congr hu h.nonempty hl ?_ ?_⟩ <;> rw [hself]
        · exact absurd hle hfit
  | streamingReadStart =>
    cases session with
    -- a session inside a session is out of protocol
    | some rest => cases U <;> cases hq
    | none =>
      have hopen := h.closed rfl
      cases U with
      | nil =>
        cases hq
        apply (streamingReadStart_none h.unread hopen).bind
        intro v t hspec
        obtain ⟨rfl, rfl⟩ := hspec
        exact sat_pure.mpr ⟨rfl, rfl, h⟩
      | cons r U =>
        cases hq
        apply (streamingReadStart_spec hM h.unread hopen).bind
        intro v t hspec
        obtain ⟨hl, _, hi⟩ := hspec
        obtain ⟨rfl, hr⟩ := hi h.ideal
        refine sat_pure.mpr ⟨rfl, hl.file, hr.unread, ?_, hl.ideal h.ideal, by simp, ?_⟩
        · exact fun r hr => h.nonempty r (List.mem_cons_of_mem _ hr)
        · intro rest hrest
          cases hrest
          exact hr
  | streamingRead ptr size =>
    cases session with
    | none => cases U <;> cases hq
    | some rest =>
      have hreading := h.session rest rfl
      have hq' : some (Answer.delivered (min size rest.length) (overlay (rest.take size) ptr),
          (⟨U, some (rest.drop size)⟩ : Queue)) = some (answer, q') := by
        cases U <;> exact hq
      cases hq'
      apply (streamingRead_spec hreading ptr size).bind
      intro v t hspec
      obtain ⟨hl, _, hi⟩ := hspec
      obtain ⟨rfl, hr⟩ := hi h.ideal
      refine sat_pure.mpr ⟨rfl, hl.file, hr.unread, h.nonempty, hl.ideal h.ideal, by simp, ?_⟩
      intro rest' hrest
      cases hrest
      exact hr
  | streamingReadFinish =>
    cases session with
    | none => cases U <;> cases hq
    | some rest =>
      have hq' : some (Answer.finished true, (⟨U, none⟩ : Queue)) = some (answer, q') := by
        cases U <;> exact hq
      cases hq'
      apply (streamingReadFinish_spec (h.session rest rfl)).bind
      intro v t hspec
      obtain ⟨rfl, hl, hu, hoff⟩ := hspec
      exact sat_pure.mpr ⟨rfl, hl.file, hu, h.nonempty, hl.ideal h.ideal, fun _ => hoff, by simp⟩

theorem runCalls_spec (hM : 10 ≤ M) (calls : List ReaderCall) {answers : List Answer}
    (h : Serves M s q) (hq : q.calls calls = some (answers, q')) :
    Sat (runCalls calls) s (fun a t => a = answers ∧ t.file = s.file ∧ Serves M t q') := by
  induction calls generalizing s q answers with
  | nil =>
    cases hq
    exact sat_pure.mpr ⟨rfl, rfl, h⟩
  | cons call calls ih =>
    rw [Queue.calls] at hq
    obtain ⟨⟨answer, q₁⟩, hq₁, hq⟩ := Option.bind_eq_some_iff.mp hq
    obtain ⟨⟨answers₁, q₂⟩, hq₂, hq⟩ := Option.bind_eq_some_iff.mp hq
    cases hq
    apply (call.run_spec hM h hq₁).bind
    intro a t hspec
    obtain ⟨rfl, hf, ht⟩ := hspec
    apply (ih ht hq₂).bind
    intro b u hspec
    obtain ⟨rfl, hf', hu⟩ := hspec
    exact sat_pure.mpr ⟨rfl, hf'.trans hf, hu⟩

theorem Queue.call_unread {call : ReaderCall} {answer : Answer}
    (h : q.call call = some (answer, q')) (hlen : ∀ r ∈ q.unread, r.length < minusOne) :
    ∃ taken, q.unread = taken ++ q'.unread ∧ taken.length = [answer].countP Answer.takes := by
  obtain ⟨U, session⟩ := q
  cases call with
  | nextRecordSize =>
    cases h
    exact ⟨[], rfl, rfl⟩
  | read buffer bufferSize =>
    cases U with
    | nil => cases h
    | cons r U =>
      rw [Queue.call] at h
      split_ifs at h <;> cases h
      · exact ⟨[r], rfl, rfl⟩
      · exact ⟨[], rfl, rfl⟩
  | streamingReadStart =>
    cases session with
    | some rest => cases U <;> cases h
    | none =>
      cases U with
      | nil =>
        cases h
        exact ⟨[], rfl, rfl⟩
      | cons r U =>
        cases h
        have hr := hlen r List.mem_cons_self
        -- a length is never the value -1 that says there is nothing
        have htakes : (Answer.started r.length).takes = true := by
          simp only [Answer.takes, bne_iff_ne]
          omega
        refine ⟨[r], rfl, ?_⟩
        rw [List.countP_singleton, if_pos htakes, List.length_singleton]
  | streamingRead ptr size =>
    cases session with
    | none => cases U <;> cases h
    | some rest =>
      cases U <;> cases h <;> exact ⟨[], rfl, rfl⟩
  | streamingReadFinish =>
    cases session with
    | none => cases U <;> cases h
    | some rest =>
      cases U <;> cases h <;> exact ⟨[], rfl, rfl⟩

/-- The records taken are the front of the queue, one for each answer that takes a record. -/
theorem Queue.calls_unread (calls : List ReaderCall) {answers : List Answer}
    (h : q.calls calls = some (answers, q')) (hlen : ∀ r ∈ q.unread, r.length < minusOne) :
    ∃ taken, q.unread = taken ++ q'.unread ∧ taken.length = answers.countP Answer.takes := by
  induction calls generalizing q answers with
  | nil =>
    cases h
    exact ⟨[], rfl, rfl⟩
  | cons call calls ih =>
    rw [Queue.calls] at h
    obtain ⟨⟨answer, q₁⟩, hq₁, h⟩ := Option.bind_eq_some_iff.mp h
    obtain ⟨⟨answers₁, q₂⟩, hq₂, h⟩ := Option.bind_eq_some_iff.mp h
    cases h
    obtain ⟨front, hfront, hcount⟩ := q.call_unread hq₁ hlen
    obtain ⟨taken, htaken, hcount'⟩ := ih hq₂
      (fun r hr => hlen r (by rw [hfront]; exact List.mem_append_right _ hr))
    refine ⟨front ++ taken, by rw [hfront, htaken, List.append_assoc], ?_⟩
    have hsplit : ([answer] ++ answers₁).countP Answer.takes =
        [answer].countP Answer.takes+answers₁.countP Answer.takes := List.countP_append
    rw [List.length_append, hcount, hcount', ← hsplit, List.singleton_append]

theorem Layout.length_lt {r : Record} (h : Layout M f L) (hr : r ∈ L) : r.length < M := by
  obtain ⟨A, B, rfl⟩ := List.append_of_mem hr
  have hfits := h.fits
  rw [used_append, used_cons, frameSize] at hfits
  omega

end ReaderRuns

/-- In a run of a reader that opened a well-formed file every call answers as the queue does: the
records are taken one by one and in order, and the file is not changed. -/
theorem reader_run {M : ℕ} (hM : 10 ≤ M) {f : File} {L : List Record} (hw : WellFormed M f L)
    (junk : Ringfile) (calls : List ReaderCall) {answers : List Answer} {q : Queue}
    (hq : (Queue.mk L none).calls calls = some (answers, q)) :
    ∃ s, openFile junk.construct (some f) .read allDone = .opened s ∧
      Sat (runCalls calls) s (fun a t =>
      a = answers ∧ t.file = f ∧ Unread M t q.unread ∧
        (∃ taken, L = taken ++ q.unread ∧ taken.length = answers.countP Answer.takes) ∧
        Sat endOfFile t (fun atEnd _ => atEnd = true ↔ q.unread = [])) := by
  obtain ⟨s, hs, hf, hserves⟩ := hw.open_serves junk
  refine ⟨s, hs, (runCalls_spec hM calls hserves hq).mono ?_⟩
  intro a t hspec
  obtain ⟨rfl, hfile, ht⟩ := hspec
  refine ⟨rfl, hfile.trans hf, ht.unread, ?_, ?_⟩
  · apply Queue.calls_unread calls hq
    intro r hr
    have hlen := hw.layout.length_lt hr
    have hb := hw.bound
    unfold minusOne
    omega
  · rw [endOfFile, sat_bind, sat_get, sat_bind, sat_mappedHeader ht.unread.usable.header, sat_pure,
      beq_iff_eq]
    exact ht.unread.end_iff

theorem reader_run_mixed :
    ∃ s, openFile blank.construct (some (File.holding 26 24 [[1, 2, 3], [4, 5]])) .read allDone =
        .opened s ∧
      Sat (runCalls [.nextRecordSize, .read uninitialized 2, .read uninitialized 3,
        .streamingReadStart, .streamingRead uninitialized 1, .streamingReadFinish]) s (fun a t =>
        a = [.size (some 3), .read false uninitialized,
          .read true (overlay [1, 2, 3] uninitialized), .started 2,
          .delivered 1 (overlay [4] uninitialized), .finished true] ∧
        t.file = File.holding 26 24 [[1, 2, 3], [4, 5]] ∧ Unread 26 t [] ∧
        (∃ taken : List Record, [[1, 2, 3], [4, 5]] = taken ++ [] ∧ taken.length = 2) ∧
        Sat endOfFile t (fun atEnd _ => atEnd = true ↔ ([] : List Record) = [])) := by
  -- the first record runs over the end of the area
  have hw : WellFormed 26 (File.holding 26 24 [[1, 2, 3], [4, 5]]) [[1, 2, 3], [4, 5]] :=
    wellFormed_holding (by norm_num) (by decide) (by norm_num) (by simp)
  have hq : (Queue.mk [[1, 2, 3], [4, 5]] none).calls [.nextRecordSize, .read uninitialized 2,
      .read uninitialized 3, .streamingReadStart, .streamingRead uninitialized 1,
      .streamingReadFinish] = some ([.size (some 3), .read false uninitialized,
        .read true (overlay [1, 2, 3] uninitialized), .started 2,
        .delivered 1 (overlay [4] uninitialized), .finished true], ⟨[], none⟩) := rfl
  exact reader_run (by norm_num) hw blank _ hq

end CircularLog
