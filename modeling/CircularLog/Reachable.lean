import CircularLog.OpenCreate
import CircularLog.StreamingSession

/-! The states a file goes through from `Create` on while every system call does all it is asked
for, and the framing invariant that holds in all of them. -/
namespace CircularLog

/-- A handle on which a write can start, the file holding `L`. -/
structure Ready (M : ℕ) (s : State) (L : List Record) : Prop where
  writable : Writable M s
  ideal : Ideal s
  closed : s.self.streamingWriteOffset = 0
  magic : s.file.header.magic = kMagic
  layout : Layout M s.file L

/-- How a write of `r` ends while every call does all it is asked for: the record is refused, or the
ring holds what `afterWrite` says. -/
inductive Recorded (M : ℕ) (s : State) (L : List Record) (r : Record) : Bool → State → Prop
  | refused (hbig : M ≤ frameSize r) : Recorded M s L r false s
  | written {t : State} {P K : List Record} (hsmall : frameSize r < M) (hL : L = P ++ K)
      (hK : K = keep frameSize (M-frameSize r) L) (hc : Completed M s t P K (frame r))
      (ht : Ready M t (afterWrite M L r)) : Recorded M s L r true t

section Ready
variable {M : ℕ} {s t : State} {L P K : List Record} {r : Record}

theorem frame_eq (r : Record) (behind : Buffer) :
    Varint.encode r.length ++ contents (memory r behind) r.length = frame r := by
  rw [contents_memory, frame]

theorem afterWrite_suffix (M : ℕ) (L : List Record) (r : Record) :
    afterWrite M L r <:+ L ++ [r] := by
  unfold afterWrite
  dsimp only
  split_ifs
  · exact List.nil_suffix
  · obtain ⟨P, hP⟩ := keep_suffix frameSize (M-frameSize r) L
    exact ⟨P, by rw [← List.append_assoc, hP]⟩

theorem Completed.ready (hc : Completed M s t P K (frame r)) (h : Ready M s (P ++ K))
    (hr : frameSize r < M) (hK : K = keep frameSize (M-frameSize r) (P ++ K))
    (hfd : t.self.fd = s.self.fd) (hheader : t.self.header = s.self.header)
    (hsize : t.self.size = s.self.size) (hclosed : t.self.streamingWriteOffset = 0) :
    Ready M t (afterWrite M (P ++ K) r) := by
  refine ⟨?_, hc.ideal h.ideal, hclosed, ?_, ?_⟩
  · exact h.writable.congr hfd hheader hsize hc.file.length
  · rw [hc.file.header]
    exact h.magic
  · exact hc.file.layout h.layout (by omega) hK

theorem WriteResult.recorded {ok : Bool} (hw : WriteResult M r.length s L (frame r) ok t)
    (h : Ready M s L) (hfd : t.self.fd = s.self.fd) (hheader : t.self.header = s.self.header)
    (hsize : t.self.size = s.self.size) (hclosed : t.self.streamingWriteOffset = 0) :
    Recorded M s L r ok t := by
  have hframe : frameSize r = Varint.size r.length+r.length := rfl
  cases hw with
  | refused hbig => exact .refused (by omega)
  | cut _ _ hfault => exact absurd h.ideal hfault
  | completed hsmall hL hK hc =>
    subst hL
    exact .written hsmall rfl hK hc (hc.ready h hsmall hK hfd hheader hsize hclosed)

/-- `Write` of a record that is not empty succeeds exactly when the record fits. -/
theorem write_ready (h : Ready M s L) (hM : 10 ≤ M) (behind : Buffer) (hne : r ≠ [])
    (hr : r.length < 2^63) :
    Sat (write (memory r behind) r.length) s (fun ok t => Recorded M s L r ok t ∧
      t.self = { s.self with error := t.self.error }) := by
  have hs := Varint.size_le (show r.length < 2^64 by omega)
  refine (write_spec h.writable h.layout (Or.inl hM) (memory r behind) (List.length_pos_iff.mpr hne)
    (by omega)).mono ?_
  intro ok t hspec
  obtain ⟨hw, hself⟩ := hspec
  rw [frame_eq] at hw
  refine ⟨?_, hself⟩
  apply hw.recorded h
  all_goals rw [hself]
  exact h.closed

/-- A streaming session succeeds exactly when the record fits, the empty record included. -/
theorem stream_ready (h : Ready M s L) (hM : 10 ≤ M) (behind : Buffer) {chunks : List (List UInt8)}
    (hne : ∀ c ∈ chunks, c ≠ []) (hr : chunks.flatten.length < 2^63) :
    Sat (streamRecord behind chunks.flatten.length chunks) s (fun ok t =>
      Recorded M s L chunks.flatten ok t ∧ (ok = true → t.self = { s.self with
        error := t.self.error
        streamingWriteOffset := 0
        streamingWriteBytesRemaining := 0 })) := by
  have hs := Varint.size_le (show chunks.flatten.length < 2^64 by omega)
  refine (streamRecord_spec h.writable hM h.layout h.closed behind chunks hne rfl
    (by omega)).mono ?_
  intro ok t hspec
  obtain ⟨hw, hself⟩ := hspec
  refine ⟨?_, hself⟩
  cases ok with
  | false =>
    -- a refusal, since no call fails
    cases hw with
    | refused hbig => exact .refused (by unfold frameSize; omega)
    | cut _ _ hfault => exact absurd h.ideal hfault
  | true =>
    apply WriteResult.recorded hw h
    all_goals rw [hself rfl]

theorem createdState_writable (self : Ringfile) (outcomes : ℕ → Outcome) (hsize : M+24 < 2^63) :
    Writable M (createdState self (M+24) outcomes) := ⟨rfl, rfl, rfl, rfl, hsize⟩

theorem createdState_layout (self : Ringfile) (outcomes : ℕ → Outcome) (hM : 0 < M) :
    Layout M (createdState self (M+24) outcomes).file [] :=
  ⟨hM, (Nat.zero_mod M).symm, hM, stored_nil _ _ _⟩

theorem create_fresh {self : Ringfile} (hclosed : self.streamingWriteOffset = 0) (hM : 0 < M)
    (hsize : M+24 < 2^63) :
    ∃ s, create self none (M+24) allDone = .opened s ∧ Ready M s [] ∧
      s.file.header.startOffset = 0 ∧ ∀ p, s.file.data p = 0 := by
  -- a new file is all zeros, and both offsets are set to zero
  refine ⟨_, create_allDone self (by omega) hsize, ?_, rfl, fun _ => rfl⟩
  exact ⟨createdState_writable self allDone hsize, fun _ => rfl, hclosed, rfl,
    createdState_layout self allDone hM⟩

theorem create_ready (junk : Ringfile) (hM : 0 < M) (hsize : M+24 < 2^63) :
    ∃ s, create junk.construct none (M+24) allDone = .opened s ∧ Ready M s [] ∧
      s.file.header.startOffset = 0 ∧ ∀ p, s.file.data p = 0 :=
  create_fresh rfl hM hsize

theorem reopen_ready (h : Ready M s L) (junk : Ringfile) :
    Sat (reopen junk) s (fun ok t => ok = true ∧ Ready M t L ∧ t.file = s.file) := by
  have hlen := h.writable.length
  rw [reopen, close, sat_bind, sat_bind, sat_modify, sat_pure]
  refine ⟨true, openedState junk.construct s.file .append s.outcomes, ?_, rfl, ?_, rfl⟩
  · rw [openAgain, openFile_eq junk.construct .append h.ideal (by omega) h.magic]
  · exact ⟨⟨rfl, rfl, hlen, hlen, h.writable.bound⟩, fun i => h.ideal (i+3), rfl, h.magic, h.layout⟩

end Ready

/-- One step of a program that writes to a ring; `behind` is the memory that follows the data. -/
inductive Operation
  | write (r : Record) (behind : Buffer)
  | stream (chunks : List (List UInt8)) (behind : Buffer)
  | reopen (junk : Ringfile)

/-- A plain record is not empty, and neither are the chunks of a session. -/
def Operation.Valid : Operation → Prop
  | .write r _ => r ≠ [] ∧ r.length < 2^63
  | .stream chunks _ => (∀ c ∈ chunks, c ≠ []) ∧ chunks.flatten.length < 2^63
  | .reopen _ => True

/-- Carry out a step; the result lists the record it wrote, if it did. -/
def Operation.run : Operation → Op (List Record)
  | .write r behind => do
    if ← CircularLog.write (memory r behind) r.length then return [r] else return []
  | .stream chunks behind => do
    if ← streamRecord behind chunks.flatten.length chunks then return [chunks.flatten]
    else return []
  | .reopen junk => do
    let _ ← CircularLog.reopen junk
    return []

/-- Carry out a sequence of steps; the result lists the records whose write succeeded, in order. -/
def runAll : List Operation → Op (List Record)
  | [] => return []
  | o :: ops => do
    let W ← o.run
    return W ++ (← runAll ops)

/-- One step keeps the handle ready, and a suffix of the records there were and the one written. -/
theorem Operation.run_spec {M : ℕ} {s : State} {L : List Record} (hM : 10 ≤ M) {o : Operation}
    (ho : o.Valid) (h : Ready M s L) :
    Sat o.run s (fun W t => ∃ K, K <:+ L ++ W ∧ Ready M t K) := by
  cases o with
  | write r behind =>
    apply (write_ready h hM behind ho.1 ho.2).bind
    intro ok t hspec
    cases hspec.1 with
    | refused hbig => exact sat_pure.mpr ⟨L, by simp, h⟩
    | written _ _ _ _ ht => exact sat_pure.mpr ⟨_, afterWrite_suffix M L r, ht⟩
  | stream chunks behind =>
    apply (stream_ready h hM behind ho.1 ho.2).bind
    intro ok t hspec
    cases hspec.1 with
    | refused hbig => exact sat_pure.mpr ⟨L, by simp, h⟩
    | written _ _ _ _ ht => exact sat_pure.mpr ⟨_, afterWrite_suffix M L _, ht⟩
  | reopen junk =>
    apply (reopen_ready h junk).bind
    intro ok t hspec
    obtain ⟨_, ht, _⟩ := hspec
    exact sat_pure.mpr ⟨L, by simp, ht⟩

theorem runAll_spec {M : ℕ} {s : State} {L : List Record} (hM : 10 ≤ M) (ops : List Operation)
    (hops : ∀ o ∈ ops, o.Valid) (h : Ready M s L) :
    Sat (runAll ops) s (fun W t => ∃ K, K <:+ L ++ W ∧ Ready M t K) := by
  -- a suffix of a suffix, extended by what the later steps write
  induction ops generalizing s L with
  | nil => exact sat_pure.mpr ⟨L, by simp, h⟩
  | cons o ops ih =>
    apply (o.run_spec hM (hops o List.mem_cons_self) h).bind
    intro W t hspec
    obtain ⟨K, hK, ht⟩ := hspec
    apply (ih (fun o ho => hops o (List.mem_cons_of_mem _ ho)) ht).bind
    intro V u hspec
    obtain ⟨J, hJ, hu⟩ := hspec
    obtain ⟨P, hP⟩ := hK
    have hV : K ++ V <:+ L ++ (W ++ V) := ⟨P, by rw [← List.append_assoc, hP, List.append_assoc]⟩
    exact sat_pure.mpr ⟨J, hJ.trans hV, hu⟩

/-- After any sequence of steps the offsets lie in the area, the bytes between them are the frames
of a suffix of the records written, and `bytes_used` is their total length. -/
theorem framing_invariant {M : ℕ} (hM : 10 ≤ M) (hsize : M+24 < 2^63) (junk : Ringfile)
    (ops : List Operation) (hops : ∀ o ∈ ops, o.Valid) :
    ∃ s, create junk.construct none (M+24) allDone = .opened s ∧ Sat (runAll ops) s (fun W t =>
      t.file.header.startOffset < M ∧ t.file.header.endOffset < M ∧ ∃ K, K <:+ W ∧
        slice M t.file.data t.file.header.startOffset
          ((t.file.header.endOffset+(M-t.file.header.startOffset))%M) = frames K ∧
        Sat bytesUsed t (fun n _ => n = (frames K).length)) := by
  obtain ⟨s, hs, hready, _⟩ := create_ready junk (by omega) hsize
  refine ⟨s, hs, (runAll_spec hM ops hops hready).mono ?_⟩
  intro W t hspec
  obtain ⟨K, hK, ht⟩ := hspec
  have hl := ht.layout
  refine ⟨hl.start_lt, hl.end_lt, K, hK, ?_, ?_⟩
  · rw [hl.distance, ← frames_length]
    exact hl.bytes
  · rw [sat_bytesUsed ht.writable.usable hl, frames_length]

theorem framing_invariant_mixed :
    ∃ s, create blank.construct none (26+24) allDone = .opened s ∧
      Sat (runAll [.write [1, 2, 3] uninitialized, .stream [[4], [5, 6]] uninitialized,
        .reopen blank, .stream [] uninitialized]) s (fun W t =>
      t.file.header.startOffset < 26 ∧ t.file.header.endOffset < 26 ∧ ∃ K, K <:+ W ∧
        slice 26 t.file.data t.file.header.startOffset
          ((t.file.header.endOffset+(26-t.file.header.startOffset))%26) = frames K ∧
        Sat bytesUsed t (fun n _ => n = (frames K).length)) :=
  framing_invariant (by norm_num) (by norm_num) blank _ (by simp [Operation.Valid])

end CircularLog
