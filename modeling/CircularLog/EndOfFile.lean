import CircularLog.Histories
import CircularLog.UncheckedReads

/-! Four functions decide whether there is another record. Three of them compare the cursor with
`end_offset`; `Read` decodes what it finds at the cursor. -/
namespace CircularLog

/-- The four functions agree: at the end of file none of them delivers a record or moves the cursor,
and before it all of them do, given a buffer that is large enough. -/
structure AgreeOnEnd (s : State) : Prop where
  atEnd : resultOf endOfFile s = some true →
    Sat nextRecordSize s (fun v t => v = none ∧ t.self.readOffset = s.self.readOffset) ∧
    Sat streamingReadStart s (fun v t => v = minusOne ∧ t.self.readOffset = s.self.readOffset) ∧
    ∀ buffer, ∀ bufferSize < 2^64, Sat (read buffer bufferSize) s
      (fun v t => v.1 = false ∧ t.self.readOffset = s.self.readOffset)
  before : resultOf endOfFile s = some false → ∃ n < minusOne,
    Sat nextRecordSize s (fun v _ => v = some n) ∧ Sat streamingReadStart s (fun v _ => v = n) ∧
    ∀ buffer bufferSize, n ≤ bufferSize → Sat (read buffer bufferSize) s (fun v _ => v.1 = true)

/-- What lies at `end_offset` decodes to a length that no transfer from there on can deliver. -/
def StaleStops (M : ℕ) (f : File) : Prop :=
  ∃ n v, Varint.read (window M f f.header.endOffset) = some (n, v) ∧
    Undeliverable M (f.header.endOffset+n) v

section EndOfFile
variable {M : ℕ} {s : State} {U : List Record}

theorem endOfFile_run (h : Usable M s) :
    resultOf endOfFile s = some (s.self.readOffset == s.file.header.endOffset) := by
  apply resultOf_eq_some.mpr
  refine ⟨s, ?_⟩
  apply run_of_sat
  rw [endOfFile, sat_bind, sat_get, sat_bind, sat_mappedHeader h.header, sat_pure]
  exact ⟨rfl, rfl⟩

/-- Before the end, every way to read the next record works. -/
theorem agree_before (hM : 10 ≤ M) (h : Unread M s U) (hU : ∀ r ∈ U, r ≠ []) (hi : Ideal s)
    (hopen : s.self.streamingReadOffset = 0)
    (hne : s.self.readOffset ≠ s.file.header.endOffset) : AgreeOnEnd s := by
  have heof : resultOf endOfFile s = some false := by
    rw [endOfFile_run h.usable, beq_eq_false_iff_ne.mpr hne]
  have hb := h.usable.bound
  cases U with
  | nil => exact absurd (h.end_iff.mpr rfl) hne
  | cons r U =>
    -- the record is not empty, so its payload can be transferred
    have hr := hU r List.mem_cons_self
    have hlen := h.layout.length_lt (r := r) List.mem_cons_self
    refine ⟨fun hend => ?_, fun _ => ⟨r.length, ?_, ?_, ?_, ?_⟩⟩
    · rw [heof] at hend
      cases hend
    · unfold minusOne
      omega
    · refine (nextRecordSize_spec hM h).mono ?_
      intro v t hspec
      exact hspec.2.2.2.2 hi
    · refine (streamingReadStart_spec hM h hopen).mono ?_
      intro v t hspec
      exact (hspec.2.2 hi).1
    · intro buffer bufferSize hroom
      refine (read_spec hM h hr buffer bufferSize).mono ?_
      intro v t hspec
      exact hspec.2.2.2 hi hroom

/-- At the end, they agree exactly when the stale bytes there stop `Read`. -/
theorem agree_atEnd_iff (hM : 10 ≤ M) (h : Unread M s []) (hi : Ideal s)
    (hopen : s.self.streamingReadOffset = 0) : AgreeOnEnd s ↔ StaleStops M s.file := by
  have hend : s.self.readOffset = s.file.header.endOffset := h.end_iff.mpr rfl
  have hb := h.usable.bound
  have hlt : s.self.readOffset < M := h.layout.start_lt
  have heof : resultOf endOfFile s = some true := by
    rw [endOfFile_run h.usable, beq_iff_eq.mpr hend]
  unfold StaleStops
  rw [← hend]
  constructor
  · intro hagree
    obtain ⟨_, _, hread⟩ := hagree.atEnd heof
    cases hd : Varint.read (window M s.file s.self.readOffset) with
    | none =>
      -- `Varint::Read` would not return
      exact absurd (hread uninitialized 0 (by norm_num))
        (read_undecoded h.usable hi hM hd uninitialized 0).not_sat
    | some d =>
      obtain ⟨n, v⟩ := d
      obtain ⟨_, hn, hv⟩ := Varint.read_bound hd
      refine ⟨n, v, rfl, ?_⟩
      by_contra hgo
      -- with room for the stale length, the transfer would succeed
      obtain ⟨w, t, _, ⟨hw, _⟩, hw', _⟩ :=
        (hread uninitialized v hv).and (read_decoded h.usable hi hM hd uninitialized v)
      rw [u64_of_lt (by omega), decide_eq_true ⟨le_rfl, hgo⟩, hw] at hw'
      cases hw'
  · intro hstops
    obtain ⟨n, v, hd, hstop⟩ := hstops
    obtain ⟨_, hn, hv⟩ := Varint.read_bound hd
    -- two of the calls compare the cursor with `end_offset`, and `Read` fails on the stale length
    refine ⟨fun _ => ⟨?_, ?_, ?_⟩, fun hno => ?_⟩
    · refine (nextRecordSize_none h).mono ?_
      intro r t hspec
      obtain ⟨rfl, rfl⟩ := hspec
      exact ⟨rfl, rfl⟩
    · refine (streamingReadStart_none h hopen).mono ?_
      intro r t hspec
      obtain ⟨rfl, rfl⟩ := hspec
      exact ⟨rfl, rfl⟩
    · intro buffer bufferSize _
      refine (read_decoded h.usable hi hM hd buffer bufferSize).mono ?_
      intro w t hspec
      obtain ⟨hw, _, _, hself⟩ := hspec
      have hno : ¬(v ≤ bufferSize ∧ ¬Undeliverable M (u64 (s.self.readOffset+n)) v) := by
        rw [u64_of_lt (by omega)]
        exact fun hyes => hyes.2 hstop
      rw [decide_eq_false hno] at hw
      rw [hw] at hself
      refine ⟨hw, ?_⟩
      rw [hself]
      rfl
    · rw [heof] at hno
      cases hno

end EndOfFile

/-- Three records written to a ring of ten bytes, and a reader that takes the two that are left. -/
def readToEnd : Op Bool := do
  let _ ← CircularLog.write (memory [1, 2, 3] uninitialized) 3
  let _ ← CircularLog.write (memory [4, 5, 6] uninitialized) 3
  let _ ← CircularLog.write (memory [7, 8, 9] uninitialized) 3
  let _ ← openAgain blank.construct .read
  let _ ← CircularLog.read uninitialized 3
  let _ ← CircularLog.read uninitialized 3
  endOfFile

end CircularLog
