import CircularLog.OpenCreate
import CircularLog.Eviction

/-! The three ways to read a record. A reader stands on a boundary, with the records it has not
consumed between its cursor and the end. -/
namespace CircularLog

/-- The records `U` lie between the cursor of a reader and `end_offset`. -/
structure Unread (M : ℕ) (s : State) (U : List Record) : Prop where
  usable : Usable M s
  layout : Layout M (s.file.withStart s.self.readOffset) U

/-- The calls made from `s` to `t` left the file alone. -/
structure Looked (s t : State) : Prop where
  file : t.file = s.file
  ideal : Ideal s → Ideal t

section RecordRead
variable {M : ℕ} {s t u : State} {r : Record} {U : List Record}

theorem Looked.trans (h : Looked s t) (h' : Looked t u) : Looked s u :=
  ⟨h'.file.trans h.file, fun hi => h'.ideal (h.ideal hi)⟩

theorem Moved.looked {R : ℕ → Prop} (h : Moved M R s t) (hf : t.file = s.file) : Looked s t :=
  ⟨hf, h.ideal⟩

theorem Usable.isClosed (h : Usable M s) : s.self.isClosed = false := by
  have hfd := h.fd
  cases he : s.self.fd with
  | none => exact absurd he hfd
  | some mode => simp [Ringfile.isClosed, h.header, he]

theorem Unread.end_iff (h : Unread M s U) :
    s.self.readOffset = s.file.header.endOffset ↔ U = [] := by
  have hb := h.usable.bound
  exact h.layout.start_eq_end_iff (by omega)

theorem Unread.moved {R : ℕ → Prop} (h : Unread M s U) (hm : Moved M R s t)
    (hf : t.file = s.file) : Unread M t U := by
  refine ⟨hm.usable h.usable, ?_⟩
  rw [hf, hm.self]
  exact h.layout

theorem Unread.cursor (h : Unread M s (r :: U)) :
    u64 (s.self.readOffset+u64 (Varint.size r.length+r.length))%M =
      (s.self.readOffset+frameSize r)%M := by
  have hb := h.usable.bound
  have hstart : s.self.readOffset < M := h.layout.start_lt
  have hfits := h.layout.fits
  have hsize : frameSize r = Varint.size r.length+r.length := rfl
  rw [used_cons] at hfits
  -- neither sum wraps around
  calc
    u64 (s.self.readOffset+u64 (Varint.size r.length+r.length))%M
        = u64 (s.self.readOffset+frameSize r)%M := by
      rw [← hsize, u64_of_lt (show frameSize r < 2^64 by omega)]
    _ = (s.self.readOffset+frameSize r)%M := by rw [u64_of_lt (by omega)]

theorem Unread.advance (h : Unread M s (r :: U)) (hf : t.file = s.file)
    (hfd : t.self.fd = s.self.fd) (hheader : t.self.header = s.self.header)
    (hsize : t.self.size = s.self.size)
    (hread : t.self.readOffset = (s.self.readOffset+frameSize r)%M) : Unread M t U := by
  constructor
  · apply h.usable.congr hfd hheader hsize
    rw [hf]
  · -- seen from the new cursor, `r` is popped
    rw [hf, hread]
    have hl : Layout M (s.file.withStart s.self.readOffset) ([r] ++ U) := h.layout
    simpa [File.withStart] using hl.withStart

/-- The cursor moves over its record, after calls that did not touch the rest of the object. -/
theorem Unread.advance_moved {R : ℕ → Prop} (h : Unread M s (r :: U)) (hm : Moved M R s t)
    (hf : t.file = s.file) :
    Unread M { t with self := { t.self with readOffset := (s.self.readOffset+frameSize r)%M } }
      U := by
  refine h.advance hf ?_ ?_ ?_ rfl
  all_goals
    dsimp only
    rw [hm.self]

theorem nextRecordSize_end (h : Usable M s) (he : s.self.readOffset = s.file.header.endOffset) :
    Sat nextRecordSize s (fun r t => r = none ∧ t = s) := by
  rw [nextRecordSize, sat_bind, sat_get, if_neg (by simp [h.isClosed]), sat_bind,
    sat_mappedHeader h.header, if_pos he, sat_pure]
  exact ⟨rfl, rfl⟩

theorem nextRecordSize_none (h : Unread M s []) :
    Sat nextRecordSize s (fun v t => v = none ∧ t = s) :=
  nextRecordSize_end h.usable (h.end_iff.mpr rfl)

theorem nextRecordSize_spec (hM : 10 ≤ M) (h : Unread M s (r :: U)) :
    Sat nextRecordSize s (fun v t => Looked s t ∧ t.self = { s.self with error := t.self.error } ∧
      Unread M t (r :: U) ∧ (v = none ∨ v = some r.length) ∧ (Ideal s → v = some r.length)) := by
  have hb := h.usable.bound
  have hne : s.self.readOffset ≠ s.file.header.endOffset := fun he => by cases h.end_iff.mp he
  rw [nextRecordSize, sat_bind, sat_get, if_neg (by simp [h.usable.isClosed]), sat_bind,
    sat_mappedHeader h.usable.header, if_neg hne]
  apply (readVarint_spec h.usable hM (h.layout.record_lt (by omega)) h.layout.head.1).bind
  intro v t hspec
  obtain ⟨hm, hf, hv, hi⟩ := hspec
  rcases hv with rfl | rfl
  · exact sat_pure.mpr ⟨hm.looked hf, hm.self, h.moved hm hf, Or.inl rfl,
      fun hd => by simpa using hi hd⟩
  · exact sat_pure.mpr ⟨hm.looked hf, hm.self, h.moved hm hf, Or.inr rfl, fun _ => rfl⟩

/-- `Read` with any buffer. The record is delivered as a whole or the cursor stays. -/
theorem read_spec (hM : 10 ≤ M) (h : Unread M s (r :: U)) (hr : r ≠ []) (buffer : Buffer)
    (bufferSize : ℕ) :
    Sat (read buffer bufferSize) s (fun v t => Looked s t ∧
      ((v.1 = false ∧ t.self = { s.self with error := t.self.error } ∧ Unread M t (r :: U)) ∨
        (v = (true, overlay r buffer) ∧ r.length ≤ bufferSize ∧ Unread M t U ∧
          t.self = { s.self with
            error := t.self.error
            readOffset := (s.self.readOffset+frameSize r)%M })) ∧
      (bufferSize < r.length → v = (false, buffer)) ∧
      (Ideal s → r.length ≤ bufferSize → v.1 = true)) := by
  have hb := h.usable.bound
  have hstart : s.self.readOffset < M := h.layout.start_lt
  have hfits := h.layout.fits
  rw [used_cons] at hfits
  have hsize : frameSize r = Varint.size r.length+r.length := rfl
  have hlen : 1 ≤ r.length := List.length_pos_iff.mpr hr
  rw [read, sat_bind, sat_get, if_neg (by simp [h.usable.isClosed])]
  apply (readVarint_spec h.usable hM (h.layout.record_lt (by omega)) h.layout.head.1).bind
  intro v t hspec
  obtain ⟨hm, hf, hv, hi⟩ := hspec
  rcases hv with rfl | rfl
  · exact sat_pure.mpr ⟨hm.looked hf, Or.inl ⟨rfl, hm.self, h.moved hm hf⟩, fun _ => rfl,
      fun hd => by simpa using hi hd⟩
  dsimp only
  rw [sat_ite]
  constructor
  · -- the buffer is too small
    intro hsmall
    exact sat_pure.mpr ⟨hm.looked hf, Or.inl ⟨rfl, hm.self, h.moved hm hf⟩, fun _ => rfl,
      fun _ _ => by omega⟩
  intro hroom
  have hut := hm.usable h.usable
  rw [u64_of_lt (by omega)]
  apply (wrappingRead_spec hut _ buffer hlen (by omega)).bind
  intro v u hspec
  obtain ⟨ok, buffer'⟩ := v
  obtain ⟨hm', hf', hread, hrest, hi'⟩ := hspec
  have hmu := hm.trans hm'
  have hfu := hf'.trans hf
  rw [sat_unless]
  constructor
  · intro hok
    exact ⟨hmu.looked hfu, Or.inl ⟨rfl, hmu.self, h.moved hmu hfu⟩, by omega,
      fun hd => absurd (hi' (hm.ideal hd)) (ne_true_of_eq_false hok)⟩
  · intro hok
    -- the payload starts behind the length, wherever the area ends
    have hbuffer : buffer' = overlay r buffer := by
      apply eq_overlay
      · intro i hlti
        have hbyte := hread hok i hlti
        rw [hf] at hbyte
        exact hbyte.trans (stored_iff.mp h.layout.head.2 i hlti)
      · exact hrest
    rw [sat_bind, sat_bytesMax (hmu.usable h.usable), sat_bind, sat_modulo (by omega), sat_bind,
      setReadOffset, sat_modify, sat_pure, h.cursor, hbuffer]
    refine ⟨⟨hfu, hmu.ideal⟩, Or.inr ⟨rfl, by omega, ?_, ?_⟩, by omega, fun _ _ => rfl⟩
    · exact h.advance_moved hmu hfu
    · dsimp only
      rw [hmu.self]

/-- A streaming read is open: `rest` of its record is still to be delivered, and the cursor stands
behind that record. -/
structure Reading (M : ℕ) (s : State) (rest : List UInt8) (U : List Record) : Prop where
  unread : Unread M s U
  remaining : s.self.streamingReadBytesRemaining = rest.length
  stored : Stored M s.file.data s.self.streamingReadOffset rest
  fits : rest.length ≤ M
  bound : s.self.streamingReadOffset+rest.length < 2^64

theorem streamingReadStart_none (h : Unread M s []) (hopen : s.self.streamingReadOffset = 0) :
    Sat streamingReadStart s (fun v t => v = minusOne ∧ t = s) := by
  rw [streamingReadStart, sat_bind, sat_get, sat_bind, sat_assert h.usable.header, sat_bind,
    sat_assert h.usable.fd, sat_bind, sat_assert hopen, sat_bind, sat_mappedHeader h.usable.header,
    if_pos (h.end_iff.mpr rfl), sat_pure]
  exact ⟨rfl, rfl⟩

/-- The cursor moves over the whole record when a session starts. -/
theorem streamingReadStart_spec (hM : 10 ≤ M) (h : Unread M s (r :: U))
    (hopen : s.self.streamingReadOffset = 0) :
    Sat streamingReadStart s (fun v t => Looked s t ∧
      ((v = minusOne ∧ Unread M t (r :: U) ∧ t.self.streamingReadOffset = 0) ∨
        (v = r.length ∧ Reading M t r U)) ∧
      (Ideal s → v = r.length ∧ Reading M t r U)) := by
  have hb := h.usable.bound
  have hstart : s.self.readOffset < M := h.layout.start_lt
  have hfits := h.layout.fits
  rw [used_cons] at hfits
  have hsize : frameSize r = Varint.size r.length+r.length := rfl
  have hne : s.self.readOffset ≠ s.file.header.endOffset := fun he => by cases h.end_iff.mp he
  rw [streamingReadStart, sat_bind, sat_get, sat_bind, sat_assert h.usable.header, sat_bind,
    sat_assert h.usable.fd, sat_bind, sat_assert hopen, sat_bind, sat_mappedHeader h.usable.header,
    if_neg hne]
  apply (readVarint_spec h.usable hM (h.layout.record_lt (by omega)) h.layout.head.1).bind
  intro v t hspec
  obtain ⟨hm, hf, hv, hi⟩ := hspec
  rcases hv with rfl | rfl
  · refine sat_pure.mpr ⟨hm.looked hf, Or.inl ⟨rfl, h.moved hm hf, ?_⟩, fun hd => ?_⟩
    · rw [hm.self]
      exact hopen
    · cases hi hd
  dsimp only
  have hoff : u64 (s.self.readOffset+Varint.size r.length) =
      s.self.readOffset+Varint.size r.length := u64_of_lt (by omega)
  have hut := hm.usable h.usable
  rw [sat_bind, setStreamingRead, sat_modify, sat_bind,
    sat_bytesMax (by exact hut.congr rfl rfl rfl rfl), sat_bind,
    sat_modulo (by omega), sat_bind, setReadOffset, sat_modify, sat_pure, hoff, h.cursor]
  have hreading : Reading M { t with self := { t.self with
      streamingReadOffset := s.self.readOffset+Varint.size r.length
      streamingReadBytesRemaining := r.length
      readOffset := (s.self.readOffset+frameSize r)%M } } r U := by
    refine ⟨h.advance hf ?_ ?_ ?_ rfl, rfl, ?_, by omega, ?_⟩
    · dsimp only
      rw [hm.self]
    · dsimp only
      rw [hm.self]
    · dsimp only
      rw [hm.self]
    · dsimp only
      rw [hf]
      exact h.layout.head.2
    · dsimp only
      omega
  exact ⟨⟨hf, hm.ideal⟩, Or.inr ⟨rfl, hreading⟩, fun _ => ⟨rfl, hreading⟩⟩

/-- `StreamingRead` delivers the next bytes, no more than are left; at the end it delivers none. -/
theorem streamingRead_spec {rest : List UInt8} (h : Reading M s rest U) (ptr : Buffer) (n : ℕ) :
    Sat (streamingRead ptr n) s (fun v t => Looked s t ∧
      ((v.1 = minusOne ∧ Reading M t rest U) ∨
        (v = (min n rest.length, overlay (rest.take n) ptr) ∧ Reading M t (rest.drop n) U)) ∧
      (Ideal s → v = (min n rest.length, overlay (rest.take n) ptr) ∧
        Reading M t (rest.drop n) U)) := by
  have hb := h.unread.usable.bound
  have hfits := h.fits
  have hbound := h.bound
  have hmin : (if s.self.streamingReadBytesRemaining < n then s.self.streamingReadBytesRemaining
      else n) = min n rest.length := by
    rw [h.remaining]
    split_ifs <;> omega
  have htake : (rest.take n).length = min n rest.length := List.length_take
  rw [streamingRead, sat_bind, sat_get]
  dsimp only
  rw [hmin, sat_ite]
  constructor
  · -- nothing was asked for, or nothing is left
    intro hzero
    have hnil : rest.take n = [] := by
      apply List.length_eq_zero_iff.mp
      omega
    have hdrop : rest.drop n = rest := by
      rcases Nat.eq_zero_or_pos n with rfl | hn
      · exact List.drop_zero
      · rw [List.length_eq_zero_iff.mp (by omega : rest.length = 0), List.drop_nil]
    rw [sat_pure, hnil, hdrop, hzero]
    exact ⟨⟨rfl, id⟩, Or.inr ⟨rfl, h⟩, fun _ => ⟨rfl, h⟩⟩
  · intro hpos
    apply (wrappingRead_spec h.unread.usable _ ptr (n := min n rest.length) (by omega)
      (by omega)).bind
    intro v t hspec
    obtain ⟨ok, buffer⟩ := v
    obtain ⟨hm, hf, hread, hrest, hi⟩ := hspec
    have hunread := h.unread.moved hm hf
    -- the bytes delivered now, and those that stay for later
    have hst : Stored M s.file.data s.self.streamingReadOffset (rest.take n ++ rest.drop n) := by
      rw [List.take_append_drop]
      exact h.stored
    rw [stored_append, htake] at hst
    rw [sat_unless]
    constructor
    · -- a failed read leaves the session where it is
      intro hok
      have hkeep : Reading M t rest U := by
        refine ⟨hunread, ?_, ?_, hfits, ?_⟩
        · rw [hm.self]
          exact h.remaining
        · rw [hf, hm.self]
          exact h.stored
        · rw [hm.self]
          exact hbound
      exact ⟨hm.looked hf, Or.inl ⟨rfl, hkeep⟩,
        fun hd => absurd (hi hd) (ne_true_of_eq_false hok)⟩
    · intro hok
      have hbuffer : buffer = overlay (rest.take n) ptr := by
        apply eq_overlay
        · intro i hlti
          have hbyte := hread hok i (by omega)
          exact hbyte.trans (stored_iff.mp hst.1 i hlti)
        · intro i hge
          exact hrest i (by omega)
      have hreading : Reading M { t with self := { t.self with
          streamingReadOffset := s.self.streamingReadOffset+min n rest.length
          streamingReadBytesRemaining := rest.length-min n rest.length } } (rest.drop n) U := by
        refine ⟨⟨?_, hunread.layout⟩, ?_, ?_, ?_, ?_⟩
        · exact hunread.usable.congr rfl rfl rfl rfl
        · dsimp only
          rw [List.length_drop]
          omega
        · dsimp only
          rw [hf]
          exact hst.2
        · rw [List.length_drop]
          omega
        · dsimp only
          rw [List.length_drop]
          omega
      rw [sat_bind, setStreamingRead, sat_modify, sat_pure, h.remaining, u64_of_lt (by omega),
        sub64_of_le (by omega) (by omega), hbuffer]
      exact ⟨⟨hf, hm.ideal⟩, Or.inr ⟨rfl, hreading⟩, fun _ => ⟨rfl, hreading⟩⟩

/-- A session may be finished with any number of bytes left. -/
theorem streamingReadFinish_spec {rest : List UInt8} (h : Reading M s rest U) :
    Sat streamingReadFinish s (fun v t => v = true ∧ Looked s t ∧ Unread M t U ∧
      t.self.streamingReadOffset = 0) := by
  rw [streamingReadFinish, sat_bind, sat_get, sat_bind, setStreamingRead, sat_modify, sat_pure]
  exact ⟨rfl, ⟨rfl, id⟩, ⟨h.unread.usable.congr rfl rfl rfl rfl, h.unread.layout⟩, rfl⟩

end RecordRead

end CircularLog
