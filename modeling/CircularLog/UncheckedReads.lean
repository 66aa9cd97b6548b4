import CircularLog.ExactTransfer
import CircularLog.RecordRead

/-! `NextRecordSize` and `Read` at a cursor about which nothing is known, while no system call
fails. Neither of them checks what it decodes. -/
namespace CircularLog

section UncheckedReads
variable {M n v : ℕ} {s : State}

/-- The cursor after a record decoded as `(n, v)`. Both sums may wrap around before the reduction.
-/
def cursorBehind (M cursor n v : ℕ) : ℕ := u64 (cursor+u64 (n+v))%M

theorem readVarint_decoded (h : Usable M s) (hi : Ideal s) (hM : 10 ≤ M) {off : ℕ} {d : ℕ × ℕ}
    (hd : Varint.read (window M s.file off) = some d) :
    Sat (readVarint off) s (fun r t => r = some d ∧ Moved M (fun _ => False) s t ∧
      t.file = s.file) := by
  have hb := h.bound
  refine (readVarint_exact h (by omega) hd).mono ?_
  intro r t hspec
  obtain ⟨hr, _, hm, hf⟩ := hspec
  rw [hi.outcomes, transfer_delivered (by omega) (by omega) off (by norm_num) hM, if_pos rfl] at hr
  exact ⟨hr, hm, hf⟩

theorem readVarint_undecoded (h : Usable M s) (hi : Ideal s) (hM : 10 ≤ M) {off : ℕ}
    (hd : Varint.read (window M s.file off) = none) : Stops .noReturn (readVarint off) s := by
  have hb := h.bound
  apply readVarint_noReturn h (by omega) hd
  -- the window itself can be read
  rw [hi.outcomes, transfer_delivered (by omega) (by omega) off (by norm_num) hM]

theorem nextRecordSize_decoded (h : Usable M s) (hi : Ideal s) (hM : 10 ≤ M)
    (hne : s.self.readOffset ≠ s.file.header.endOffset)
    (hd : Varint.read (window M s.file s.self.readOffset) = some (n, v)) :
    Sat nextRecordSize s (fun r t => r = some v ∧ Moved M (fun _ => False) s t ∧
      t.file = s.file) := by
  rw [nextRecordSize, sat_bind, sat_get, if_neg (by simp [h.isClosed]), sat_bind,
    sat_mappedHeader h.header, if_neg hne]
  apply (readVarint_decoded h hi hM hd).bind
  intro r t hspec
  obtain ⟨rfl, hm, hf⟩ := hspec
  exact sat_pure.mpr ⟨rfl, hm, hf⟩

/-- `Read` does not look at `end_offset`: whatever the window decodes to is read, if it can be. -/
theorem read_decoded (h : Usable M s) (hi : Ideal s) (hM : 10 ≤ M)
    (hd : Varint.read (window M s.file s.self.readOffset) = some (n, v)) (buffer : Buffer)
    (bufferSize : ℕ) :
    Sat (read buffer bufferSize) s (fun w t =>
      w.1 = decide (v ≤ bufferSize ∧ ¬Undeliverable M (u64 (s.self.readOffset+n)) v) ∧
      t.file = s.file ∧ Ideal t ∧ t.self = { s.self with
        error := t.self.error
        readOffset :=
          if w.1 then cursorBehind M s.self.readOffset n v else s.self.readOffset }) := by
  have hb := h.bound
  obtain ⟨_, _, hv⟩ := Varint.read_bound hd
  rw [read, sat_bind, sat_get, if_neg (by simp [h.isClosed])]
  apply (readVarint_decoded h hi hM hd).bind
  intro r t hspec
  obtain ⟨rfl, hm, hf⟩ := hspec
  dsimp only
  rw [sat_ite]
  constructor
  · -- the buffer is too small
    intro hsmall
    rw [sat_pure, decide_eq_false (by omega)]
    exact ⟨rfl, hf, hm.ideal hi, hm.self⟩
  intro hroom
  have hut := hm.usable h
  apply (wrappingRead_exact hut (by omega) _ buffer v).bind
  intro w u hspec
  obtain ⟨ok, buffer'⟩ := w
  obtain ⟨hr, hm', hf', _⟩ := hspec
  rw [(hm.ideal hi).outcomes, transferResult_allDone (by omega) (by omega) _ hv] at hr
  have hok : ok = decide (¬Undeliverable M (u64 (s.self.readOffset+n)) v) := (Prod.mk.inj hr).1
  have hmu := hm.trans hm'
  rw [sat_unless]
  constructor
  · intro hno
    change ok = false at hno
    have hstop : ¬(v ≤ bufferSize ∧ ¬Undeliverable M (u64 (s.self.readOffset+n)) v) :=
      fun hyes => of_decide_eq_false (hok.symm.trans hno) hyes.2
    rw [decide_eq_false hstop]
    exact ⟨rfl, hf'.trans hf, hmu.ideal hi, hmu.self⟩
  · intro hyes
    change ok = true at hyes
    -- the count was delivered, so the cursor moves
    have hgo : v ≤ bufferSize ∧ ¬Undeliverable M (u64 (s.self.readOffset+n)) v :=
      ⟨by omega, of_decide_eq_true (hok.symm.trans hyes)⟩
    rw [sat_bind, sat_bytesMax (hmu.usable h), sat_bind, sat_modulo (by omega), sat_bind,
      setReadOffset, sat_modify, sat_pure, decide_eq_true hgo]
    refine ⟨rfl, hf'.trans hf, hmu.ideal hi, ?_⟩
    dsimp only
    rw [hmu.self]
    rfl

theorem read_undecoded (h : Usable M s) (hi : Ideal s) (hM : 10 ≤ M)
    (hd : Varint.read (window M s.file s.self.readOffset) = none) (buffer : Buffer)
    (bufferSize : ℕ) : Stops .noReturn (read buffer bufferSize) s := by
  rw [read, stops_of_run (get_run s), if_neg (by simp [h.isClosed])]
  exact (readVarint_undecoded h hi hM hd).bind

theorem nextRecordSize_undecoded (h : Usable M s) (hi : Ideal s) (hM : 10 ≤ M)
    (hne : s.self.readOffset ≠ s.file.header.endOffset)
    (hd : Varint.read (window M s.file s.self.readOffset) = none) :
    Stops .noReturn nextRecordSize s := by
  rw [nextRecordSize, stops_of_run (get_run s), if_neg (by simp [h.isClosed]),
    stops_of_run (mappedHeader_run h.header), if_neg hne]
  exact (readVarint_undecoded h hi hM hd).bind

end UncheckedReads

end CircularLog
