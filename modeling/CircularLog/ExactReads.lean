import CircularLog.ExactTransfer
import CircularLog.RecordRead

/-! `NextRecordSize` and `Read` on a record boundary, for an area of any size and any answers of the
system. -/
namespace CircularLog

section ExactReads
variable {M : ℕ} {s : State} {r : Record} {U : List Record}

theorem Unread.pos (h : Unread M s U) : 0 < M := by
  have hfits := h.layout.fits
  omega

/-- The window at the cursor decodes to the length of the next record. -/
theorem Unread.window (h : Unread M s (r :: U)) :
    Varint.read (window M s.file s.self.readOffset) = some (Varint.size r.length, r.length) := by
  have hb := h.usable.bound
  exact h.layout.head.1.decodes (h.layout.record_lt (by omega))

theorem nextRecordSize_exact (h : Unread M s (r :: U)) :
    Sat nextRecordSize s (fun v t =>
      v = (if (transferResult M s.self.readOffset 10 s.outcomes).1 = true then some r.length
        else none) ∧
      t.outcomes = (transferResult M s.self.readOffset 10 s.outcomes).2 ∧ Unread M t (r :: U) ∧
      t.file = s.file ∧ t.self = { s.self with error := t.self.error }) := by
  have hne : s.self.readOffset ≠ s.file.header.endOffset := fun he => by cases h.end_iff.mp he
  rw [nextRecordSize, sat_bind, sat_get, if_neg (by simp [h.usable.isClosed]), sat_bind,
    sat_mappedHeader h.usable.header, if_neg hne]
  apply (readVarint_exact h.usable h.pos h.window).bind
  intro v t hspec
  obtain ⟨hv, hout, hm, hf⟩ := hspec
  -- the window is read, or `NextRecordSize` returns false
  by_cases hok : (transferResult M s.self.readOffset 10 s.outcomes).1 = true
  · rw [if_pos hok] at hv ⊢
    subst hv
    exact sat_pure.mpr ⟨rfl, hout, h.moved hm hf, hf, hm.self⟩
  · rw [if_neg hok] at hv ⊢
    subst hv
    exact sat_pure.mpr ⟨rfl, hout, h.moved hm hf, hf, hm.self⟩

/-- The two transfers of a `Read` of `r` from offset `off` on. -/
def readResult (M off : ℕ) (r : Record) (outcomes : ℕ → Outcome) : Bool × (ℕ → Outcome) :=
  let first := transferResult M off 10 outcomes
  if first.1 then transferResult M (off+Varint.size r.length) r.length first.2 else first

theorem read_exact (h : Unread M s (r :: U)) (buffer : Buffer) {bufferSize : ℕ}
    (hroom : r.length ≤ bufferSize) :
    Sat (read buffer bufferSize) s (fun v t =>
      v.1 = (readResult M s.self.readOffset r s.outcomes).1 ∧
      t.outcomes = (readResult M s.self.readOffset r s.outcomes).2 ∧ t.file = s.file ∧
      (v.1 = true → contents v.2 r.length = r ∧ Unread M t U ∧
        t.self = { s.self with
          error := t.self.error
          readOffset := (s.self.readOffset+frameSize r)%M })) := by
  have hb := h.usable.bound
  have hstart : s.self.readOffset < M := h.layout.start_lt
  have hfits := h.layout.fits
  rw [used_cons] at hfits
  have hsize : frameSize r = Varint.size r.length+r.length := rfl
  rw [read, sat_bind, sat_get, if_neg (by simp [h.usable.isClosed]), readResult]
  apply (readVarint_exact h.usable h.pos h.window).bind
  intro v t hspec
  obtain ⟨hv, hout, hm, hf⟩ := hspec
  by_cases hok : (transferResult M s.self.readOffset 10 s.outcomes).1 = true
  swap
  · -- the length cannot be read
    rw [if_neg hok] at hv
    subst hv
    rw [if_neg hok]
    exact sat_pure.mpr ⟨(eq_false_of_ne_true hok).symm, hout, hf, by simp⟩
  rw [if_pos hok] at hv
  subst hv
  rw [if_pos hok, ← hout]
  dsimp only
  -- the buffer is large enough, and the cursor is too small to wrap around
  rw [if_neg (by omega), u64_of_lt (by omega)]
  apply (wrappingRead_exact (hm.usable h.usable) h.pos _ buffer r.length).bind
  intro v u hspec
  obtain ⟨ok, buffer'⟩ := v
  obtain ⟨hr, hm', hf', hread⟩ := hspec
  have hmu := hm.trans hm'
  have hfu := hf'.trans hf
  rw [← hr, sat_unless]
  constructor
  · intro hno
    exact ⟨hno.symm, rfl, hfu, by simp⟩
  · intro hyes
    -- the payload starts behind the length, wherever the area ends
    have hbytes : contents buffer' r.length = r := by
      apply contents_eq
      intro i hi
      have hbyte := hread hyes (by omega) i hi
      rw [hf] at hbyte
      exact hbyte.trans (stored_iff.mp h.layout.head.2 i hi)
    rw [sat_bind, sat_bytesMax (hmu.usable h.usable), sat_bind, sat_modulo h.pos, sat_bind,
      setReadOffset, sat_modify, sat_pure, h.cursor]
    refine ⟨hyes.symm, rfl, hfu, fun _ => ⟨hbytes, ?_, ?_⟩⟩
    · exact h.advance_moved hmu hfu
    · dsimp only
      rw [hmu.self]

end ExactReads

end CircularLog
