import CircularLog.ReaderRuns
import CircularLog.Reachable

/-! Transfers of no bytes. From a reduced offset `o` on, both wrapping transfers take zero bytes for
a transfer that runs over the end of the area: they ask for the `M-o` bytes up to the end, and then
for `0-(M-o)` bytes computed without sign. The system refuses so large a count with -1, and the
comparison with the count only succeeds when the count is -1 as well, that is for `o = M-1`. -/
namespace CircularLog

section ZeroLength
variable {M : ℕ} {s : State} {L U : List Record}

theorem splitBytes_zero (hM : 0 < M) (hb : M < 2^63) (off : ℕ) :
    splitBytes M (off%M) (u64 (off%M+0)%M) 0 = (M-off%M, 2^64-(M-off%M)) := by
  have ho : off%M < M := Nat.mod_lt _ hM
  -- the end offset equals the offset, which is the wrapped case
  rw [Nat.add_zero, u64_of_lt (by omega), Nat.mod_mod, splitBytes, if_neg (by omega),
    sub64_of_le (by omega) (by omega), sub64]
  congr 1
  omega

theorem transferred_refused (outcome : Outcome) {count : ℕ} (hc : 2^63 ≤ count) :
    outcome.transferred count = none := if_pos hc

theorem writePart_refused {offset count : ℕ} (h : Writable M s) (hi : Ideal s) (ho : offset < M)
    (ptr : Buffer) (at_ : ℕ) (hc : 2^63 ≤ count) :
    Sat (writePart offset ptr at_ count) s (fun ok t =>
      ok = (minusOne == count) ∧ Moved M (fun _ => False) s t ∧ t.file = s.file) := by
  have hb := h.bound
  rw [writePart, if_neg (by omega)]
  apply (seekToOffset_spec h.usable ho).bind
  intro ok t hspec
  obtain ⟨hm, hf, hpos, hdone⟩ := hspec
  rw [sat_unless]
  refine ⟨fun hok => absurd (hdone hi) (ne_true_of_eq_false hok), fun hok => ?_⟩
  have hwt := hm.writable h
  have hp := hpos hok
  have hmoved : Moved M (fun _ => False) t (t.called (.write t.position 0) t.file t.position) := by
    apply moved_called
    · exact ⟨by omega, by omega⟩
    · exact .refl _ _
  rw [sat_bind, sysWrite, sat_modifyGet, hwt.fd, transferred_refused _ hc, sat_pure]
  exact ⟨rfl, hm.trans hmoved, hf⟩

theorem readPart_refused {offset count : ℕ} (h : Usable M s) (hi : Ideal s) (ho : offset < M)
    (ptr : Buffer) (at_ : ℕ) (hc : 2^63 ≤ count) :
    Sat (readPart offset ptr at_ count) s (fun r t =>
      r.1 = (minusOne == count) ∧ Moved M (fun _ => False) s t ∧ t.file = s.file) := by
  have hb := h.bound
  rw [readPart, if_neg (by omega)]
  apply (seekToOffset_spec h ho).bind
  intro ok t hspec
  obtain ⟨hm, hf, hpos, hdone⟩ := hspec
  rw [sat_unless]
  refine ⟨fun hok => absurd (hdone hi) (ne_true_of_eq_false hok), fun hok => ?_⟩
  have hut := hm.usable h
  have hmoved : Moved M (fun _ => False) t (t.called .read t.file t.position) := by
    apply moved_called
    · exact trivial
    · exact .refl _ _
  rw [sat_bind, sysRead, sat_modifyGet, transferred_refused _ hc]
  cases hfd : t.self.fd with
  | none => exact absurd hfd hut.fd
  | some mode => exact sat_pure.mpr ⟨rfl, hm.trans hmoved, hf⟩

theorem minusOne_eq_count (off : ℕ) (hM : 0 < M) :
    (minusOne == 2^64-(M-off%M)) = decide (off%M+1 = M) := by
  have ho : off%M < M := Nat.mod_lt _ hM
  rw [beq_eq_decide, minusOne]
  congr 1
  apply propext
  omega

/-- Writing no bytes stores the bytes behind the pointer up to the end of the area. -/
theorem wrappingWrite_zero (h : Writable M s) (hi : Ideal s) (hM : 0 < M) (off : ℕ) (ptr : Buffer) :
    Sat (wrappingWrite off ptr 0) s (fun ok t => ok = decide (off%M+1 = M) ∧
      Moved M (fun p => off%M ≤ p ∧ p < M) s t ∧
      ∀ i < M-off%M, t.file.data (off%M+i) = ptr i) := by
  have hb := h.bound
  have ho : off%M < M := Nat.mod_lt _ hM
  unfold wrappingWrite
  simp only [sat_bind, sat_bytesMax h.usable, sat_modulo hM, splitBytes_zero hM (by omega)]
  refine (writePart_spec h ho ptr 0 (by omega)).mono ?_
  intro ok t hspec
  obtain ⟨hm, hwrite, hdone⟩ := hspec
  rw [sat_unless]
  refine ⟨fun hok => absurd (hdone hi) (ne_true_of_eq_false hok), fun hok => ?_⟩
  have hm := hm.mono (S := fun p => off%M ≤ p ∧ p < M) (fun p hp => ⟨hp.1, by omega⟩)
  -- the second part asks for almost `2^64` bytes
  refine (writePart_refused (hm.writable h) (hm.ideal hi) hM ptr _ (by omega)).mono ?_
  intro ok' u hspec
  obtain ⟨rfl, hm', hf⟩ := hspec
  refine ⟨minusOne_eq_count off hM, hm.trans (hm'.mono (fun _ hp => hp.elim)), ?_⟩
  intro i hlt
  rw [hf]
  simpa using hwrite hok i hlt

theorem wrappingRead_zero (h : Usable M s) (hi : Ideal s) (hM : 0 < M) (off : ℕ) (ptr : Buffer) :
    Sat (wrappingRead off ptr 0) s (fun r t => r.1 = decide (off%M+1 = M) ∧
      Moved M (fun _ => False) s t ∧ t.file = s.file) := by
  have hb := h.bound
  have ho : off%M < M := Nat.mod_lt _ hM
  unfold wrappingRead
  simp only [sat_bind, sat_bytesMax h, sat_modulo hM, splitBytes_zero hM (by omega)]
  refine (readPart_spec h ho ptr 0 (by omega)).mono ?_
  intro v t hspec
  obtain ⟨ok, buffer⟩ := v
  obtain ⟨hm, hf, _, _, hdone⟩ := hspec
  rw [sat_unless]
  refine ⟨fun hok => absurd (hdone hi) (ne_true_of_eq_false hok), fun hok => ?_⟩
  refine (readPart_refused (hm.usable h) (hm.ideal hi) hM buffer _ (by omega)).mono ?_
  intro r u hspec
  obtain ⟨hr, hm', hf'⟩ := hspec
  exact ⟨hr.trans (minusOne_eq_count off hM), hm.trans hm', hf'.trans hf⟩

theorem frameSize_empty : frameSize [] = 1 := rfl

/-- A zero byte in the last cell but one is an empty record. The cell behind it is lost, unless it
is the first cell of the records, and then the offsets meet. -/
theorem Layout.append_empty {f g : File} (hl : Layout M f L) (hend : f.header.endOffset+2 = M)
    (hg : g.header = { f.header with endOffset := M-1 }) (hbyte : g.data (M-2) = 0)
    (hdata : ∀ p, p+2 ≠ M → p+1 ≠ M → g.data p = f.data p) : Layout M g (afterWrite M L []) := by
  have hs := hl.start_lt
  have hfits := hl.fits
  have hkeep : keep frameSize (M-1) L = L := by
    apply keep_of_le
    change used L ≤ _
    omega
  have hafter : afterWrite M L [] = if used L+1 = M then [] else L ++ [[]] := by
    rw [afterWrite, frameSize_empty, hkeep]
  have hnext : (f.header.endOffset+1)%M = M-1 := by
    rw [Nat.mod_eq_of_lt (by omega)]
    omega
  rw [hafter]
  split_ifs with hfull
  · -- the records fill the area but for the stray cell, where they start
    have hstart : f.header.startOffset = M-1 := by
      rcases hl.end_cases with ⟨_, he⟩ | ⟨_, he⟩ <;> omega
    refine ⟨?_, ?_, by rw [used_nil]; omega, stored_nil _ _ _⟩
    · rw [hg]
      exact hs
    · rw [hg, used_nil, Nat.add_zero]
      exact (hstart ▸ (Nat.mod_eq_of_lt hs).symm)
  · have hlive : Layout M { g with header := f.header } L := by
      refine Layout.congr hl ?_ ?_
      · rfl
      intro p hp
      have hfree : ¬Covers M f.header.endOffset 2 p := by
        apply Layout.free (P := []) (K := L) hl (by omega)
        rwa [used_nil, Nat.add_zero]
      apply hdata
      · intro h2
        apply hfree
        exact ⟨0, by omega, by rw [Nat.add_zero, Nat.mod_eq_of_lt (by omega)]; omega⟩
      · intro h1
        apply hfree
        exact ⟨1, by omega, by rw [hnext]; omega⟩
    -- the frame is a zero byte
    have hnew := hlive.withEnd (r := []) (by rw [frameSize_empty]; omega) (by
      apply stored_iff.mpr
      intro i hi
      have hi0 : i = 0 := by
        rw [frame_length, frameSize_empty] at hi
        omega
      subst hi0
      dsimp only
      rw [Nat.add_zero, Nat.mod_eq_of_lt (by omega), show f.header.endOffset = M-2 by omega]
      exact hbyte)
    have hfile : ({ g with header := f.header } : File).withEnd
        ((f.header.endOffset+frameSize [])%M) = g := by
      rw [frameSize_empty, hnext]
      cases g
      cases hg
      rfl
    rwa [hfile] at hnew

/-- The header of an empty record is one zero byte, for which nothing is evicted. -/
theorem startRecord_empty (h : Ready M s L) (hM : 10 ≤ M) :
    Sat (startRecord 0) s (fun r t => r = some 1 ∧
      t.self = { s.self with error := t.self.error } ∧ Ideal t ∧
      t.file.header = s.file.header ∧ t.file.length = s.file.length ∧
      t.file.data s.file.header.endOffset = 0 ∧
      ∀ p, p ≠ s.file.header.endOffset → t.file.data p = s.file.data p) := by
  have hl := h.layout
  have hlt := hl.end_lt
  have hfits := hl.fits
  have hsize : Varint.size 0 = 1 := rfl
  refine (startRecord_spec h.writable hl (Or.inl hM) (by omega)).mono ?_
  intro r t hstart
  cases hstart with
  | refused hbig => omega
  | cut _ _ _ hfault => exact absurd h.ideal hfault
  | @started _ P K _ hL hself hK hw hst =>
    -- there is room for one byte, so nothing was popped
    have hkeep : keep frameSize (M-(Varint.size 0+0)) L = L := by
      apply keep_of_le
      change used L ≤ _
      omega
    rw [hkeep] at hK
    subst hK
    have hP : P = [] := by simpa using hL
    subst hP
    have hstart : (s.file.header.startOffset+used [])%M = s.file.header.startOffset := by
      rw [used_nil, Nat.add_zero, Nat.mod_eq_of_lt hl.start_lt]
    refine ⟨by rw [hsize], hself, hw.ideal h.ideal, ?_, hw.file.length, ?_, ?_⟩
    · rw [hw.file.header, hstart]
      rfl
    · have hcode := stored_iff.mp hst 0 (by decide)
      rw [Nat.add_zero, Nat.mod_eq_of_lt hlt] at hcode
      exact hcode
    · intro p hp
      apply hw.file.data
      intro hcovers
      obtain ⟨i, hi, hcell⟩ := hcovers
      have hi0 : i = 0 := by omega
      rw [hi0, Nat.add_zero, Nat.mod_eq_of_lt hlt] at hcell
      exact hp hcell

/-- `Write` of an empty record evicts nothing and succeeds in one place only, where its header takes
the last cell but one. -/
theorem write_empty (h : Ready M s L) (hM : 10 ≤ M) (ptr : Buffer) :
    Sat (write ptr 0) s (fun ok t => ok = decide (s.file.header.endOffset+2 = M) ∧
      (ok = true → Ready M t (afterWrite M L []) ∧
        t.self = { s.self with error := t.self.error } ∧
        t.file.header = { s.file.header with endOffset := M-1 } ∧
        t.file.data (M-2) = 0 ∧ t.file.data (M-1) = ptr 0 ∧
        ∀ p, p+2 ≠ M → p+1 ≠ M → t.file.data p = s.file.data p)) := by
  have hb := h.writable.bound
  have hlt := h.layout.end_lt
  apply (startRecord_empty h hM).bind
  intro r t hspec
  obtain ⟨hr, hself, hi, hheader, hlen, hzero, hrest⟩ := hspec
  have hwt : Writable M t := h.writable.of_self hself hlen
  rw [hr]
  dsimp only
  rw [sat_bind, sat_mappedHeader hwt.usable.header, hheader, u64_of_lt (by omega)]
  apply (wrappingWrite_zero hwt hi (by omega) _ ptr).bind
  intro ok u hspec
  obtain ⟨hok, hm, hwrite⟩ := hspec
  have hplace : ((s.file.header.endOffset+1)%M+1 = M) ↔ s.file.header.endOffset+2 = M := by
    rcases add_mod_cases hlt (show 1 ≤ M by omega) with ⟨_, he⟩ | ⟨_, he⟩ <;> omega
  rw [decide_eq_decide.mpr hplace] at hok
  rw [sat_unless]
  constructor
  · intro hno
    exact ⟨hno.symm.trans hok, by simp⟩
  intro hyes
  have hend : s.file.header.endOffset+2 = M := of_decide_eq_true (hok.symm.trans hyes)
  have hcell : (s.file.header.endOffset+1)%M = M-1 := by
    rw [Nat.mod_eq_of_lt (by omega)]
    omega
  have hwu := hm.writable hwt
  have hheader' : u.file.header = s.file.header := hm.file.header.trans hheader
  have hself' : u.self = { s.self with error := u.self.error } := by rw [hm.self, hself]
  rw [hcell] at hwrite hm
  -- the header took cell `M-2`, the stray byte took cell `M-1`
  have hlast : u.file.data (M-1) = ptr 0 := by simpa using hwrite 0 (by omega)
  have hbyte : u.file.data (M-2) = 0 := by
    rw [hm.file.data _ (by omega), show M-2 = s.file.header.endOffset by omega]
    exact hzero
  have hdata (p : ℕ) (h2 : p+2 ≠ M) (h1 : p+1 ≠ M) : u.file.data p = s.file.data p := by
    rw [hm.file.data p (by omega)]
    exact hrest p (by omega)
  rw [sat_bind, sat_mappedHeader hwu.usable.header, sat_bind, sat_assignEnd hwu (by omega),
    sat_pure, hheader', Nat.add_zero, u64_of_lt (by omega : 1 < 2^64), u64_of_lt (by omega), hcell]
  refine ⟨(decide_eq_true hend).symm, fun _ => ⟨⟨?_, hm.ideal hi, ?_, ?_, ?_⟩, hself', ?_, hbyte,
    hlast, hdata⟩⟩
  · exact hwu.congr rfl rfl rfl rfl
  · dsimp only [State.assigned]
    rw [hself']
    exact h.closed
  · dsimp only [State.assigned, File.withEnd]
    rw [hheader']
    exact h.magic
  · apply Layout.append_empty (g := u.file.withEnd (M-1)) h.layout hend ?_ hbyte hdata
    dsimp only [File.withEnd]
    rw [hheader']
  · dsimp only [State.assigned, File.withEnd]
    rw [hheader']

/-- `Read` of an empty record succeeds in the one place where `Write` can put it. -/
theorem read_empty (hM : 10 ≤ M) (h : Unread M s ([] :: U)) (hi : Ideal s) (buffer : Buffer)
    (bufferSize : ℕ) :
    Sat (read buffer bufferSize) s (fun v t => v.1 = decide (s.self.readOffset+2 = M) ∧
      Looked s t ∧ (v.1 = true → Unread M t U ∧
        t.self.readOffset = (s.self.readOffset+frameSize [])%M)) := by
  have hb := h.usable.bound
  have hstart : s.self.readOffset < M := h.layout.start_lt
  have hlen : ([] : Record).length = 0 := rfl
  have hsize : Varint.size 0 = 1 := rfl
  rw [read, sat_bind, sat_get, if_neg (by simp [h.usable.isClosed])]
  apply (readVarint_spec h.usable hM (h.layout.record_lt (by omega)) h.layout.head.1).bind
  intro v t hspec
  obtain ⟨hm, hf, _, hdone⟩ := hspec
  rw [hdone hi, hlen, hsize]
  dsimp only
  rw [if_neg (by omega), u64_of_lt (by omega)]
  have hut := hm.usable h.usable
  apply (wrappingRead_zero hut (hm.ideal hi) (by omega) _ buffer).bind
  intro v u hspec
  obtain ⟨ok, buffer'⟩ := v
  obtain ⟨hok, hm', hf'⟩ := hspec
  have hmu := hm.trans hm'
  have hfu := hf'.trans hf
  have hplace : ((s.self.readOffset+1)%M+1 = M) ↔ s.self.readOffset+2 = M := by
    rcases add_mod_cases hstart (show 1 ≤ M by omega) with ⟨_, he⟩ | ⟨_, he⟩ <;> omega
  rw [decide_eq_decide.mpr hplace] at hok
  rw [sat_unless]
  constructor
  · intro hno
    exact ⟨hno.symm.trans hok, hmu.looked hfu, by simp⟩
  · intro hyes
    rw [sat_bind, sat_bytesMax (hmu.usable h.usable), sat_bind, sat_modulo (by omega), sat_bind,
      setReadOffset, sat_modify, sat_pure, Nat.add_zero, u64_of_lt (by omega : 1 < 2^64),
      u64_of_lt (by omega)]
    exact ⟨hyes.symm.trans hok, ⟨hfu, hmu.ideal⟩, fun _ => ⟨h.advance_moved hmu hfu, rfl⟩⟩

end ZeroLength

end CircularLog
