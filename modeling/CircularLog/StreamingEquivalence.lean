import CircularLog.Histories

/-! A streaming session against a plain write of the same record. Both run the same refusal test and
the same loop of pops, and the two ways to compute the offset of the end agree. -/
namespace CircularLog

section StreamingEquivalence
variable {M : ℕ} {s t u : State} {L P P' K K' : List Record} {r : Record}

theorem popped_unique {cap : ℕ} (h : L = P ++ K) (h' : L = P' ++ K')
    (hK : K = keep frameSize cap L) (hK' : K' = keep frameSize cap L) : P = P' := by
  have he : P ++ K = P' ++ K' := h.symm.trans h'
  rw [hK, ← hK'] at he
  exact List.append_cancel_right he

theorem Completed.file_eq {bytes : List UInt8} {cap : ℕ} (h : Completed M s t P K bytes)
    (h' : Completed M s u P' K' bytes) (hL : L = P ++ K) (hL' : L = P' ++ K')
    (hK : K = keep frameSize cap L) (hK' : K' = keep frameSize cap L) : u.file = t.file := by
  have hP : P = P' := popped_unique hL hL' hK hK'
  subst hP
  exact h'.file.unique h.file

/-- `StreamingWriteStart` refuses what `Write` refuses. -/
theorem streamingWriteStart_ready (h : Ready M s L) (hM : 10 ≤ M) {n : ℕ} (hn : n < 2^63) :
    Sat (streamingWriteStart n) s (fun ok t => ok = decide (Varint.size n+n < M) ∧
      (ok = false → t = s)) := by
  have hs := Varint.size_le (show n < 2^64 by omega)
  refine (streamingWriteStart_spec h.writable hM h.layout h.closed (by omega)).mono ?_
  intro ok t hstart
  cases hstart with
  | refused hbig => exact ⟨(decide_eq_false (by omega)).symm, fun _ => rfl⟩
  | cut _ _ hfault => exact absurd h.ideal hfault
  | opened hsmall _ _ => exact ⟨(decide_eq_true hsmall).symm, by simp⟩

end StreamingEquivalence

/-- A session in any chunks does to the file what `Write` does, and is refused when `Write` is. -/
theorem stream_eq_write {M : ℕ} (hM : 10 ≤ M) {s : State} {W : List Record} (h : Reachable M s W)
    {r : Record} (hne : r ≠ []) (hr : r.length < 2^63) {chunks : List (List UInt8)}
    (hchunks : ∀ c ∈ chunks, c ≠ []) (hsum : chunks.flatten = r) (behind behind' : Buffer) :
    Sat (write (memory r behind) r.length) s (fun ok t =>
      Sat (streamingWriteStart r.length) s (fun started _ => started = ok) ∧
      Sat (streamRecord behind' r.length chunks) s (fun ok' t' => ok' = ok ∧ t'.file = t.file ∧
        (ok = false → t = s ∧ t' = s) ∧
        (ok = true → t'.self = { s.self with
          error := t'.self.error
          streamingWriteOffset := 0
          streamingWriteBytesRemaining := 0 }))) := by
  obtain ⟨L, _, hready⟩ := h.ready hM
  refine (write_ready hready hM behind hne hr).mono ?_
  intro ok t hspec
  have hwrite := hspec.1
  subst hsum
  constructor
  · refine (streamingWriteStart_ready hready hM hr).mono ?_
    intro started _ hstart
    rw [hstart.1]
    cases hwrite with
    | refused hbig => exact decide_eq_false (by unfold frameSize at hbig; omega)
    | written hsmall _ _ _ _ => exact decide_eq_true hsmall
  · refine (stream_ready hready hM behind' hchunks hr).mono ?_
    intro ok' t' hspec'
    obtain ⟨hstream, hself⟩ := hspec'
    -- both are refused, or both pop the same records and write the same bytes
    cases hwrite with
    | refused hbig =>
      cases hstream with
      | refused _ => exact ⟨rfl, rfl, fun _ => ⟨rfl, rfl⟩, by simp⟩
      | written hsmall _ _ _ _ => omega
    | written hsmall hL hK hc _ =>
      cases hstream with
      | refused hbig => omega
      | written _ hL' hK' hc' _ =>
        exact ⟨rfl, hc.file_eq hc' hL hL' hK hK', by simp, fun _ => hself rfl⟩

theorem stream_eq_write_split :
    ∃ s, create blank.construct none (26+24) allDone = .opened s ∧
      Sat (write (memory [1, 2, 3] uninitialized) 3) s (fun ok t =>
        Sat (streamingWriteStart 3) s (fun started _ => started = ok) ∧
        Sat (streamRecord uninitialized 3 [[1], [2, 3]]) s (fun ok' t' => ok' = ok ∧
          t'.file = t.file ∧ (ok = false → t = s ∧ t' = s) ∧
          (ok = true → t'.self = { s.self with
            error := t'.self.error
            streamingWriteOffset := 0
            streamingWriteBytesRemaining := 0 }))) := by
  obtain ⟨s, hs, _⟩ := create_ready (M := 26) blank (by norm_num) (by norm_num)
  exact ⟨s, hs, stream_eq_write (by norm_num) (Reachable.create blank hs) (r := [1, 2, 3])
    (by simp) (by decide) (by simp) rfl uninitialized uninitialized⟩

end CircularLog
