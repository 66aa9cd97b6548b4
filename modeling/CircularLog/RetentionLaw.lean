import CircularLog.Histories

/-! What a write keeps, compared with the longest suffix that leaves the reserved byte free. The
loop that pops records asks for room for the frame alone, so a suffix that fills the ring together
with the new frame stays, the offsets meet, and a reader finds nothing. -/
namespace CircularLog

section RetentionLaw
variable {M : ℕ} {L : List Record} {r : Record}

/-- A write keeps the longest suffix that fits unless some suffix fits exactly. -/
theorem afterWrite_eq_keep_iff (hr : frameSize r < M) :
    afterWrite M L r = keep frameSize (M-1) (L ++ [r]) ↔
      ∀ K, K <:+ L → used K+frameSize r ≠ M := by
  -- both sides end with `r`, so what they keep before it decides
  have hcap : M-1-frameSize r = M-frameSize r-1 := by omega
  rw [keep_append_singleton frameSize L r (by omega), hcap]
  unfold afterWrite
  dsimp only
  by_cases hfull : used (keep frameSize (M-frameSize r) L)+frameSize r = M
  · -- the exact fit itself is the suffix that the right side excludes
    rw [if_pos hfull]
    constructor
    · intro he
      exact absurd he.symm (List.append_ne_nil_of_right_ne_nil _ (List.cons_ne_nil r []))
    · intro hno
      exact absurd hfull (hno _ (keep_suffix frameSize _ L))
  · rw [if_neg hfull, List.append_left_inj, keep_pred_iff frameSize (by omega)]
    constructor
    · intro hno K hK he
      apply hno K hK
      change used K = _
      omega
    · intro hno K hK he
      apply hno K hK
      change used K = _ at he
      omega

end RetentionLaw

/-- After an accepted write a reader reads the longest suffix of the log and the new record that
leaves one byte free if and only if no suffix of the log fills the ring together with the new
frame. -/
theorem retention_iff {M : ℕ} (hM : 10 ≤ M) {s : State} {W : List Record} (h : Reachable M s W)
    (hW : ∀ q ∈ W, q ≠ []) :
    ∃ L, (∀ junk, readBack junk s.file = some L) ∧
      ∀ (r : Record) (behind : Buffer), r ≠ [] → frameSize r+1 ≤ M →
        Sat (write (memory r behind) r.length) s (fun ok t => ok = true ∧ ∀ junk,
          (readBack junk t.file = some (keep frameSize (M-1) (L ++ [r])) ↔
            ∀ K, K <:+ L → used K+frameSize r ≠ M)) := by
  obtain ⟨L, hL, hready, _, hread⟩ := h.readBack hM hW
  refine ⟨L, hread, ?_⟩
  intro r behind hne hr
  have hb := hready.writable.bound
  have hlen : r.length < 2^63 := by
    unfold frameSize at hr
    omega
  refine (write_ready hready hM behind hne hlen).mono ?_
  intro ok t hspec
  cases hspec.1 with
  | refused hbig => omega
  | written hsmall _ _ _ ht =>
    refine ⟨rfl, fun junk => ?_⟩
    have hnonempty := afterWrite_nonempty M (fun q hq => hW q (hL.subset hq)) hne
    rw [(ht.wellFormed hnonempty).readBack hM junk, Option.some_inj]
    exact afterWrite_eq_keep_iff hsmall

/-- A record of three bytes makes the first one go. -/
theorem retention_iff_evicting :
    ∃ s, Reachable 26 s nearlyFull ∧ (∀ junk, readBack junk s.file = some nearlyFull) ∧
      Sat (write (memory [7, 8, 9] uninitialized) 3) s (fun ok t => ok = true ∧ ∀ junk,
        readBack junk t.file = some [[4, 5], List.replicate 17 6, [7, 8, 9]]) := by
  obtain ⟨s, hs, _, _, hread⟩ := nearlyFull_reachable
  obtain ⟨L, hL, hwrite⟩ := retention_iff (by norm_num) hs (by decide)
  have hsame := hL blank
  rw [hread blank] at hsame
  cases hsame
  refine ⟨s, hs, hread, (hwrite [7, 8, 9] uninitialized (by simp) (by decide)).mono ?_⟩
  intro ok t hspec
  refine ⟨hspec.1, fun junk => ?_⟩
  have hkeep : keep frameSize (26-1) (nearlyFull ++ [[7, 8, 9]]) =
      [[4, 5], List.replicate 17 6, [7, 8, 9]] := by decide +kernel
  rw [← hkeep]
  apply (hspec.2 junk).mpr
  -- no part of the records leaves four bytes and no more
  have htails : ∀ K ∈ nearlyFull.tails, used K+frameSize [7, 8, 9] ≠ 26 := by decide +kernel
  exact fun K hK => htails K ((List.mem_tails K nearlyFull).mpr hK)

/-- Two records of four bytes fill a ring of ten bytes exactly: the second write succeeds and leaves
nothing to read, although the record just written fits. -/
theorem exact_fit_discards_log :
    ∃ s t u, Reachable 10 s [] ∧
      write (memory [1, 2, 3, 4] uninitialized) 4 s = .ok true t ∧
      readBack blank t.file = some [[1, 2, 3, 4]] ∧
      write (memory [5, 6, 7, 8] uninitialized) 4 t = .ok true u ∧
      readBack blank u.file = some [] ∧
      keep frameSize (10-1) [[1, 2, 3, 4], [5, 6, 7, 8]] = [[5, 6, 7, 8]] := by
  obtain ⟨s, hs, hready, _⟩ := create_ready (M := 10) blank (by norm_num) (by norm_num)
  have hfirst : afterWrite 10 [] [1, 2, 3, 4] = [[1, 2, 3, 4]] := by decide
  have hsecond : afterWrite 10 [[1, 2, 3, 4]] [5, 6, 7, 8] = [] := by decide
  obtain ⟨ok, t, hrun, hbig | ⟨_, _, _, _, ht⟩, _⟩ := write_ready (r := [1, 2, 3, 4]) hready
    (by norm_num) uninitialized (by simp) (by decide)
  · exact absurd hbig (by decide)
  obtain ⟨ok', u, hrun', hbig | ⟨_, _, _, _, hu⟩, _⟩ := write_ready (r := [5, 6, 7, 8]) ht
    (by norm_num) uninitialized (by simp) (by decide)
  · exact absurd hbig (by decide)
  rw [hfirst] at ht hu
  rw [hsecond] at hu
  exact ⟨s, t, u, Reachable.create blank hs, hrun,
    (ht.wellFormed (by simp)).readBack (by norm_num) blank, hrun',
    (hu.wellFormed (by simp)).readBack (by norm_num) blank, by decide⟩

end CircularLog
