import CircularLog.ReadBack

/-! The states a ring can be in after writes that succeeded, every call having done all it was asked
for. Each of them holds a suffix of the records written. -/
namespace CircularLog

/-- `s` is reached from `Create` by writes that succeeded; `W` lists their records. -/
inductive Reachable (M : ℕ) : State → List Record → Prop
  | create {s : State} (junk : Ringfile)
      (hs : create junk.construct none (M+24) allDone = .opened s) : Reachable M s []
  | write {s t : State} {W : List Record} (h : Reachable M s W) (r : Record) (behind : Buffer)
      (hr : r.length < 2^63) (ht : write (memory r behind) r.length s = .ok true t) :
      Reachable M t (W ++ [r])
  | stream {s t : State} {W : List Record} (h : Reachable M s W) (chunks : List (List UInt8))
      (behind : Buffer) (hne : ∀ c ∈ chunks, c ≠ []) (hr : chunks.flatten.length < 2^63)
      (ht : streamRecord behind chunks.flatten.length chunks s = .ok true t) :
      Reachable M t (W ++ [chunks.flatten])
  | reopen {s t : State} {W : List Record} (h : Reachable M s W) (junk : Ringfile)
      (ht : reopen junk s = .ok true t) : Reachable M t W

section Histories
variable {M : ℕ} {s : State} {f : File} {W L : List Record}

theorem afterWrite_history (h : L <:+ W) (r : Record) : afterWrite M L r <:+ W ++ [r] := by
  obtain ⟨P, rfl⟩ := h
  obtain ⟨A, hA⟩ := afterWrite_suffix M L r
  exact ⟨P ++ A, by rw [List.append_assoc, hA, List.append_assoc]⟩

theorem afterWrite_forall {p : Record → Prop} {r : Record} (M : ℕ) (hL : ∀ q ∈ L, p q)
    (hr : p r) : ∀ q ∈ afterWrite M L r, p q := by
  intro q hq
  rcases List.mem_append.mp ((afterWrite_suffix M L r).subset hq) with hq | hq
  · exact hL q hq
  · rwa [List.mem_singleton.mp hq]

theorem afterWrite_nonempty {r : Record} (M : ℕ) (hL : ∀ q ∈ L, q ≠ []) (hr : r ≠ []) :
    ∀ q ∈ afterWrite M L r, q ≠ [] := afterWrite_forall M hL hr

theorem Reachable.ready (hM : 10 ≤ M) (h : Reachable M s W) : ∃ L, L <:+ W ∧ Ready M s L := by
  induction h with
  | create junk hs =>
    obtain ⟨_, hsize, _⟩ := create_opened hs
    obtain ⟨s', hs', hready, _⟩ := create_ready (M := M) junk (by omega) hsize
    rw [hs] at hs'
    cases hs'
    exact ⟨[], List.nil_suffix, hready⟩
  | write h r behind hr ht ih =>
    obtain ⟨L, hL, hready⟩ := ih
    by_cases hne : r = []
    · -- a blank write that succeeded
      subst hne
      obtain ⟨_, hdone⟩ := (sat_of_run ht).mp (write_empty hready hM (memory [] behind))
      exact ⟨_, afterWrite_history hL [], (hdone rfl).1⟩
    · cases ((sat_of_run ht).mp (write_ready hready hM behind hne hr)).1 with
      | written _ _ _ _ hw => exact ⟨_, afterWrite_history hL r, hw⟩
  | stream h chunks behind hne hr ht ih =>
    obtain ⟨L, hL, hready⟩ := ih
    cases ((sat_of_run ht).mp (stream_ready hready hM behind hne hr)).1 with
    | written _ _ _ _ hw => exact ⟨_, afterWrite_history hL _, hw⟩
  | reopen h junk ht ih =>
    obtain ⟨L, hL, hready⟩ := ih
    obtain ⟨_, hw, _⟩ := (sat_of_run ht).mp (reopen_ready hready junk)
    exact ⟨L, hL, hw⟩

theorem Ready.wellFormed (h : Ready M s L) (hne : ∀ r ∈ L, r ≠ []) : WellFormed M s.file L :=
  ⟨h.writable.length, h.writable.bound, h.magic, h.layout, hne⟩

theorem WellFormed.open_ready (h : WellFormed M f L) (junk : Ringfile) :
    ∃ s, openFile junk.construct (some f) .append allDone = .opened s ∧ s.file = f ∧
      Ready M s L := by
  have hlen := h.length
  refine ⟨openedState junk.construct f .append allDone, ?_, rfl, ?_⟩
  · apply openFile_eq junk.construct .append (fun _ => rfl)
    · omega
    · exact h.magic
  · exact ⟨⟨rfl, rfl, hlen, hlen, h.bound⟩, fun _ => rfl, rfl, h.magic, h.layout⟩

/-- Where no empty record was written, a reader reads what the ring holds. -/
theorem Reachable.readBack (hM : 10 ≤ M) (h : Reachable M s W) (hne : ∀ r ∈ W, r ≠ []) :
    ∃ L, L <:+ W ∧ Ready M s L ∧ WellFormed M s.file L ∧
      ∀ junk, CircularLog.readBack junk s.file = some L := by
  obtain ⟨L, hL, hready⟩ := h.ready hM
  have hw := hready.wellFormed (fun r hr => hne r (hL.subset hr))
  exact ⟨L, hL, hready, hw, fun junk => hw.readBack hM junk⟩

/-- Any records that can be written have been written in some run. -/
theorem exists_reachable (hM : 10 ≤ M) (hsize : M+24 < 2^63)
    (hW : ∀ r ∈ W, r ≠ [] ∧ frameSize r < M) :
    ∃ s, Reachable M s W ∧ Ready M s (W.foldl (afterWrite M) []) := by
  induction W using List.reverseRecOn with
  | nil =>
    obtain ⟨s, hs, hready, _⟩ := create_ready (M := M) blank (by omega) hsize
    exact ⟨s, .create blank hs, hready⟩
  | append_singleton W r ih =>
    obtain ⟨s, hs, hready⟩ := ih (fun q hq => hW q (List.mem_append_left _ hq))
    obtain ⟨hne, hfits⟩ := hW r (by simp)
    have hlen : r.length ≤ frameSize r := Nat.le_add_left _ _
    obtain ⟨ok, t, hrun, hcases, _⟩ := write_ready hready hM uninitialized hne (by omega)
    cases hcases with
    | refused hbig => omega
    | written _ _ _ _ ht =>
      refine ⟨t, hs.write r uninitialized (by omega) hrun, ?_⟩
      rwa [List.foldl_append]

/-- Three records that leave one byte of 26. -/
def nearlyFull : List Record := [[1, 2, 3], [4, 5], List.replicate 17 6]

theorem nearlyFull_reachable : ∃ s, Reachable 26 s nearlyFull ∧ Ready 26 s nearlyFull ∧
    WellFormed 26 s.file nearlyFull ∧
      ∀ junk, CircularLog.readBack junk s.file = some nearlyFull := by
  obtain ⟨s, hs, hready⟩ := exists_reachable (M := 26) (W := nearlyFull) (by norm_num) (by norm_num)
    (by decide)
  have hkept : nearlyFull.foldl (afterWrite 26) [] = nearlyFull := by decide +kernel
  rw [hkept] at hready
  have hw := hready.wellFormed (by decide)
  exact ⟨s, hs, hready, hw, fun junk => hw.readBack (by norm_num) junk⟩

end Histories

end CircularLog
