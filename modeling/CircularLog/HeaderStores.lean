import CircularLog.Histories

/-! The header after each single store. `start_offset` is advanced by one store and reduced by the
next, and so is `end_offset`; in between, another process sees the unreduced value. -/
namespace CircularLog

def Event.IsStore (event : Event) : Prop := event = .advance ∨ event = .reduce

/-- Both offsets lie in the area, and a reader that opens `f` reads a suffix of `W` and then reaches
the end of file. -/
structure Consistent (M : ℕ) (W : List Record) (f : File) : Prop where
  start_lt : f.header.startOffset < M
  end_lt : f.header.endOffset < M
  reads : ∃ K, K <:+ W ∧ ∀ junk, readBack junk f = some K

/-- Every store from `s` to `t`, where `r` was written after `W`, left the header consistent. -/
def StoresConsistent (M : ℕ) (W : List Record) (r : Record) (s t : State) : Prop :=
  ∃ new, t.steps = new ++ s.steps ∧ ∀ x ∈ new, x.event.IsStore →
    Consistent M W x.file ∨ Consistent M (W ++ [r]) x.file

/-- Neither the frames that a write of `r` evicts nor the frame it adds reach the end of the
area. -/
def StaysInside (M : ℕ) (f : File) (L : List Record) (r : Record) : Prop :=
  f.header.startOffset+(used L-used (keep frameSize (M-frameSize r) L)) < M ∧
    f.header.endOffset+frameSize r < M

section HeaderStores
variable {M : ℕ} {s t : State} {f : File} {P K L W : List Record} {r : Record}

theorem WellFormed.consistent (h : WellFormed M f K) (hM : 10 ≤ M) (hK : K <:+ W) :
    Consistent M W f :=
  ⟨h.layout.start_lt, h.layout.end_lt, K, hK, fun junk => h.readBack hM junk⟩

theorem Pending.wellFormed {g : File} (h : Pending M f P K g) (hw : WellFormed M f (P ++ K)) :
    WellFormed M g K := by
  refine ⟨h.length.trans hw.length, hw.bound, ?_, h.layout hw.layout, ?_⟩
  · rw [h.header]
    exact hw.magic
  · intro q hq
    exact hw.nonempty q (List.mem_append_right P hq)

/-- Offsets advanced frame by frame stay below the end of the area exactly as long as their sum
does. -/
theorem advances_inside {start : ℕ} (hs : start < M)
    (h : ∀ A q B, P = A ++ q :: B → (start+used A)%M+frameSize q < M) : start+used P < M := by
  induction P generalizing start with
  | nil =>
    rw [used_nil]
    omega
  | cons q P ih =>
    have hfirst := h [] q P rfl
    rw [used_nil, Nat.add_zero, Nat.mod_eq_of_lt hs] at hfirst
    have hrest : start+frameSize q+used P < M := by
      apply ih hfirst
      intro A p B hP
      have hA := h (q :: A) p B (by rw [hP]; rfl)
      rwa [used_cons, ← Nat.add_assoc] at hA
    rw [used_cons]
    omega

theorem Filled.withEnd_eq {g : File} {bytes : List UInt8} (h : Filled M f P bytes g)
    (hend : f.header.endOffset+bytes.length < M) :
    g.withEnd (f.header.endOffset+bytes.length) = g := by
  have hh := h.header
  rw [Nat.mod_eq_of_lt hend] at hh
  cases g
  cases hh
  rfl

/-- Pops that stay inside the area leave the header consistent at each of their stores. -/
theorem PopStep.consistent {x : Step} (h : PopStep M f P K x) (hM : 10 ≤ M)
    (hw : WellFormed M f (P ++ K)) (hL : P ++ K <:+ W) (hinside : f.header.startOffset+used P < M) :
    Consistent M W x.file := by
  obtain ⟨A, B, hP, hstep⟩ := h
  subst hP
  rw [List.append_assoc] at hw hL
  rcases hstep with ⟨_, hpending⟩ | ⟨_, q, C, hB, hfile⟩
  · exact (hpending.wellFormed hw).consistent hM ((List.suffix_append A _).trans hL)
  · subst hB
    -- the store before the reduction already has the reduced value
    rw [used_append, used_cons] at hinside
    have hoff : (f.header.startOffset+used A)%M+frameSize q =
        (f.header.startOffset+used (A ++ [q]))%M := by
      calc
        (f.header.startOffset+used A)%M+frameSize q
            = f.header.startOffset+used A+frameSize q := by rw [Nat.mod_eq_of_lt (by omega)]
        _ = f.header.startOffset+used (A ++ [q]) := by simp [Nat.add_assoc]
        _ = (f.header.startOffset+used (A ++ [q]))%M := by
          rw [Nat.mod_eq_of_lt]
          simp only [used_append, used_cons, used_nil]
          omega
    have hsplit : A ++ (q :: C ++ K) = A ++ [q] ++ (C ++ K) := by simp
    rw [hsplit] at hw hL
    rw [hfile, hoff]
    have hpopped := pending_withStart M f (A ++ [q]) (C ++ K)
    exact (hpopped.wellFormed hw).consistent hM ((List.suffix_append _ _).trans hL)

theorem Completed.wellFormed (hc : Completed M s t P K (frame r))
    (hw : WellFormed M s.file (P ++ K)) (hr : frameSize r ≤ M)
    (hK : K = keep frameSize (M-frameSize r) (P ++ K)) (hne : r ≠ []) :
    WellFormed M t.file (afterWrite M (P ++ K) r) := by
  refine ⟨hc.file.length.trans hw.length, hw.bound, ?_, hc.file.layout hw.layout hr hK, ?_⟩
  · rw [hc.file.header]
    exact hw.magic
  · exact afterWrite_nonempty M hw.nonempty hne

/-- If every store of a completed write left the header consistent, no frame reached the end of the
area: the first store of each pop and the first store to the end would have shown it. -/
theorem Completed.inside_of_stores (hc : Completed M s t P K (frame r))
    (hl : Layout M s.file (P ++ K)) (hcons : StoresConsistent M W r s t) :
    s.file.header.startOffset+used P < M ∧ s.file.header.endOffset+frameSize r < M := by
  obtain ⟨new, hnew, _, hraw⟩ := hc.steps
  obtain ⟨all, hall, hgood⟩ := hcons
  rw [frame_length] at hnew
  have hsteps : all = ⟨.reduce, t.file⟩ ::
      ⟨.advance, t.file.withEnd (s.file.header.endOffset+frameSize r)⟩ :: new := by
    have hsame : all ++ s.steps = (⟨.reduce, t.file⟩ ::
        ⟨.advance, t.file.withEnd (s.file.header.endOffset+frameSize r)⟩ :: new) ++ s.steps := by
      rw [← hall, hnew]
      rfl
    exact List.append_cancel_right hsame
  -- no store left an offset outside the area
  have hlt (x : Step) (hm : x ∈ all) (he : x.event.IsStore) :
      x.file.header.startOffset < M ∧ x.file.header.endOffset < M := by
    rcases hgood x hm he with hg | hg
    · exact ⟨hg.start_lt, hg.end_lt⟩
    · exact ⟨hg.start_lt, hg.end_lt⟩
  constructor
  · -- each pop's first store
    apply advances_inside hl.start_lt
    intro A q B hP
    have hm : (⟨.advance, s.file.withStart
        ((s.file.header.startOffset+used A)%M+frameSize q)⟩ : Step) ∈ all := by
      rw [hsteps]
      exact List.mem_cons_of_mem _ (List.mem_cons_of_mem _ (hraw A q B hP))
    exact (hlt _ hm (Or.inl rfl)).1
  · -- the first store to the end
    have hm : (⟨.advance, t.file.withEnd (s.file.header.endOffset+frameSize r)⟩ : Step) ∈ all := by
      rw [hsteps]
      exact List.mem_cons_of_mem _ List.mem_cons_self
    exact (hlt _ hm (Or.inl rfl)).2

theorem Completed.stores_of_inside (hM : 10 ≤ M) (hc : Completed M s t P K (frame r))
    (hw : WellFormed M s.file (P ++ K)) (hr : frameSize r ≤ M)
    (hK : K = keep frameSize (M-frameSize r) (P ++ K)) (hL : P ++ K <:+ W) (hne : r ≠ [])
    (hstart : s.file.header.startOffset+used P < M)
    (hend : s.file.header.endOffset+frameSize r < M) : StoresConsistent M W r s t := by
  obtain ⟨new, hnew, hx, _⟩ := hc.steps
  have hfinal : Consistent M (W ++ [r]) t.file :=
    (hc.wellFormed hw hr hK hne).consistent hM (afterWrite_history hL r)
  refine ⟨_ :: _ :: new, hnew, ?_⟩
  intro x hm _
  -- the two stores to the end, and then what came before them
  rcases List.mem_cons.mp hm with hm | hm
  · rw [hm]
    exact Or.inr hfinal
  rcases List.mem_cons.mp hm with hm | hm
  · rw [← frame_length] at hend
    rw [hm]
    dsimp only
    rw [hc.file.withEnd_eq hend]
    exact Or.inr hfinal
  · exact Or.inl ((hx x hm).consistent hM hw hL hstart)

theorem Completed.stores_iff (hM : 10 ≤ M) (hw : WellFormed M s.file (P ++ K))
    (hc : Completed M s t P K (frame r)) (hr : frameSize r < M)
    (hK : K = keep frameSize (M-frameSize r) (P ++ K)) (hL : P ++ K <:+ W) (hne : r ≠ []) :
    StoresConsistent M W r s t ↔ StaysInside M s.file (P ++ K) r := by
  have hused : used (P ++ K)-used (keep frameSize (M-frameSize r) (P ++ K)) = used P := by
    rw [← hK, used_append]
    omega
  rw [StaysInside, hused]
  constructor
  · intro hcons
    exact hc.inside_of_stores hw.layout hcons
  · intro hinside
    exact hc.stores_of_inside hM hw hr.le hK hL hne hinside.1 hinside.2

theorem storesConsistent_refl (M : ℕ) (W : List Record) (r : Record) (s : State) :
    StoresConsistent M W r s s := ⟨[], rfl, by simp⟩

end HeaderStores

/-- Every store of a write, plain or streaming, leaves the header consistent if and only if the
record is refused or neither the frames evicted nor its own reach the end of the area. -/
theorem stores_consistent_iff {M : ℕ} (hM : 10 ≤ M) {s : State} {W : List Record}
    (h : Reachable M s W) (hW : ∀ q ∈ W, q ≠ []) :
    ∃ L, (∀ junk, readBack junk s.file = some L) ∧
      ∀ (r : Record) (chunks : List (List UInt8)) (behind : Buffer), r ≠ [] → r.length < 2^63 →
        (∀ c ∈ chunks, c ≠ []) → chunks.flatten = r →
        Sat (write (memory r behind) r.length) s (fun _ t =>
          StoresConsistent M W r s t ↔ M ≤ frameSize r ∨ StaysInside M s.file L r) ∧
        Sat (streamRecord behind r.length chunks) s (fun _ t =>
          StoresConsistent M W r s t ↔ M ≤ frameSize r ∨ StaysInside M s.file L r) := by
  obtain ⟨L, hL, hready, hw, hread⟩ := h.readBack hM hW
  refine ⟨L, hread, ?_⟩
  intro r chunks behind hne hr hchunks hsum
  -- a plain write and a session come to the same result
  constructor
  · refine (write_ready hready hM behind hne hr).mono ?_
    intro ok t hspec
    cases hspec.1 with
    | refused hbig => exact ⟨fun _ => Or.inl hbig, fun _ => storesConsistent_refl M W r s⟩
    | written hsmall hPK hK hc _ =>
      subst hPK
      rw [hc.stores_iff hM hw hsmall hK hL hne, or_iff_right (by omega)]
  · subst hsum
    refine (stream_ready hready hM behind hchunks hr).mono ?_
    intro ok t hspec
    cases hspec.1 with
    | refused hbig => exact ⟨fun _ => Or.inl hbig, fun _ => storesConsistent_refl M W _ s⟩
    | written hsmall hPK hK hc _ =>
      subst hPK
      rw [hc.stores_iff hM hw hsmall hK hL hne, or_iff_right (by omega)]

/-- A record of three bytes makes the first one go and runs over the end of the area. -/
theorem stores_consistent_iff_evicting :
    ∃ s, Reachable 26 s nearlyFull ∧ (∀ junk, readBack junk s.file = some nearlyFull) ∧
      Sat (write (memory [7, 8, 9] uninitialized) 3) s (fun _ t =>
        StoresConsistent 26 nearlyFull [7, 8, 9] s t ↔
          26 ≤ frameSize [7, 8, 9] ∨ StaysInside 26 s.file nearlyFull [7, 8, 9]) ∧
      Sat (streamRecord uninitialized 3 [[7], [8, 9]]) s (fun _ t =>
        StoresConsistent 26 nearlyFull [7, 8, 9] s t ↔
          26 ≤ frameSize [7, 8, 9] ∨ StaysInside 26 s.file nearlyFull [7, 8, 9]) := by
  obtain ⟨s, hs, _, _, hread⟩ := nearlyFull_reachable
  obtain ⟨L, hL, hstores⟩ := stores_consistent_iff (by norm_num) hs (by decide)
  have hsame := hL blank
  rw [hread blank] at hsame
  cases hsame
  exact ⟨s, hs, hread, hstores [7, 8, 9] [[7], [8, 9]] uninitialized (by simp) (by simp) (by simp)
    rfl⟩

/-- In a ring of ten bytes that ends at 8, a record of two bytes is written over the end of the
area: for one step `end_offset` is 11. -/
theorem end_offset_leaves_area :
    ∃ s t new raw, Reachable 10 s [[1, 2, 3, 4, 5, 6, 7]] ∧
      write (memory [8, 9] uninitialized) 2 s = .ok true t ∧ t.steps = new ++ s.steps ∧
      (⟨.advance, raw⟩ : Step) ∈ new ∧ raw.header.endOffset = 11 := by
  obtain ⟨s₀, hs₀, hready₀, hstart₀, _⟩ := create_ready (M := 10) blank (by norm_num) (by norm_num)
  have hfirst : afterWrite 10 [] [1, 2, 3, 4, 5, 6, 7] = [[1, 2, 3, 4, 5, 6, 7]] := by decide
  obtain ⟨ok, s, hrun, hbig | ⟨_, _, _, hc, hs⟩, _⟩ :=
    write_ready (r := [1, 2, 3, 4, 5, 6, 7]) hready₀ (by norm_num) uninitialized (by simp)
      (by decide)
  · exact absurd hbig (by decide)
  rw [hfirst] at hs
  have hend₀ : s₀.file.header.endOffset = 0 := by
    rw [hready₀.layout.end_eq, hstart₀]
    rfl
  -- the first record takes the cells 0 to 7
  have hend : s.file.header.endOffset = 8 := by
    rw [hc.file.header, hend₀]
    dsimp only
    decide
  obtain ⟨ok', t, hrun', hbig | ⟨_, _, _, hc', ht⟩, _⟩ :=
    write_ready (r := [8, 9]) hs (by norm_num) uninitialized (by simp) (by decide)
  · exact absurd hbig (by decide)
  obtain ⟨new, hnew, _⟩ := hc'.steps
  refine ⟨s, t, _ :: _ :: new, _, (Reachable.create blank hs₀).write [1, 2, 3, 4, 5, 6, 7]
    uninitialized (by decide) hrun, hrun', hnew, List.mem_cons_of_mem _ List.mem_cons_self, ?_⟩
  dsimp only [File.withEnd]
  rw [hend]
  decide

end CircularLog
