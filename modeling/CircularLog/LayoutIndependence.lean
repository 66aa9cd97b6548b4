import CircularLog.Histories

/-! Where a ring starts and what its free cells hold has no influence on what is observed of it: a
run of writes shows what a list of records under `afterWrite` shows. -/
namespace CircularLog

/-- What one write shows: its result, the two counters after it, and what a reader then reads. -/
structure Observation where
  ok : Bool
  bytesUsed : ℕ
  bytesAvailable : ℕ
  records : Option (List Record)
  deriving DecidableEq, Repr

def observedWrite (behind : Buffer) (r : Record) : Op Observation := do
  let ok ← write (memory r behind) r.length
  let used ← bytesUsed
  let available ← bytesAvailable
  return ⟨ok, used, available, readBack blank (← get).file⟩

def observedWrites (behind : Buffer) : List Record → Op (List Observation)
  | [] => return []
  | r :: rs => do
    let o ← observedWrite behind r
    return o :: (← observedWrites behind rs)

/-- The records after a write that may be refused. -/
def afterAttempt (M : ℕ) (L : List Record) (r : Record) : List Record :=
  if frameSize r < M then afterWrite M L r else L

/-- The observations that the records alone determine. -/
def expected (M : ℕ) (L : List Record) : List Record → List Observation
  | [] => []
  | r :: rs =>
    let K := afterAttempt M L r
    ⟨decide (frameSize r < M), used K, M-used K, some K⟩ :: expected M K rs

section LayoutIndependence
variable {M : ℕ} {s : State} {L : List Record}

theorem observedWrite_spec (hM : 10 ≤ M) (h : Ready M s L) (hL : ∀ q ∈ L, q ≠ []) {r : Record}
    (hne : r ≠ []) (hr : r.length < 2^63) (behind : Buffer) :
    Sat (observedWrite behind r) s (fun o t =>
      o = ⟨decide (frameSize r < M), used (afterAttempt M L r), M-used (afterAttempt M L r),
        some (afterAttempt M L r)⟩ ∧
      Ready M t (afterAttempt M L r) ∧ ∀ q ∈ afterAttempt M L r, q ≠ []) := by
  apply (write_ready h hM behind hne hr).bind
  intro ok t hspec
  have hstep : ok = decide (frameSize r < M) ∧ Ready M t (afterAttempt M L r) ∧
      ∀ q ∈ afterAttempt M L r, q ≠ [] := by
    unfold afterAttempt
    cases hspec.1 with
    | refused hbig =>
      rw [if_neg (by omega)]
      exact ⟨(decide_eq_false (by omega)).symm, h, hL⟩
    | written hsmall _ _ _ ht =>
      rw [if_pos hsmall]
      exact ⟨(decide_eq_true hsmall).symm, ht, afterWrite_nonempty M hL hne⟩
  obtain ⟨hok, ht, hnonempty⟩ := hstep
  have hread := (ht.wellFormed hnonempty).readBack hM blank
  rw [sat_bind, sat_bytesUsed ht.writable.usable ht.layout, sat_bind,
    sat_bytesAvailable ht.writable.usable ht.layout, sat_bind, sat_get, sat_pure, hok, hread]
  exact ⟨rfl, ht, hnonempty⟩

theorem observedWrites_spec (hM : 10 ≤ M) (h : Ready M s L) (hL : ∀ q ∈ L, q ≠ [])
    (rs : List Record) (hrs : ∀ r ∈ rs, r ≠ [] ∧ r.length < 2^63) (behind : Buffer) :
    Sat (observedWrites behind rs) s (fun os _ => os = expected M L rs) := by
  induction rs generalizing s L with
  | nil => exact sat_pure.mpr rfl
  | cons r rs ih =>
    obtain ⟨hne, hr⟩ := hrs r List.mem_cons_self
    apply (observedWrite_spec hM h hL hne hr behind).bind
    intro o t hfirst
    obtain ⟨ho, ht, hnonempty⟩ := hfirst
    apply (ih ht hnonempty (fun q hq => hrs q (List.mem_cons_of_mem _ hq))).bind
    intro os u hos
    rw [sat_pure, ho, hos]
    rfl

end LayoutIndependence

/-- Two rings that hold the same records, wherever they start and whatever else they hold, show the
same in every run of writes. -/
theorem layout_independent {M : ℕ} (hM : 10 ≤ M) {f g : File} {L : List Record}
    (hf : WellFormed M f L) (hg : WellFormed M g L) (junk junk' : Ringfile) (rs : List Record)
    (hrs : ∀ r ∈ rs, r ≠ [] ∧ r.length < 2^63) (behind behind' : Buffer) :
    ∃ s t, openFile junk.construct (some f) .append allDone = .opened s ∧
      openFile junk'.construct (some g) .append allDone = .opened t ∧
      Sat (observedWrites behind rs) s (fun os _ =>
        Sat (observedWrites behind' rs) t (fun os' _ => os = os')) := by
  obtain ⟨s, hs, _, hready⟩ := hf.open_ready junk
  obtain ⟨t, ht, _, hready'⟩ := hg.open_ready junk'
  refine ⟨s, t, hs, ht, ?_⟩
  -- both runs show what the list of records shows
  refine (observedWrites_spec hM hready hf.nonempty rs hrs behind).mono ?_
  intro os _ hos
  refine (observedWrites_spec hM hready' hf.nonempty rs hrs behind').mono ?_
  intro os' _ hos'
  exact hos.trans hos'.symm

theorem layout_independent_rotated :
    ∃ s t, openFile blank.construct (some (File.holding 26 0 [[1, 2, 3]])) .append allDone =
        .opened s ∧
      openFile blank.construct (some (File.holding 26 24 [[1, 2, 3]])) .append allDone =
        .opened t ∧
      Sat (observedWrites uninitialized [[4, 5], [6]]) s (fun os _ =>
        Sat (observedWrites uninitialized [[4, 5], [6]]) t (fun os' _ => os = os')) := by
  have hf : WellFormed 26 (File.holding 26 0 [[1, 2, 3]]) [[1, 2, 3]] :=
    wellFormed_holding (by norm_num) (by decide) (by norm_num) (by simp)
  have hg : WellFormed 26 (File.holding 26 24 [[1, 2, 3]]) [[1, 2, 3]] :=
    wellFormed_holding (by norm_num) (by decide) (by norm_num) (by simp)
  exact layout_independent (by norm_num) hf hg blank blank _ (by simp) uninitialized uninitialized

end CircularLog
