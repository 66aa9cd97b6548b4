import CircularLog.ExactReads
import CircularLog.SizeCheck

/-! Rings smaller than the window that the readers fetch. A record is written with as many header
bytes as it needs, and the ten bytes read back may run over the end of the file. -/
namespace CircularLog

/-- A reader that opens `f` is told the length of `r`, and `Read` with a buffer of that length
returns `r`. -/
def ReadsBack (f : File) (r : Record) : Prop :=
  ∀ junk : Ringfile, ∃ s, openFile junk.construct (some f) .read allDone = .opened s ∧
    Sat nextRecordSize s (fun v t => v = some r.length ∧ ∀ buffer,
      Sat (read buffer r.length) t (fun w _ => w.1 = true ∧ contents w.2 r.length = r))

section SmallRings
variable {M : ℕ} {s t : State} {f : File} {r : Record} {outcomes : ℕ → Outcome}

/-- A record accepted by a new ring is all that the ring then holds. -/
theorem first_write (junk : Ringfile) (hM : 0 < M) (hne : r ≠ []) (hr : r.length < 2^63)
    (behind : Buffer) (hs : create junk.construct none (M+24) outcomes = .opened s)
    (ht : write (memory r behind) r.length s = .ok true t) :
    frameSize r < M ∧ WellFormed M t.file [r] ∧ t.file.header.startOffset = 0 := by
  obtain ⟨_, hsize, rfl⟩ := create_opened hs
  have hlen := Varint.size_le (show r.length < 2^64 by omega)
  have hlayout := createdState_layout junk.construct outcomes hM
  have hwritable := createdState_writable junk.construct outcomes hsize
  have hsmall : Varint.size r.length+r.length < M := by
    by_contra hbig
    -- a record that is too big is refused
    have hcheck := passesCheck_eq hwritable.usable (show r.length < 2^64 by omega)
    rw [u64_of_lt (by omega), decide_eq_false (by omega)] at hcheck
    rw [write_refused hcheck] at ht
    cases ht
  have hroom : used []+(Varint.size r.length+r.length) ≤ M := by
    rw [used_nil]
    omega
  -- an empty ring evicts nothing, so no window has to be read
  have hspec := write_spec hwritable hlayout (Or.inr hroom) (memory r behind)
    (List.length_pos_iff.mpr hne) (by omega)
  obtain ⟨hw, _⟩ := (sat_of_run ht).mp hspec
  rw [frame_eq] at hw
  cases hw with
  | completed _ hL hK hc =>
    obtain ⟨rfl, rfl⟩ := List.append_eq_nil_iff.mp hL.symm
    have hframe : frameSize r < M := hsmall
    have hkept : ([] : List Record) = keep frameSize (M-frameSize r) ([] ++ []) := rfl
    have hafter : afterWrite M ([] ++ []) r = [r] := by
      unfold afterWrite
      rw [← hkept]
      dsimp only
      rw [used_nil, if_neg (by omega), List.nil_append]
    have hl := hc.file.layout hlayout hframe.le hkept
    rw [hafter] at hl
    have hheader := hc.file.header
    refine ⟨hframe, ⟨hc.file.length, hsize, ?_, hl, ?_⟩, ?_⟩
    · rw [hheader]
      rfl
    · intro q hq
      rwa [List.mem_singleton.mp hq]
    · rw [hheader]
      exact Nat.zero_mod M

/-- A reader gets the one record of a ring exactly when it can read a window at offset zero. -/
theorem readsBack_iff (hw : WellFormed M f [r]) (hstart : f.header.startOffset = 0) :
    ReadsBack f r ↔ ¬Undeliverable M 0 10 := by
  have hb := hw.bound
  have hfits := hw.layout.fits
  rw [used_cons, used_nil] at hfits
  have hsize : frameSize r = Varint.size r.length+r.length := rfl
  have hlen : 1 ≤ r.length := List.length_pos_iff.mpr (hw.nonempty r (by simp))
  have hM : 0 < M := by omega
  have hwindow := transferResult_allDone hM (by omega) 0 (show 10 < 2^64 by norm_num)
  constructor
  · intro h
    obtain ⟨s, hs, hnext⟩ := h blank
    obtain ⟨s', hs', _, hi, hu, hcursor, _⟩ := hw.layout.open_unread hw.length hb hw.magic blank
    rw [hs] at hs'
    cases hs'
    obtain ⟨v, t, _, ⟨hv, _⟩, hv', _⟩ := hnext.and (nextRecordSize_exact hu)
    rw [hcursor, hstart, hi.outcomes, hwindow, hv] at hv'
    -- `NextRecordSize` would have failed on its window
    by_contra hno
    rw [decide_eq_false (not_not.mpr hno)] at hv'
    cases hv'
  · intro h junk
    obtain ⟨s, hs, hf, hi, hu, hcursor, _⟩ := hw.layout.open_unread hw.length hb hw.magic junk
    refine ⟨s, hs, (nextRecordSize_exact hu).mono ?_⟩
    intro v t hspec
    obtain ⟨hv, hout, hut, _, hself⟩ := hspec
    rw [hcursor, hstart, hi.outcomes, hwindow, decide_eq_true h] at hv hout
    refine ⟨hv, fun buffer => (read_exact hut buffer le_rfl).mono ?_⟩
    intro w u hspec
    obtain ⟨hok, _, _, hdone⟩ := hspec
    have hcursor' : t.self.readOffset = 0 := by
      rw [hself]
      exact hcursor.trans hstart
    rw [hcursor', hout, readResult, hwindow, decide_eq_true h, if_pos rfl,
      transfer_delivered hM (by omega) _ hlen (by omega)] at hok
    exact ⟨hok, (hdone hok).1⟩

end SmallRings

/-- A record that a new ring accepts can be read back exactly when the area holds a window, or is
half of one long. -/
theorem accepted_readable_iff {M : ℕ} (hM : 2 ≤ M) {junk : Ringfile} {outcomes : ℕ → Outcome}
    {s t : State} (hs : create junk.construct none (M+24) outcomes = .opened s) {r : Record}
    (hne : r ≠ []) (hr : r.length < 2^63) {behind : Buffer}
    (ht : write (memory r behind) r.length s = .ok true t) :
    ReadsBack t.file r ↔ M = 5 ∨ 10 ≤ M := by
  obtain ⟨hsmall, hw, hstart⟩ := first_write junk (by omega) hne hr behind hs ht
  have hb := hw.bound
  have hlen : 1 ≤ r.length := List.length_pos_iff.mpr hne
  have hsize : frameSize r = Varint.size r.length+r.length := rfl
  have hpos := Varint.size_pos (show r.length < 2^64 by omega)
  rw [readsBack_iff hw hstart]
  unfold Undeliverable
  rw [Nat.zero_mod, Nat.zero_add, u64_of_lt (by norm_num)]
  dsimp only [minusOne]
  by_cases hlarge : 10 ≤ M
  · omega
  · -- the sizes from three to nine, one by one
    have h3 : 3 ≤ M := by omega
    interval_cases M <;> simp

theorem accepted_readable_iff_five :
    ∃ s t, create blank.construct none (5+24) allDone = .opened s ∧
      write (memory [7] uninitialized) 1 s = .ok true t ∧
      (ReadsBack t.file [7] ↔ 5 = 5 ∨ 10 ≤ 5) := by
  have hs := create_allDone blank.construct (show 0 < 5+24 by norm_num) (by norm_num)
  have hwrite : resultOf (write (memory [7] uninitialized) 1)
      (createdState blank.construct (5+24) allDone) = some true := by decide +kernel
  obtain ⟨t, ht⟩ := resultOf_eq_some.mp hwrite
  exact ⟨_, t, hs, ht, accepted_readable_iff (by norm_num) hs (by simp) (by norm_num) ht⟩

/-- A ring of three bytes accepts a record of one byte, which no reader gets. -/
theorem small_ring_unreadable :
    ∃ s t, create blank.construct none (3+24) allDone = .opened s ∧
      write (memory [7] uninitialized) 1 s = .ok true t ∧ ¬ReadsBack t.file [7] := by
  have hs := create_allDone blank.construct (show 0 < 3+24 by norm_num) (by norm_num)
  have hwrite : resultOf (write (memory [7] uninitialized) 1)
      (createdState blank.construct (3+24) allDone) = some true := by decide +kernel
  obtain ⟨t, ht⟩ := resultOf_eq_some.mp hwrite
  obtain ⟨_, hw, hstart⟩ := first_write (M := 3) (r := [7]) blank (by norm_num) (by simp)
    (by norm_num) uninitialized hs ht
  have hshort : Undeliverable 3 0 10 := by
    left
    dsimp only [minusOne]
    norm_num [u64]
  refine ⟨_, t, hs, ht, fun h => ?_⟩
  exact (readsBack_iff hw hstart).mp h hshort

end CircularLog
