import CircularLog.Histories

/-! Writes that are cut short: a call fails or transfers less than it is asked to, a session is left
open, or the process dies between two calls. -/
namespace CircularLog

/-- `g` still holds a suffix of the records `L` of `f`, where `f` has them, and ends where `f`
ends. -/
def Intact (M : ℕ) (f : File) (L : List Record) (g : File) : Prop :=
  ∃ K, K <:+ L ∧ g.header.endOffset = f.header.endOffset ∧ Layout M g K ∧
    ∀ p, Covers M g.header.startOffset (used K) p → g.data p = f.data p

/-- An attempt to add a record: a plain write, a streaming session, or a session for `n` bytes that
is left open after some chunks. -/
inductive Attempt
  | write (r : Record) (behind : Buffer)
  | stream (chunks : List (List UInt8)) (behind : Buffer)
  | abandoned (n : ℕ) (chunks : List (List UInt8)) (behind : Buffer)

def Attempt.Valid : Attempt → Prop
  | .write r _ => r ≠ [] ∧ r.length < 2^63
  | .stream chunks _ => (∀ c ∈ chunks, c ≠ []) ∧ chunks.flatten.length < 2^63
  | .abandoned n chunks _ => (∀ c ∈ chunks, c ≠ []) ∧ chunks.flatten.length ≤ n ∧ n < 2^63

/-- Carry out an attempt; the result says whether it completed. -/
def Attempt.run : Attempt → Op Bool
  | .write r behind => CircularLog.write (memory r behind) r.length
  | .stream chunks behind => streamRecord behind chunks.flatten.length chunks
  | .abandoned n chunks behind => do
    if !(← streamingWriteStart n) then
      return false
    let _ ← streamAll behind chunks
    return false

section PartialWrites
variable {M : ℕ} {s t : State} {f g : File} {P K L : List Record} {W : List Record}

theorem intact_refl (h : Layout M f L) : Intact M f L f :=
  ⟨L, List.suffix_rfl, rfl, h, fun _ _ => rfl⟩

theorem Pending.intact (h : Pending M f P K g) (hl : Layout M f (P ++ K)) :
    Intact M f (P ++ K) g := by
  refine ⟨K, List.suffix_append P K, ?_, h.layout hl, ?_⟩
  · rw [h.header]
    rfl
  · intro p hp
    apply h.live p
    rw [h.header] at hp
    exact (covers_mod _ _ _ _).mp hp

theorem PopStep.intact {x : Step} (h : PopStep M f P K x) (hl : Layout M f (P ++ K))
    (hx : x.event ≠ .advance) : Intact M f (P ++ K) x.file := by
  obtain ⟨A, B, rfl, ⟨_, hp⟩ | ⟨he, _⟩⟩ := h
  · rw [List.append_assoc] at hl ⊢
    exact hp.intact hl
  · exact absurd he hx

/-- From `s` to `t` the file, which held `L`, stayed intact, except that the attempt may have
completed with the two stores that move the end. -/
def Attempted (M : ℕ) (L : List Record) (s : State) (completed : Bool) (t : State) : Prop :=
  ∃ earlier, (∀ x ∈ earlier, x.event ≠ .advance → Intact M s.file L x.file) ∧
    ((completed = false ∧ t.steps = earlier ++ s.steps ∧ Intact M s.file L t.file) ∨
      (completed = true ∧ ∃ raw, t.steps =
        ⟨.reduce, t.file⟩ :: ⟨.advance, raw⟩ :: (earlier ++ s.steps)))

theorem attempted_refused (hl : Layout M s.file L) : Attempted M L s false s :=
  ⟨[], by simp, Or.inl ⟨rfl, rfl, intact_refl hl⟩⟩

theorem Cut.attempted (h : Cut M s t P K) (hl : Layout M s.file (P ++ K)) :
    Attempted M (P ++ K) s false t := by
  obtain ⟨new, hnew, hx⟩ := h.steps
  exact ⟨new, fun x hm => (hx x hm).intact hl, Or.inl ⟨rfl, hnew, h.file.intact hl⟩⟩

theorem Completed.attempted {bytes : List UInt8} (h : Completed M s t P K bytes)
    (hl : Layout M s.file (P ++ K)) : Attempted M (P ++ K) s true t := by
  obtain ⟨new, hnew, hx, _⟩ := h.steps
  exact ⟨new, fun x hm => (hx x hm).intact hl, Or.inr ⟨rfl, _, hnew⟩⟩

theorem WriteResult.attempted {n : ℕ} {bytes : List UInt8} {ok : Bool}
    (h : WriteResult M n s L bytes ok t) (hl : Layout M s.file L) : Attempted M L s ok t := by
  cases h with
  | refused hbig => exact attempted_refused hl
  | cut hL hcut _ =>
    subst hL
    exact hcut.attempted hl
  | completed _ hL _ hc =>
    subst hL
    exact hc.attempted hl

/-- Whatever the system answers, an attempt leaves the file intact until it completes. -/
theorem Attempt.run_spec (hM : 10 ≤ M) (h : Writable M s) (hl : Layout M s.file L)
    (hopen : s.self.streamingWriteOffset = 0) {a : Attempt} (ha : a.Valid) :
    Sat a.run s (Attempted M L s) := by
  cases a with
  | write r behind =>
    obtain ⟨hne, hr⟩ := ha
    have hs := Varint.size_le (show r.length < 2^64 by omega)
    refine (write_spec h hl (Or.inl hM) (memory r behind) (List.length_pos_iff.mpr hne)
      (by omega)).mono ?_
    intro ok t hspec
    exact hspec.1.attempted hl
  | stream chunks behind =>
    obtain ⟨hne, hr⟩ := ha
    have hs := Varint.size_le (show chunks.flatten.length < 2^64 by omega)
    refine (streamRecord_spec h hM hl hopen behind chunks hne rfl (by omega)).mono ?_
    intro ok t hspec
    exact hspec.1.attempted hl
  | abandoned n chunks behind =>
    obtain ⟨hne, hsum, hn⟩ := ha
    have hs := Varint.size_le (show n < 2^64 by omega)
    apply (streamingWriteStart_spec h hM hl hopen (by omega)).bind
    intro ok t hstart
    cases hstart with
    | refused hbig => exact sat_pure.mpr (attempted_refused hl)
    | cut hL hcut _ =>
      subst hL
      exact sat_pure.mpr (hcut.attempted hl)
    | opened hsmall hL hsession =>
      subst hL
      apply (streamAll_spec h hl hsmall behind chunks hne hsession (by simpa using hsum)).bind
      intro ok' u hspec
      obtain ⟨hcut, hdone, _⟩ := hspec
      apply sat_pure.mpr
      cases ok' with
      | false => exact (hcut rfl).attempted hl
      | true =>
        -- the session is open, and what it wrote lies behind the end
        have hopened := hdone rfl
        exact (hopened.writing.cut hl (hopened.fits hsmall)).attempted hl

end PartialWrites

/-- Whatever fails, and wherever an attempt to add a record stops, the file holds a suffix of its
records, unchanged and in their place, until the attempt completes. -/
theorem partial_write_intact {M : ℕ} (hM : 10 ≤ M) {s : State} {W : List Record}
    (h : Reachable M s W) (hW : ∀ r ∈ W, r ≠ []) :
    ∃ L, (∀ junk, readBack junk s.file = some L) ∧
      ∀ (a : Attempt), a.Valid → ∀ outcomes : ℕ → Outcome,
        Sat a.run { s with outcomes := outcomes }
          (Attempted M L { s with outcomes := outcomes }) := by
  obtain ⟨L, _, hready, _, hread⟩ := h.readBack hM hW
  refine ⟨L, hread, ?_⟩
  intro a ha outcomes
  apply a.run_spec hM
  · exact hready.writable.congr rfl rfl rfl rfl
  · exact hready.layout
  · exact hready.closed
  · exact ha

/-- A record for which the first two have to go: whichever call of a write fails, and with a session
that is left open behind its first byte. -/
theorem partial_write_intact_evicting :
    ∃ s, Reachable 26 s nearlyFull ∧ (∀ junk, readBack junk s.file = some nearlyFull) ∧
      ∀ n, let outcomes : ℕ → Outcome := fun i => if i = n then .fail 5 else .done
        Sat (Attempt.write [7, 8, 9, 10, 11, 12] uninitialized).run { s with outcomes := outcomes }
          (Attempted 26 nearlyFull { s with outcomes := outcomes }) ∧
        Sat (Attempt.abandoned 6 [[7]] uninitialized).run { s with outcomes := outcomes }
          (Attempted 26 nearlyFull { s with outcomes := outcomes }) := by
  obtain ⟨s, hs, _, _, hread⟩ := nearlyFull_reachable
  obtain ⟨L, hL, hattempt⟩ := partial_write_intact (by norm_num) hs (by decide)
  have hsame := hL blank
  rw [hread blank] at hsame
  cases hsame
  have hwrite : (Attempt.write [7, 8, 9, 10, 11, 12] uninitialized).Valid := ⟨by simp, by simp⟩
  have hsession : (Attempt.abandoned 6 [[7]] uninitialized).Valid :=
    ⟨by simp, by simp, by norm_num⟩
  exact ⟨s, hs, hread, fun n => ⟨hattempt _ hwrite _, hattempt _ hsession _⟩⟩

end CircularLog
