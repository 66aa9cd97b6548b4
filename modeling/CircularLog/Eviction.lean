import CircularLog.RingLayout

/-! Popping records. A run of the loop is described for every answer of the system: the offsets move
from one record boundary to the next, and when the loop succeeds it kept the longest suffix that
leaves enough room. -/
namespace CircularLog

section HeaderAccess
variable {M : ℕ} {s : State}

theorem sat_mappedHeader {Q : Header → State → Prop} (h : s.self.header ≠ .null) :
    Sat mappedHeader s Q ↔ Q s.file.header s := by
  rw [mappedHeader, sat_bind, sat_get, if_neg h, sat_pure]

theorem mappedHeader_run (h : s.self.header ≠ .null) : mappedHeader s = .ok s.file.header s := by
  rw [mappedHeader, run_bind, get_run]
  dsimp only
  rw [if_neg h]
  rfl

theorem sat_storeHeader {event : Event} {header : Header} {Q : Unit → State → Prop}
    (h : Writable M s) :
    Sat (storeHeader event header) s Q ↔
      Q () (s.assigned event { s.file with header := header }) := by
  rw [storeHeader, sat_bind, sat_get, h.header]
  exact sat_modify

theorem Writable.assigned (h : Writable M s) (event : Event) (file : File)
    (hf : file.length = s.file.length) : Writable M (s.assigned event file) :=
  h.congr rfl rfl rfl hf

theorem sat_advanceStart {n : ℕ} {Q : Unit → State → Prop} (h : Writable M s) (hM : 0 < M) :
    Sat (advanceStart n) s Q ↔
      Q () ((s.assigned .advance (s.file.withStart (u64 (s.file.header.startOffset+n)))).assigned
        .reduce (s.file.withStart (u64 (s.file.header.startOffset+n)%M))) := by
  have ha := h.assigned .advance (s.file.withStart (u64 (s.file.header.startOffset+n))) rfl
  rw [advanceStart, sat_bind, sat_mappedHeader h.usable.header, sat_bind, sat_storeHeader h]
  -- the reduction reads the offset that the first store left
  change Sat _ (s.assigned .advance (s.file.withStart (u64 (s.file.header.startOffset+n)))) Q ↔ _
  rw [sat_bind, sat_mappedHeader ha.usable.header, sat_bind, sat_bytesMax ha.usable, sat_bind,
    sat_modulo hM, sat_storeHeader ha]
  exact Iff.rfl

theorem sat_assignEnd {n : ℕ} {Q : Unit → State → Prop} (h : Writable M s) (hM : 0 < M) :
    Sat (assignEnd n) s Q ↔
      Q () ((s.assigned .advance (s.file.withEnd n)).assigned .reduce (s.file.withEnd (n%M))) := by
  have ha := h.assigned .advance (s.file.withEnd n) rfl
  rw [assignEnd, sat_bind, sat_mappedHeader h.usable.header, sat_bind, sat_storeHeader h]
  change Sat _ (s.assigned .advance (s.file.withEnd n)) Q ↔ _
  rw [sat_bind, sat_mappedHeader ha.usable.header, sat_bind, sat_bytesMax ha.usable, sat_bind,
    sat_modulo hM, sat_storeHeader ha]
  exact Iff.rfl

/-- Where a length is stored, the window read from there on decodes to it, whatever follows. -/
theorem readVarint_spec (h : Usable M s) (hM : 10 ≤ M) {off value : ℕ} (hv : value < 2^64)
    (hb : Stored M s.file.data off (Varint.encode value)) :
    Sat (readVarint off) s (fun r t => Moved M (fun _ => False) s t ∧ t.file = s.file ∧
      (r = none ∨ r = some (Varint.size value, value)) ∧
      (Ideal s → r = some (Varint.size value, value))) := by
  unfold readVarint
  apply (wrappingRead_spec h off uninitialized (show 1 ≤ Varint.kMaxSize by decide) hM).bind
  intro v t hspec
  obtain ⟨ok, buffer⟩ := v
  obtain ⟨hm, hf, hread, _, hi⟩ := hspec
  rw [sat_unless]
  constructor
  · intro hok
    exact ⟨hm, hf, Or.inl rfl, fun hd => absurd (hi hd) (ne_true_of_eq_false hok)⟩
  · intro hok
    have hdec : Varint.read buffer = some (Varint.size value, value) := by
      -- the window is longer than any encoding
      apply Varint.read_encode hv
      intro i hlt
      have hs := Varint.size_le hv
      rw [← stored_iff.mp hb i hlt]
      rw [Varint.encode_length] at hlt
      exact hread hok i (by unfold Varint.kMaxSize; omega)
    rw [sat_bind, sat_reached hdec, sat_pure]
    exact ⟨hm, hf, Or.inr rfl, fun _ => rfl⟩

theorem popRecord_spec {r : Record} {L : List Record} (h : Writable M s) (hM : 10 ≤ M)
    (hl : Layout M s.file (r :: L)) :
    Sat popRecord s (fun ok t => ∃ u, Moved M (fun _ => False) s u ∧ u.file = s.file ∧
      (ok = false → t = u) ∧
      (ok = true → t = (u.assigned .advance
        (s.file.withStart (s.file.header.startOffset+frameSize r))).assigned .reduce
        (s.file.withStart ((s.file.header.startOffset+frameSize r)%M))) ∧
      (Ideal s → ok = true)) := by
  have hb := h.bound
  have hs := hl.start_lt
  have hf := hl.fits
  rw [used_cons] at hf
  have hne : s.file.header.startOffset ≠ s.file.header.endOffset := by
    intro he
    cases (hl.start_eq_end_iff (by omega)).mp he
  have hsum : u64 (Varint.size r.length+r.length) = frameSize r := u64_of_lt (by
    change frameSize r < 2^64
    omega)
  rw [popRecord, sat_bind, sat_mappedHeader h.usable.header, if_neg hne]
  apply (readVarint_spec h.usable hM (hl.record_lt (by omega)) hl.head.1).bind
  intro v u hspec
  obtain ⟨hm, hu, hv, hi⟩ := hspec
  rcases hv with rfl | rfl
  · -- the length could not be read
    rw [sat_pure]
    exact ⟨u, hm, hu, fun _ => rfl, by simp, fun hd => by simpa using hi hd⟩
  · dsimp only
    rw [hsum, sat_bind, sat_advanceStart (hm.writable h) (by omega), sat_pure, hu,
      u64_of_lt (by omega)]
    exact ⟨u, hm, hu, by simp, fun _ => rfl, fun _ => rfl⟩

theorem sat_bytesAvailable {L : List Record} {Q : ℕ → State → Prop} (h : Usable M s)
    (hl : Layout M s.file L) : Sat bytesAvailable s Q ↔ Q (M-used L) s := by
  have hb := h.bound
  have hf := hl.fits
  rw [bytesAvailable, sat_bind, sat_bytesUsed h hl, sat_bind, sat_bytesMax h, sat_pure,
    sub64_of_le (by omega) hf.le]

end HeaderAccess

/-- The records `P` are gone from the front of `f`, and the bytes of the records `K` behind them
are where they were. -/
structure Pending (M : ℕ) (f : File) (P K : List Record) (g : File) : Prop where
  header : g.header = (f.withStart ((f.header.startOffset+used P)%M)).header
  length : g.length = f.length
  live : ∀ p, Covers M (f.header.startOffset+used P) (used K) p → g.data p = f.data p

theorem Pending.layout {M : ℕ} {f g : File} {P K : List Record} (h : Pending M f P K g)
    (hl : Layout M f (P ++ K)) : Layout M g K := by
  apply hl.withStart.congr h.header
  intro p hp
  exact h.live p ((covers_mod _ _ _ _).mp hp)

theorem pending_withStart (M : ℕ) (f : File) (P K : List Record) :
    Pending M f P K (f.withStart ((f.header.startOffset+used P)%M)) := ⟨rfl, rfl, fun _ _ => rfl⟩

/-- A step taken while the records `P` are popped from `f`, which held `P ++ K`. Between the two
stores of one pop the start offset is not reduced. -/
def PopStep (M : ℕ) (f : File) (P K : List Record) (x : Step) : Prop :=
  ∃ A B, P = A ++ B ∧ ((x.event ≠ .advance ∧ Pending M f A (B ++ K) x.file) ∨
    (x.event = .advance ∧ ∃ r C, B = r :: C ∧
      x.file = f.withStart ((f.header.startOffset+used A)%M+frameSize r)))

/-- From `s` to `t` the records `P` were popped, and `K` are left. -/
structure Evicted (M : ℕ) (s t : State) (P K : List Record) : Prop where
  self : t.self = { s.self with error := t.self.error }
  file : t.file = s.file.withStart ((s.file.header.startOffset+used P)%M)
  steps : ∃ new, t.steps = new ++ s.steps ∧ (∀ x ∈ new, PopStep M s.file P K x) ∧
    ∀ A r B, P = A ++ r :: B →
      ⟨.advance, s.file.withStart ((s.file.header.startOffset+used A)%M+frameSize r)⟩ ∈ new
  ideal : Ideal s → Ideal t

theorem Evicted.writable {M : ℕ} {s t : State} {P K : List Record} (h : Evicted M s t P K)
    (hs : Writable M s) : Writable M t := by
  apply hs.of_self h.self
  rw [h.file]
  rfl

theorem Moved.popSteps {M : ℕ} {s t : State} (h : Moved M (fun _ => False) s t)
    (hs : s.file.header.startOffset < M) (P K : List Record) :
    ∃ new, t.steps = new ++ s.steps ∧ ∀ x ∈ new, PopStep M s.file P K x := by
  obtain ⟨new, hnew, hx⟩ := h.steps
  refine ⟨new, hnew, fun x hm => ⟨[], P, rfl, Or.inl ⟨?_, ?_⟩⟩⟩
  · intro he
    have ht := (hx x hm).1
    rw [he] at ht
    exact ht
  · refine ⟨?_, (hx x hm).2.length, fun p _ => (hx x hm).2.data p id⟩
    rw [(hx x hm).2.header, used_nil, Nat.add_zero, Nat.mod_eq_of_lt hs]
    rfl

theorem evicted_of_moved {M : ℕ} {s t : State} {L : List Record}
    (h : Moved M (fun _ => False) s t) (ht : t.file = s.file)
    (hs : s.file.header.startOffset < M) : Evicted M s t [] L := by
  obtain ⟨new, hnew, hx⟩ := h.popSteps hs [] L
  refine ⟨h.self, ?_, ⟨new, hnew, hx, by simp⟩, h.ideal⟩
  rw [used_nil, Nat.add_zero, Nat.mod_eq_of_lt hs, ht]
  rfl

theorem PopStep.later {M : ℕ} {f : File} {r : Record} {P K : List Record} {x : Step}
    (h : PopStep M (f.withStart ((f.header.startOffset+frameSize r)%M)) P K x) :
    PopStep M f (r :: P) K x := by
  obtain ⟨A, B, rfl, hx⟩ := h
  have hoff : ((f.header.startOffset+frameSize r)%M+used A)%M =
      (f.header.startOffset+used (r :: A))%M := by
    rw [Nat.mod_add_mod, used_cons, Nat.add_assoc]
  refine ⟨r :: A, B, rfl, ?_⟩
  rcases hx with ⟨he, hp⟩ | ⟨he, q, C, hB, hq⟩
  · refine Or.inl ⟨he, ?_, hp.length, ?_⟩
    · rw [← hoff]
      exact hp.header
    · intro p hc
      apply hp.live p
      dsimp only [File.withStart]
      rw [← covers_mod, hoff, covers_mod]
      exact hc
  · refine Or.inr ⟨he, q, C, hB, ?_⟩
    rw [← hoff]
    exact hq

theorem Evicted.cons {M : ℕ} {s u t : State} {r : Record} {P K : List Record}
    (hu : Moved M (fun _ => False) s u) (hs : s.file.header.startOffset < M)
    (h : Evicted M ((u.assigned .advance
      (s.file.withStart (s.file.header.startOffset+frameSize r))).assigned .reduce
      (s.file.withStart ((s.file.header.startOffset+frameSize r)%M))) t P K) :
    Evicted M s t (r :: P) K := by
  have hoff : ((s.file.header.startOffset+frameSize r)%M+used P)%M =
      (s.file.header.startOffset+used (r :: P))%M := by
    rw [Nat.mod_add_mod, used_cons, Nat.add_assoc]
  obtain ⟨calls, hcalls, hxc⟩ := hu.popSteps hs (r :: P) K
  obtain ⟨new, hnew, hx, hraw⟩ := h.steps
  refine ⟨?_, ?_, ?_, fun hi => h.ideal (hu.ideal hi)⟩
  · rw [h.self]
    dsimp only [State.assigned]
    rw [hu.self]
  · rw [h.file]
    dsimp only [State.assigned, File.withStart]
    rw [hoff]
  · refine ⟨new ++ (⟨.reduce, s.file.withStart ((s.file.header.startOffset+frameSize r)%M)⟩ ::
      ⟨.advance, s.file.withStart (s.file.header.startOffset+frameSize r)⟩ :: calls), ?_, ?_, ?_⟩
    · rw [hnew]
      dsimp only [State.assigned]
      rw [hcalls, List.append_assoc]
      rfl
    · intro x hm
      -- the steps of the later pops, the two stores of this one, and the read before them
      rcases List.mem_append.mp hm with hm | hm
      · exact (hx x hm).later
      rcases List.mem_cons.mp hm with rfl | hm
      · refine ⟨[r], P, rfl, Or.inl ⟨by simp, ?_⟩⟩
        simpa using pending_withStart M s.file [r] (P ++ K)
      rcases List.mem_cons.mp hm with rfl | hm
      · refine ⟨[], r :: P, rfl, Or.inr ⟨rfl, r, P, rfl, ?_⟩⟩
        rw [used_nil, Nat.add_zero, Nat.mod_eq_of_lt hs]
      · exact hxc x hm
    · intro A q B hAB
      cases A with
      | nil =>
        cases hAB
        rw [used_nil, Nat.add_zero, Nat.mod_eq_of_lt hs]
        simp
      | cons a A =>
        cases hAB
        apply List.mem_append_left
        have hA : ((s.file.header.startOffset+frameSize r)%M+used A)%M =
            (s.file.header.startOffset+used (r :: A))%M := by
          rw [Nat.mod_add_mod, used_cons, Nat.add_assoc]
        rw [← hA]
        exact hraw A q B rfl

/-- The loop leaves the longest suffix that leaves `need` bytes free, unless a call fails before
that. It neither runs out of turns nor trips the assertion. An area too small for a window is no
obstacle where nothing has to be popped. -/
theorem popUntilAvailable_spec {M need : ℕ} (hneed : need < M) (fuel : ℕ) {s : State}
    {L : List Record} (h : Writable M s) (hl : Layout M s.file L)
    (hM : 10 ≤ M ∨ used L+need ≤ M) (hfuel : need ≤ M-used L+fuel) :
    Sat (popUntilAvailable need fuel) s (fun ok t => ∃ P K, L = P ++ K ∧ Evicted M s t P K ∧
      (ok = true → K = keep frameSize (M-need) L) ∧ (Ideal s → ok = true)) := by
  have hb := h.bound
  have hs := hl.start_lt
  -- where there is room the loop ends, and nothing more is popped
  have henough {s : State} {L : List Record} (hl : Layout M s.file L) (hfit : need ≤ M-used L) :
      ∃ P K, L = P ++ K ∧ Evicted M s s P K ∧ (true = true → K = keep frameSize (M-need) L) ∧
        (Ideal s → true = true) := by
    have hf := hl.fits
    refine ⟨[], L, rfl, evicted_of_moved (.refl _ _ _) rfl hl.start_lt, fun _ => ?_, fun _ => rfl⟩
    rw [keep_of_le]
    change used L ≤ M-need
    omega
  -- each pop frees a byte at least, so the turns left cover what is still needed
  induction fuel generalizing s L with
  | zero =>
    rw [popUntilAvailable, sat_bind, sat_bytesAvailable h.usable hl, if_neg (by omega), sat_pure]
    exact henough hl (by omega)
  | succ fuel ih =>
    rw [popUntilAvailable, sat_bind, sat_bytesAvailable h.usable hl]
    by_cases hfit : need ≤ M-used L
    · rw [if_neg (by omega), sat_pure]
      exact henough hl hfit
    rw [if_pos (by omega)]
    have hM' : 10 ≤ M := hM.resolve_right (by have := hl.fits; omega)
    cases L with
    | nil =>
      -- an empty ring has room for every record that was not refused
      rw [used_nil] at hfit
      omega
    | cons r L =>
      have hf := hl.fits
      rw [used_cons] at hf hfit hfuel
      have hr := frameSize_pos (r := r) (by omega)
      apply (popRecord_spec h hM' hl).bind
      intro ok t hspec
      obtain ⟨u, hu, huf, hfail, hdone, hi⟩ := hspec
      rw [sat_unless]
      constructor
      · intro hok
        -- a failed pop leaves the records as they are
        rw [hfail hok]
        exact ⟨[], r :: L, rfl, evicted_of_moved hu huf hs, by simp,
          fun hd => absurd (hi hd) (ne_true_of_eq_false hok)⟩
      · intro hok
        have ht := hdone hok
        have hlen : u.file.length = s.file.length := by rw [huf]
        have hwt : Writable M t := by
          rw [ht]
          refine ((hu.writable h).assigned _ _ ?_).assigned _ _ rfl
          exact hlen.symm
        have hlt : Layout M t.file L := by
          rw [ht]
          simpa [State.assigned] using hl.withStart (P := [r]) (K := L)
        rw [sat_bind, sat_bytesAvailable hwt.usable hlt, sat_bind,
          sat_assert (by rw [used_cons]; omega)]
        refine (ih hwt hlt (Or.inl hM') (by omega) hlt.start_lt).mono ?_
        intro ok' v hspec
        obtain ⟨P, K, rfl, hev, hkeep, hi'⟩ := hspec
        rw [ht] at hev
        refine ⟨r :: P, K, rfl, hev.cons hu hs, ?_, ?_⟩
        · intro hok'
          rw [keep_cons_of_lt]
          · exact hkeep hok'
          · change M-need < used (r :: (P ++ K))
            rw [used_cons]
            omega
        · intro hd
          apply hi'
          rw [ht]
          exact hu.ideal hd

end CircularLog
