import CircularLog.Histories

/-! The loop that pops records to make room. On a ring whose offsets are record boundaries every
turn of it frees the frame of the oldest record, so it ends before the ring runs empty. -/
namespace CircularLog

/-- Turns of the loop from `s` to `t`, which pop the records `P` one by one off a ring that holds
them and then `K`. In each turn too few bytes are available, `PopRecord` returns true, and more
bytes are available afterwards, as the assertion demands. -/
inductive Turns (M need : ℕ) (K : List Record) : List Record → State → State → Prop
  | done {s : State} (hs : Layout M s.file K) : Turns M need K [] s s
  | pop {s t u : State} {r : Record} {P : List Record} {before after : ℕ}
      (hs : Layout M s.file (r :: (P ++ K))) (hbefore : bytesAvailable s = .ok before s)
      (hshort : before < need) (hpop : popRecord s = .ok true t)
      (hafter : bytesAvailable t = .ok after t) (hmore : before < after)
      (hrest : Turns M need K P t u) : Turns M need K (r :: P) s u

section EvictionLoop
variable {M need : ℕ} {s t : State} {r : Record} {L P K : List Record}

theorem bytesAvailable_eq (h : Usable M s) (hl : Layout M s.file L) :
    bytesAvailable s = .ok (M-used L) s :=
  run_of_sat ((sat_bytesAvailable h hl).mpr ⟨rfl, rfl⟩)

/-- While no call fails, a pop removes the oldest record and nothing else. -/
theorem popRecord_eq (h : Writable M s) (hi : Ideal s) (hM : 10 ≤ M)
    (hl : Layout M s.file (r :: L)) :
    ∃ t, popRecord s = .ok true t ∧ Writable M t ∧ Ideal t ∧ Layout M t.file L := by
  obtain ⟨ok, t, ht, u, hm, hf, _, hdone, hok⟩ := popRecord_spec h hM hl
  -- no call fails, so the pop is not cut short
  cases hok hi
  have hlen : u.file.length = s.file.length := by rw [hf]
  refine ⟨t, ht, ?_, ?_, ?_⟩
  · rw [hdone rfl]
    refine ((hm.writable h).assigned _ _ ?_).assigned _ _ rfl
    exact hlen.symm
  · rw [hdone rfl]
    exact hm.ideal hi
  · rw [hdone rfl]
    simpa [State.assigned] using hl.withStart (P := [r]) (K := L)

theorem turns_exist (hM : 10 ≤ M) (hneed : need < M) (h : Writable M s) (hi : Ideal s)
    (hl : Layout M s.file L) :
    ∃ P K t, L = P ++ K ∧ Turns M need K P s t ∧ Writable M t ∧ Layout M t.file K ∧
      need ≤ M-used K := by
  induction L generalizing s with
  | nil =>
    -- an empty ring has room for every record that was not refused
    exact ⟨[], [], s, rfl, .done hl, h, hl, by rw [used_nil]; omega⟩
  | cons r L ih =>
    by_cases hroom : need ≤ M-used (r :: L)
    · exact ⟨[], r :: L, s, rfl, .done hl, h, hl, hroom⟩
    · have hb := h.bound
      have hfits := hl.fits
      rw [used_cons] at hfits hroom
      -- a frame takes a byte at least, and its turn frees it
      have hr := frameSize_pos (r := r) (by omega)
      obtain ⟨t, ht, hwt, hit, hlt⟩ := popRecord_eq h hi hM hl
      obtain ⟨P, K, u, hL, hturns, hwu, hlu, henough⟩ := ih hwt hit hlt
      subst hL
      refine ⟨r :: P, K, u, rfl, ?_, hwu, hlu, henough⟩
      have hbefore := bytesAvailable_eq h.usable hl
      have hafter := bytesAvailable_eq hwt.usable hlt
      refine .pop hl hbefore ?_ ht hafter ?_ hturns
      · rw [used_cons]
        omega
      · rw [used_cons]
        omega

/-- The loop makes these turns and returns true. -/
theorem Turns.run (h : Turns M need K P s t) (hwt : Writable M t) (henough : need ≤ M-used K)
    {fuel : ℕ} (hfuel : P.length ≤ fuel) : popUntilAvailable need fuel s = .ok true t := by
  suffices hsat : Sat (popUntilAvailable need fuel) s (fun ok u => ok = true ∧ u = t) by
    obtain ⟨ok, u, hu, rfl, rfl⟩ := hsat
    exact hu
  -- along the turns; the fuel only has to last
  induction h generalizing fuel with
  | done hs =>
    have havailable := bytesAvailable_eq hwt.usable hs
    cases fuel with
    | zero =>
      rw [popUntilAvailable, sat_bind, sat_of_run havailable, if_neg (by omega), sat_pure]
      exact ⟨rfl, rfl⟩
    | succ fuel =>
      rw [popUntilAvailable, sat_bind, sat_of_run havailable, if_neg (by omega), sat_pure]
      exact ⟨rfl, rfl⟩
  | @pop s t u r P before after hs hbefore hshort hpop hafter hmore hrest ih =>
    cases fuel with
    | zero =>
      rw [List.length_cons] at hfuel
      omega
    | succ fuel =>
      rw [List.length_cons] at hfuel
      rw [popUntilAvailable, sat_bind, sat_of_run hbefore, if_pos hshort, sat_bind,
        sat_of_run hpop]
      -- the early return is not taken, and the assertion holds
      change Sat (bytesAvailable >>= fun a => assert (before < a) >>= fun _ =>
        popUntilAvailable need fuel) t _
      rw [sat_bind, sat_of_run hafter, sat_bind, sat_assert hmore]
      exact ih hwt (by omega)

/-- Every turn frees a byte at least. -/
theorem Turns.length_le (h : Turns M need K P s t) : P.length ≤ need := by
  suffices hsharp : ∀ a, bytesAvailable s = .ok a s → P = [] ∨ a+P.length ≤ need by
    cases h with
    | done hs => exact Nat.zero_le _
    | pop hs hbefore hshort hpop hafter hmore hrest =>
      rcases hsharp _ hbefore with hnil | hle
      · cases hnil
      · omega
  -- what is available grows with each turn and is short of `need` before each
  induction h with
  | done hs => exact fun _ _ => Or.inl rfl
  | @pop s t u r P before after hs hbefore hshort hpop hafter hmore hrest ih =>
    intro a ha
    rw [hbefore] at ha
    cases ha
    right
    rw [List.length_cons]
    rcases ih after hafter with rfl | hle
    · rw [List.length_nil]
      omega
    · omega

end EvictionLoop

/-- Where the size check passes, the loop of `Write` and `StreamingWriteStart` pops a front of the
readable records, one in each turn, and returns true with enough bytes available. It makes no more
turns than there are records. -/
theorem eviction_makes_room {M : ℕ} (hM : 10 ≤ M) {s : State} {W : List Record}
    (h : Reachable M s W) {n : ℕ} (hn : n < 2^63) (hcheck : u64 (Varint.size n+n+1) ≤ M) :
    ∃ P K t, (∀ L, Layout M s.file L ↔ L = P ++ K) ∧ P ++ K <:+ W ∧
      Turns M (u64 (Varint.size n+n)) K P s t ∧ P.length ≤ (P ++ K).length ∧
      (∀ fuel, P.length ≤ fuel → popUntilAvailable (u64 (Varint.size n+n)) fuel s = .ok true t) ∧
      P.length ≤ u64 (Varint.size n+n) ∧
      Sat bytesAvailable t (fun a _ => Varint.size n+n ≤ a) := by
  obtain ⟨L, hL, hready⟩ := h.ready hM
  have hb := hready.writable.bound
  have hsize := Varint.size_le (show n < 2^64 by omega)
  rw [u64_of_lt (by omega)] at hcheck ⊢
  have hneed : Varint.size n+n < M := by omega
  obtain ⟨P, K, t, rfl, hturns, hwt, hlt, henough⟩ := turns_exist hM hneed hready.writable
    hready.ideal hready.layout
  refine ⟨P, K, t, ?_, hL, hturns, ?_, ?_, hturns.length_le, ?_⟩
  · intro U
    -- the bytes determine the records
    constructor
    · exact fun hU => hU.unique hready.layout (by omega)
    · intro hU
      rw [hU]
      exact hready.layout
  · rw [List.length_append]
    omega
  · exact fun fuel hfuel => hturns.run hwt henough hfuel
  · rw [sat_of_run (bytesAvailable_eq hwt.usable hlt)]
    exact henough

theorem eviction_makes_room_evicting :
    ∃ s t, create blank.construct none (10+24) allDone = .opened s ∧
      write (memory [1, 2, 3, 4, 5, 6] uninitialized) 6 s = .ok true t ∧
      ∃ P K u, (∀ L, Layout 10 t.file L ↔ L = P ++ K) ∧ P ++ K <:+ [] ++ [[1, 2, 3, 4, 5, 6]] ∧
        Turns 10 (u64 (Varint.size 5+5)) K P t u ∧ P.length ≤ (P ++ K).length ∧
        (∀ fuel, P.length ≤ fuel → popUntilAvailable (u64 (Varint.size 5+5)) fuel t = .ok true u) ∧
        P.length ≤ u64 (Varint.size 5+5) ∧
        Sat bytesAvailable u (fun a _ => Varint.size 5+5 ≤ a) := by
  obtain ⟨s, hs, hready, _⟩ := create_ready (M := 10) blank (by norm_num) (by norm_num)
  obtain ⟨ok, t, ht, hrecorded, _⟩ := write_ready (r := [1, 2, 3, 4, 5, 6]) hready (by norm_num)
    uninitialized (by simp) (by norm_num)
  cases hrecorded with
  | refused hbig => exact absurd hbig (by decide)
  | written _ _ _ _ _ =>
    have hreachable := (Reachable.create blank hs).write [1, 2, 3, 4, 5, 6] uninitialized
      (by norm_num) ht
    exact ⟨s, t, hs, ht, eviction_makes_room (by norm_num) hreachable (by norm_num) (by decide)⟩

end CircularLog
