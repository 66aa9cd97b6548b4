import CircularLog.Histories

/-! The size check that `Write` and `StreamingWriteStart` begin with. Its sum is taken in 64 bits,
so the largest lengths of all pass it. -/
namespace CircularLog

/-- Both calls up to the size check: do they go past it? -/
def passesCheck (size : ℕ) : Op Bool := do
  let headerSize ← reached (Varint.byteSize size)
  if (← bytesMax) < u64 (headerSize+size+1) then
    return false
  return true

/-- What both calls do past the size check. -/
def startChecked (size : ℕ) : Op (Option ℕ) := do
  let headerSize ← reached (Varint.byteSize size)
  let headerBuffer := Varint.write size uninitialized
  if !(← popUntilAvailable (u64 (headerSize+size)) (u64 (headerSize+size))) then
    return none
  if !(← wrappingWrite (← mappedHeader).endOffset headerBuffer headerSize) then
    return none
  return some headerSize

/-- A length `n` goes past the check exactly when its frame and one byte more fit in the area, the
sum not being reduced. When it is refused nothing at all changes. -/
def RefusesOversized (M n : ℕ) (s : State) : Prop :=
  resultOf (passesCheck n) s = some (decide (Varint.size n+n+1 ≤ M)) ∧
    (resultOf (passesCheck n) s = some true → startRecord n s = startChecked n s) ∧
    (resultOf (passesCheck n) s = some false →
      streamingWriteStart n s = .ok false s ∧ ∀ ptr, write ptr n s = .ok false s)

section SizeCheck
variable {M n : ℕ} {s : State} {W : List Record}

theorem reached_byteSize (hn : n < 2^64) (s : State) :
    (reached (Varint.byteSize n) : Op ℕ) s = .ok (Varint.size n) s := by
  rw [Varint.byteSize_eq hn]
  rfl

/-- The check takes place before anything is asked of the header or the file. -/
theorem passesCheck_run (hn : n < 2^64) (s : State) :
    passesCheck n s = .ok (decide (u64 (Varint.size n+n+1) ≤ s.self.bytesMax)) s := by
  apply run_of_sat
  rw [passesCheck, sat_bind, sat_reached (Varint.byteSize_eq hn), sat_bind, bytesMax, sat_bind,
    sat_get, sat_pure, sat_ite]
  constructor
  · intro hbig
    rw [sat_pure, decide_eq_false (by omega)]
    exact ⟨rfl, rfl⟩
  · intro hsmall
    rw [sat_pure, decide_eq_true (by omega)]
    exact ⟨rfl, rfl⟩

theorem passesCheck_eq (h : Usable M s) (hn : n < 2^64) :
    passesCheck n s = .ok (decide (u64 (Varint.size n+n+1) ≤ M)) s := by
  rw [passesCheck_run hn s, h.bytesMax_eq]

/-- The shared beginning of both calls is the check and what follows it. -/
theorem startRecord_checked (n : ℕ) :
    startRecord n = passesCheck n >>= fun ok =>
      if (!ok) = true then pure none else startChecked n := by
  rw [startRecord, passesCheck, startChecked]
  cases hsize : Varint.byteSize n with
  | none => rfl
  | some headerSize =>
    simp only [reached, pure_bind, bind_assoc]
    apply bind_congr
    intro m
    -- the check is the same on both sides
    by_cases hbig : m < u64 (headerSize+n+1)
    · rw [if_pos hbig, if_pos hbig]
      rfl
    · rw [if_neg hbig, if_neg hbig]
      rfl

theorem startRecord_passed (h : passesCheck n s = .ok true s) :
    startRecord n s = startChecked n s := by
  rw [startRecord_checked, run_bind, h]
  rfl

theorem startRecord_refused (h : passesCheck n s = .ok false s) : startRecord n s = .ok none s := by
  rw [startRecord_checked, run_bind, h]
  rfl

theorem write_refused (h : passesCheck n s = .ok false s) (ptr : Buffer) :
    write ptr n s = .ok false s := by
  rw [write, run_bind, startRecord_refused h]
  rfl

theorem streamingWriteStart_refused (h : passesCheck n s = .ok false s)
    (hclosed : s.self.streamingWriteOffset = 0) : streamingWriteStart n s = .ok false s := by
  apply run_of_sat
  rw [streamingWriteStart, sat_bind, sat_get, sat_bind, sat_assert hclosed, sat_bind,
    sat_of_run (startRecord_refused h)]
  exact sat_pure.mpr ⟨rfl, rfl⟩

/-- The lengths near `2^64` take ten bytes, the longest header there is. -/
theorem size_of_large (hn : n < 2^64) (hlarge : 2^63 ≤ n) : Varint.size n = 10 := by
  have hle := Varint.size_le hn
  by_contra hne
  -- nine groups hold values below 2^63
  have hlt := (Varint.size_groups hn).lt
  have hpow : 2^(Varint.size n*7) ≤ 2^63 := Nat.pow_le_pow_right (by norm_num) (by omega)
  omega

/-- The sum of the check wraps around to at most ten for the last eleven lengths, and for no
other. -/
theorem check_exact_iff (hM : 10 ≤ M) (hb : M < 2^63) (hn : n < 2^64) :
    (u64 (Varint.size n+n+1) ≤ M ↔ Varint.size n+n+1 ≤ M) ↔ n+11 < 2^64 := by
  have hle := Varint.size_le hn
  -- only from 2^63 on can the sum wrap around
  by_cases hlarge : 2^63 ≤ n
  · rw [size_of_large hn hlarge]
    unfold u64
    omega
  · rw [u64_of_lt (by omega)]
    constructor
    · intro _
      omega
    · intro _
      exact Iff.rfl

end SizeCheck

/-- The check is exact for every length but the last eleven below `2^64`. -/
theorem oversized_refused_iff {M : ℕ} (hM : 10 ≤ M) {s : State} {W : List Record}
    (h : Reachable M s W) {n : ℕ} (hn : n < 2^64) : RefusesOversized M n s ↔ n+11 < 2^64 := by
  obtain ⟨L, _, hready⟩ := h.ready hM
  have hb := hready.writable.bound
  have hcheck := passesCheck_eq hready.writable.usable hn
  have hresult : resultOf (passesCheck n) s = some (decide (u64 (Varint.size n+n+1) ≤ M)) :=
    resultOf_eq_some.mpr ⟨s, hcheck⟩
  rw [RefusesOversized, hresult, Option.some.injEq, decide_eq_decide,
    check_exact_iff hM (by omega) hn]
  constructor
  · exact fun hrefuses => hrefuses.1
  · intro hsmall
    refine ⟨hsmall, fun hyes => ?_, fun hno => ?_⟩
    · rw [Option.some.inj hyes] at hcheck
      exact startRecord_passed hcheck
    · rw [Option.some.inj hno] at hcheck
      exact ⟨streamingWriteStart_refused hcheck hready.closed, write_refused hcheck⟩

theorem oversized_refused_iff_fresh :
    ∃ s, create blank.construct none (10+24) allDone = .opened s ∧
      (RefusesOversized 10 (2^64-10) s ↔ 2^64-10+11 < 2^64) := by
  obtain ⟨s, hs, _⟩ := create_ready (M := 10) blank (by norm_num) (by norm_num)
  exact ⟨s, hs, oversized_refused_iff (by norm_num) (.create blank hs) (by norm_num)⟩

/-- On an empty ring of ten bytes a session for `2^64-10` bytes is started: the check compares with
one, and the loop is asked for no room. -/
theorem oversized_session_starts :
    ∃ s, create blank.construct none (10+24) allDone = .opened s ∧
      resultOf (streamingWriteStart (2^64-10)) s = some true ∧
      ¬RefusesOversized 10 (2^64-10) s := by
  refine ⟨_, rfl, by decide +kernel, ?_⟩
  intro h
  exact absurd h.1 (by decide +kernel)

end CircularLog
