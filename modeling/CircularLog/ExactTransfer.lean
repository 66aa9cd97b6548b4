import CircularLog.Eviction
import CircularLog.OpenCreate

/-! Exactly when a transfer from the data area succeeds, for an area of any size, any count and any
answers of the system, and which answers it uses up. -/
namespace CircularLog

def Outcome.failed : Outcome → Bool
  | .fail _ => true
  | _ => false

/-- What `read` returns for `count` bytes from offset `offset` of an area of `M` bytes on. -/
def readReturns (M offset count : ℕ) (outcome : Outcome) : ℕ :=
  match outcome.transferred count with
  | none => minusOne
  | some n => min n (M-offset)

/-- Whether one part of a transfer succeeds, and the answers that are left. -/
def partResult (M offset count : ℕ) (outcomes : ℕ → Outcome) : Bool × (ℕ → Outcome) :=
  if count = 0 then (true, outcomes)
  else if (outcomes 0).failed then (false, later outcomes 1)
  else (readReturns M offset count (outcomes 1) == count, later outcomes 2)

/-- Likewise for a transfer of `n` bytes. -/
def transferResult (M off n : ℕ) (outcomes : ℕ → Outcome) : Bool × (ℕ → Outcome) :=
  let split := splitBytes M (off%M) (u64 (off%M+n)%M) n
  let first := partResult M (off%M) split.1 outcomes
  if first.1 then partResult M 0 split.2 first.2 else first

/-- The memory met from offset `off` of the area on. -/
def window (M : ℕ) (f : File) (off : ℕ) : Buffer := fun i => f.data ((off+i)%M)

/-- A transfer of `n` bytes from offset `off` on fails although every call does what it is asked
for. Bytes up to one offset behind the other are asked for at once, and the area may end before
that. Otherwise the transfer goes on at the start of the area, which holds `M` bytes only; a
transfer of no bytes is taken for one of these. -/
def Undeliverable (M off n : ℕ) : Prop :=
  (off%M < u64 (off%M+n)%M ∧ M-off%M < n ∧ n ≠ minusOne) ∨
    (u64 (off%M+n)%M ≤ off%M ∧ (2*M-off%M < n ∨ (n = 0 ∧ off%M+1 ≠ M)))

instance (M off n : ℕ) : Decidable (Undeliverable M off n) := inferInstanceAs (Decidable (_ ∨ _))

section ExactTransfer
variable {M : ℕ} {s : State}

theorem lseek_exact (h : Usable M s) {position : ℕ} (hp : position < 2^63) :
    Sat (lseek position) s (fun r t => r.isNone = !(s.outcomes 0).failed ∧
      t.outcomes = later s.outcomes 1) := by
  rw [lseek, sat_modifyGet]
  cases hfd : s.self.fd with
  | none => exact absurd hfd h.fd
  | some mode =>
    cases ho : s.outcomes 0 with
    | fail errno => exact ⟨rfl, rfl⟩
    | done =>
      dsimp only
      rw [if_neg (by omega)]
      exact ⟨rfl, rfl⟩
    -- a seek has nothing to be short of
    | short n =>
      dsimp only
      rw [if_neg (by omega)]
      exact ⟨rfl, rfl⟩

theorem seekToOffset_exact (h : Usable M s) {offset : ℕ} (ho : offset < M) :
    Sat (seekToOffset offset) s (fun ok t => ok = !(s.outcomes 0).failed ∧
      t.outcomes = later s.outcomes 1) := by
  have hb := h.bound
  have hpos : u64 (headerSize+offset%M) = 24+offset := by
    rw [Nat.mod_eq_of_lt ho, headerSize, u64_of_lt (by omega)]
  -- so the reduction after the assertion changes nothing
  unfold seekToOffset
  rw [sat_bind, sat_bytesMax h, sat_bind, sat_assert ho, sat_bind, sat_bytesMax h, sat_bind,
    sat_modulo (by omega), hpos]
  apply (lseek_exact h (by omega)).bind
  intro r t hspec
  obtain ⟨hr, hout⟩ := hspec
  cases r with
  | none => exact sat_pure.mpr ⟨hr, hout⟩
  | some errno =>
    rw [sat_bind, sat_modify, sat_pure]
    exact ⟨hr, hout⟩

theorem sysRead_exact (h : Usable M s) {ptr : Buffer} {at_ count offset : ℕ}
    (hp : s.position = 24+offset) :
    Sat (sysRead ptr at_ count) s (fun r t => r.1 = readReturns M offset count (s.outcomes 0) ∧
      t.outcomes = later s.outcomes 1 ∧ Moved M (fun _ => False) s t ∧ t.file = s.file ∧
      (r.1 = count → count < 2^63 → ∀ i < count, r.2 (at_+i) = s.file.data (offset+i)) ∧
      ∀ i < at_, r.2 i = ptr i) := by
  have hm (position : ℕ) : Moved M (fun _ => False) s (s.called .read s.file position) :=
    moved_called (show Event.IsTransfer M .read from trivial) (.refl _ _) position
  rw [sysRead, sat_modifyGet, readReturns]
  cases hfd : s.self.fd with
  | none => exact absurd hfd h.fd
  | some mode =>
    cases ht : (s.outcomes 0).transferred count with
    | none =>
      refine ⟨rfl, rfl, hm _, rfl, ?_, fun _ _ => rfl⟩
      -- -1 is no count that was asked for
      intro hr hc
      dsimp only [minusOne] at hr
      omega
    | some n =>
      refine ⟨?_, rfl, hm _, rfl, ?_, ?_⟩
      · dsimp only
        rw [h.length, hp, show M+24-(24+offset) = M-offset by omega]
      · intro hr _ i hi
        dsimp only at hr ⊢
        rw [if_pos (by omega), hp, headerSize]
        congr 1
        omega
      · intro i hi
        dsimp only
        rw [if_neg (by omega)]

theorem readPart_exact (h : Usable M s) {offset : ℕ} (ho : offset < M) (ptr : Buffer)
    (at_ count : ℕ) :
    Sat (readPart offset ptr at_ count) s (fun r t =>
      (r.1, t.outcomes) = partResult M offset count s.outcomes ∧
      Moved M (fun _ => False) s t ∧ t.file = s.file ∧
      (r.1 = true → count < 2^63 → ∀ i < count, r.2 (at_+i) = s.file.data (offset+i)) ∧
      ∀ i < at_, r.2 i = ptr i) := by
  rw [readPart, partResult, sat_ite]
  constructor
  · intro hz
    -- nothing is asked of the system for no bytes
    subst hz
    rw [sat_pure, if_pos rfl]
    exact ⟨rfl, .refl _ _ _, rfl, by simp, fun _ _ => rfl⟩
  · intro hnz
    rw [if_neg hnz]
    apply ((seekToOffset_exact h ho).and (seekToOffset_spec h ho)).bind
    intro ok t hspec
    obtain ⟨⟨hok, hout⟩, hm, hf, hpos, _⟩ := hspec
    rw [sat_unless]
    constructor
    · -- the seek fails
      intro hno
      rw [hno, eq_comm, Bool.not_eq_false'] at hok
      rw [if_pos hok, hout]
      exact ⟨rfl, hm, hf, by simp, fun _ _ => rfl⟩
    · intro hyes
      rw [hyes, eq_comm, Bool.not_eq_true'] at hok
      apply (sysRead_exact (hm.usable h) (hpos hyes)).bind
      intro v u hspec
      obtain ⟨n, buffer⟩ := v
      obtain ⟨hn, hout', hm', hf', hread, hrest⟩ := hspec
      rw [hout] at hn hout'
      rw [sat_pure, if_neg (ne_true_of_eq_false hok), hout']
      dsimp only at hn ⊢
      refine ⟨?_, hm.trans hm', hf'.trans hf, ?_, hrest⟩
      · rw [hn]
        rfl
      · intro hc hlt i hi
        rw [← hf]
        exact hread (by simpa using hc) hlt i hi

/-- A part that succeeds stays inside the area. -/
theorem partResult_le {offset count : ℕ} {outcomes : ℕ → Outcome} (hc : count < 2^63)
    (h : (partResult M offset count outcomes).1 = true) : count ≤ M-offset := by
  unfold partResult at h
  split_ifs at h with hz hfail
  · omega
  · have hread : readReturns M offset count (outcomes 1) = count := by simpa using h
    unfold readReturns at hread
    cases ht : (outcomes 1).transferred count with
    | none =>
      rw [ht] at hread
      dsimp only [minusOne] at hread
      omega
    | some n =>
      rw [ht] at hread
      dsimp only at hread
      omega

/-- The cells that the two parts of a transfer meet, when neither of them leaves the area. -/
theorem splitBytes_cells (hM : 0 < M) (hb : M < 2^63) (off : ℕ) {n e b : ℕ} (h1 : 1 ≤ n)
    (hn : n < 2^63) (hs : splitBytes M (off%M) (u64 (off%M+n)%M) n = (e, b)) :
    e+b = n ∧ (e ≤ M-off%M → b ≤ M → (∀ i < e, (off+i)%M = off%M+i) ∧
      ∀ j < b, (off+(e+j))%M = j) := by
  have ho : off%M < M := Nat.mod_lt _ hM
  have hmod (i : ℕ) : (off+i)%M = (off%M+i)%M := by rw [Nat.mod_add_mod]
  have hlow : ∀ i < M-off%M, (off+i)%M = off%M+i := by
    intro i hi
    rw [hmod, Nat.mod_eq_of_lt (by omega)]
  rw [u64_of_lt (by omega), splitBytes] at hs
  by_cases hwrap : off%M < (off%M+n)%M
  · rw [if_pos hwrap] at hs
    cases hs
    refine ⟨by omega, fun hle _ => ⟨fun i hi => hlow i (by omega), by omega⟩⟩
  · -- the end of the transfer is not behind its offset, so it reaches the end of the area
    have hge : M-off%M ≤ n := by
      by_contra hlt
      have hend : (off%M+n)%M = off%M+n := Nat.mod_eq_of_lt (by omega)
      omega
    rw [if_neg hwrap, sub64_of_le (by omega) (by omega), sub64_of_le (by omega) hge] at hs
    cases hs
    refine ⟨by omega, fun _ hle => ⟨hlow, ?_⟩⟩
    intro j hj
    rw [hmod, show off%M+(M-off%M+j) = j+M by omega, Nat.add_mod_right, Nat.mod_eq_of_lt (by omega)]

theorem wrappingRead_exact (h : Usable M s) (hM : 0 < M) (off : ℕ) (ptr : Buffer) (n : ℕ) :
    Sat (wrappingRead off ptr n) s (fun r t =>
      (r.1, t.outcomes) = transferResult M off n s.outcomes ∧ Moved M (fun _ => False) s t ∧
      t.file = s.file ∧ (r.1 = true → n < 2^63 → ∀ i < n, r.2 i = window M s.file off i)) := by
  have hb := h.bound
  have ho : off%M < M := Nat.mod_lt _ hM
  rcases hs : splitBytes M (off%M) (u64 (off%M+n)%M) n with ⟨e, b⟩
  unfold wrappingRead
  simp only [sat_bind, sat_bytesMax h, sat_modulo hM, hs, transferResult]
  refine (readPart_exact h ho ptr 0 e).mono ?_
  intro v t hspec
  obtain ⟨ok, buffer⟩ := v
  obtain ⟨hr, hm, hf, hread, _⟩ := hspec
  rw [sat_unless, ← hr]
  constructor
  · intro hok
    dsimp only at hok ⊢
    rw [if_neg (ne_true_of_eq_false hok), hok]
    exact ⟨rfl, hm, hf, by simp⟩
  · intro hok
    dsimp only at hok hread ⊢
    rw [if_pos hok]
    refine (readPart_exact (hm.usable h) hM buffer e b).mono ?_
    intro v u hspec
    obtain ⟨ok', buffer'⟩ := v
    obtain ⟨hr', hm', hf', hread', hrest'⟩ := hspec
    refine ⟨hr', hm.trans hm', hf'.trans hf, ?_⟩
    intro hok' hn i hi
    -- both parts succeeded, so neither of them left the area
    obtain ⟨hsum, hcells⟩ := splitBytes_cells hM (by omega) off (by omega) hn hs
    have he : e ≤ M-off%M := partResult_le (by omega) (by rw [← hr]; exact hok)
    have hbM : b ≤ M-0 := partResult_le (by omega) (by rw [← hr']; exact hok')
    obtain ⟨hend, hstart⟩ := hcells he hbM
    by_cases hie : i < e
    · -- the second part does not touch the front of the buffer
      rw [hrest' i hie, window, hend i hie]
      simpa using hread hok (by omega) i hie
    · have hj := hread' hok' (by omega) (i-e) (by omega)
      rw [hf, Nat.zero_add, show e+(i-e) = i by omega] at hj
      rw [hj, window, show off+i = off+(e+(i-e)) by omega, hstart _ (by omega)]

/-- Every decoder of a length decodes the window at its offset, if the window can be read. -/
theorem readVarint_exact (h : Usable M s) (hM : 0 < M) {off : ℕ} {d : ℕ × ℕ}
    (hd : Varint.read (window M s.file off) = some d) :
    Sat (readVarint off) s (fun r t =>
      r = (if (transferResult M off 10 s.outcomes).1 = true then some d else none) ∧
      t.outcomes = (transferResult M off 10 s.outcomes).2 ∧ Moved M (fun _ => False) s t ∧
      t.file = s.file) := by
  unfold readVarint
  apply (wrappingRead_exact h hM off uninitialized Varint.kMaxSize).bind
  intro v t hspec
  obtain ⟨ok, buffer⟩ := v
  obtain ⟨hr, hm, hf, hread⟩ := hspec
  change (ok, t.outcomes) = transferResult M off 10 s.outcomes at hr
  rw [← hr, sat_unless]
  constructor
  · intro hok
    rw [if_neg (ne_true_of_eq_false hok)]
    exact ⟨rfl, rfl, hm, hf⟩
  · intro hok
    have hdec : Varint.read buffer = some d := by
      rw [← hd]
      -- the decoder looks at the ten bytes only
      exact Varint.read_congr (hread hok (by norm_num [Varint.kMaxSize]))
    rw [sat_bind, sat_reached hdec, sat_pure, if_pos hok]
    exact ⟨rfl, rfl, hm, hf⟩

theorem readVarint_noReturn (h : Usable M s) (hM : 0 < M) {off : ℕ}
    (hd : Varint.read (window M s.file off) = none)
    (hok : (transferResult M off 10 s.outcomes).1 = true) : Stops .noReturn (readVarint off) s := by
  unfold readVarint
  apply (wrappingRead_exact h hM off uninitialized Varint.kMaxSize).stops
  intro v t hspec
  obtain ⟨ok, buffer⟩ := v
  obtain ⟨hr, _, _, hread⟩ := hspec
  change (ok, t.outcomes) = transferResult M off 10 s.outcomes at hr
  rw [← hr] at hok
  change ok = true at hok
  subst hok
  have hdec : Varint.read buffer = none := by
    rw [Varint.read_congr (hread rfl (by norm_num [Varint.kMaxSize])), hd]
  have hstop : Stops Fault.noReturn (reached (Varint.read buffer)) t := by
    rw [hdec]
    exact ⟨t, rfl⟩
  exact hstop.bind

theorem later_allDone (n : ℕ) : later allDone n = allDone := rfl

theorem Ideal.outcomes (h : Ideal s) : s.outcomes = allDone := funext h

theorem readReturns_done (M offset count : ℕ) :
    readReturns M offset count .done = if 2^63 ≤ count then minusOne else min count (M-offset) := by
  unfold readReturns Outcome.transferred
  split_ifs <;> rfl

theorem partResult_allDone (M offset count : ℕ) :
    partResult M offset count allDone =
      (decide ((count < 2^63 ∧ count ≤ M-offset) ∨ count = minusOne), allDone) := by
  by_cases hz : count = 0
  · rw [partResult, if_pos hz, hz, decide_eq_true]
    exact Or.inl ⟨by norm_num, Nat.zero_le _⟩
  · have hseek : ¬(allDone 0).failed = true := by simp [allDone, Outcome.failed]
    rw [partResult, if_neg hz, if_neg hseek, later_allDone, allDone, readReturns_done,
      beq_eq_decide]
    congr 1
    apply decide_eq_decide.mpr
    -- a count of 2^63 or more is answered with -1, and only 2^64-1 is that same number
    unfold minusOne
    split_ifs with hlarge
    · constructor
      · exact fun h => Or.inr h.symm
      · intro h
        rcases h with ⟨hlt, _⟩ | heq
        · omega
        · exact heq.symm
    · omega

theorem transferResult_allDone (hM : 0 < M) (hb : M < 2^63) (off : ℕ) {n : ℕ} (hn : n < 2^64) :
    transferResult M off n allDone = (decide (¬Undeliverable M off n), allDone) := by
  have ho : off%M < M := Nat.mod_lt _ hM
  -- the second part is tried only when the first has succeeded
  have hboth (A B : Prop) [Decidable A] [Decidable B] :
      (if decide A = true then (decide B, allDone) else (decide A, allDone)) =
        (decide (A ∧ B), allDone) := by
    by_cases hA : A
    · simp [hA]
    · simp [hA]
  unfold transferResult Undeliverable splitBytes
  simp only [partResult_allDone]
  rw [hboth]
  congr 1
  apply decide_eq_decide.mpr
  by_cases hwrap : off%M < u64 (off%M+n)%M
  · -- the bytes are asked for at once
    rw [if_pos hwrap]
    dsimp only [minusOne]
    omega
  · rw [if_neg hwrap]
    dsimp only [minusOne]
    rw [sub64_of_le (by omega) (by omega)]
    by_cases hlt : n < M-off%M
    · -- only a transfer of no bytes stops short of the end of the area
      have hend : u64 (off%M+n)%M = off%M+n := by
        rw [u64_of_lt (by omega), Nat.mod_eq_of_lt (by omega)]
      have hcount : sub64 n (M-off%M) = 2^64-(M-off%M) := by
        unfold sub64
        omega
      rw [hcount]
      omega
    · -- the rest goes to the start of the area
      rw [sub64_of_le hn (by omega)]
      omega

/-- While no call fails, every transfer of one lap at most succeeds. -/
theorem transfer_delivered (hM : 0 < M) (hb : M < 2^63) (off : ℕ) {n : ℕ} (h1 : 1 ≤ n)
    (hn : n ≤ M) : transferResult M off n allDone = (true, allDone) := by
  have ho : off%M < M := Nat.mod_lt _ hM
  rw [transferResult_allDone hM hb off (by omega), decide_eq_true]
  unfold Undeliverable minusOne
  rw [u64_of_lt (by omega)]
  rcases add_mod_cases ho hn with ⟨_, he⟩ | ⟨_, he⟩ <;> omega

end ExactTransfer

end CircularLog
