import CircularLog.UncheckedReads

/-! What `Varint::Read` makes of a buffer: the value that `Write` stored there, and for bytes from
anywhere else the integer they stand for, as far as it returns and 64 bits are enough. -/
namespace CircularLog.Varint

/-- `Read` reaches a return statement, and `value_` is what the bytes stand for. -/
def DecodesExactly (buffer : Buffer) : Prop :=
  ∃ n, 1 ≤ n ∧ n ≤ kMaxSize ∧ read buffer = some (n, payload buffer n)

section VarintDecoding
variable {buffer : Buffer}

theorem read_eq_none : read buffer = none ↔ ∀ i < 10, 128 ≤ (buffer i).toNat := by
  constructor
  · intro hnone
    rcases read_cases buffer with ⟨hmark, _⟩ | ⟨m, _, _, _, hread⟩
    · exact hmark
    · rw [hnone] at hread
      cases hread
  · intro hmark
    exact readLoop_marked 0 (by simpa using hmark)

/-- Nine groups fit into 63 bits. -/
theorem payload_nine (buffer : Buffer) {n : ℕ} (hn : n ≤ 9) : payload buffer n < 2^63 :=
  (payload_lt buffer n).trans_le (Nat.pow_le_pow_right (by norm_num) (by omega))

/-- The tenth group begins at the highest bit. -/
theorem payload_ten (hlast : (buffer 9).toNat < 128) :
    payload buffer 10 < 2^64 ↔ (buffer 9).toNat ≤ 1 := by
  have hnine : payload buffer 9 < 2^63 := payload_nine buffer le_rfl
  rw [payload_succ, Nat.mod_eq_of_lt hlast]
  omega

end VarintDecoding

/-- `Read` gives back what `Write` stored, in the bytes that `ByteSize` counts. -/
theorem round_trip {value : ℕ} (h : value < 2^64) :
    ∃ n, byteSize value = some n ∧ 1 ≤ n ∧ n ≤ kMaxSize ∧ ∀ buffer,
      (∀ i, n ≤ i → write value buffer i = buffer i) ∧
      (∀ i < n, ∀ buffer', write value buffer' i = write value buffer i) ∧
      ∀ after, (∀ i < n, after i = write value buffer i) → read after = some (n, value) := by
  have hg := size_groups h
  refine ⟨size value, byteSize_eq h, hg.pos, hg.le_max, ?_⟩
  intro buffer
  refine ⟨?_, ?_, ?_⟩
  · intro i hi
    rw [write_apply hg, if_neg (by omega)]
  · intro i hi buffer'
    rw [write_apply hg, write_apply hg, if_pos hi, if_pos hi]
  · intro after hafter
    apply read_encode h
    intro i hi
    rw [hafter i (by simpa using hi), write_eq_encode h]

/-- A value that is rounded up to a power of two takes a byte more, and comes back all the same. -/
theorem round_trip_rounded :
    ∃ n, byteSize (2^56-1) = some n ∧ 1 ≤ n ∧ n ≤ kMaxSize ∧ ∀ buffer,
      (∀ i, n ≤ i → write (2^56-1) buffer i = buffer i) ∧
      (∀ i < n, ∀ buffer', write (2^56-1) buffer' i = write (2^56-1) buffer i) ∧
      ∀ after, (∀ i < n, after i = write (2^56-1) buffer i) → read after = some (n, 2^56-1) :=
  round_trip (by norm_num)

/-- Bytes are decoded exactly unless the tenth is reached and has more than the one bit left. -/
theorem decodes_exactly_iff (buffer : Buffer) :
    DecodesExactly buffer ↔ (∃ i < 9, (buffer i).toNat < 128) ∨ (buffer 9).toNat ≤ 1 := by
  constructor
  · rintro ⟨n, hpos, hmax, hread⟩
    rcases read_cases buffer with ⟨_, hnone⟩ | ⟨m, hm, _, hlast, hsome⟩
    · rw [hnone] at hread
      cases hread
    · by_cases hnine : m < 9
      · exact Or.inl ⟨m, hnine, hlast⟩
      · right
        -- the tenth byte was looked at
        obtain rfl : m = 9 := by omega
        rw [hsome] at hread
        obtain ⟨rfl, hvalue⟩ := Prod.mk.inj (Option.some.inj hread)
        -- the sum is what is left of it in 64 bits
        apply (payload_ten hlast).mp
        rw [← hvalue]
        exact Nat.mod_lt _ (by norm_num)
  · intro h
    rcases read_cases buffer with ⟨hmark, _⟩ | ⟨m, hm, hbefore, hlast, hsome⟩
    · rcases h with ⟨i, hi, hlt⟩ | hlt
      · exact absurd hlt (Nat.not_lt_of_le (hmark i (by omega)))
      · have hlarge := hmark 9 (by norm_num)
        omega
    · have hfits : payload buffer (m+1) < 2^64 := by
        by_cases hnine : m < 9
        · have hsmall := payload_nine buffer (Nat.succ_le_of_lt hnine)
          exact hsmall.trans (by norm_num)
        · obtain rfl : m = 9 := by omega
          apply (payload_ten hlast).mpr
          rcases h with ⟨i, hi, hlt⟩ | hlt
          · exact absurd hlt (Nat.not_lt_of_le (hbefore i hi))
          · exact hlt
      rw [u64_of_lt hfits] at hsome
      exact ⟨m+1, by omega, by unfold kMaxSize; omega, hsome⟩

/-- Ten bytes that all continue make `Read` run off its end, and a tenth byte of two stands for
`2^64`, of which nothing is left. -/
theorem damaged_length_decoded :
    read (fun _ => 0x80) = none ∧ ¬DecodesExactly (fun _ => 0x80) ∧
      read (fun i => if i = 9 then 2 else 0x80) = some (10, 0) ∧
      payload (fun i => if i = 9 then 2 else 0x80) 10 = 2^64 ∧
      ¬DecodesExactly (fun i => if i = 9 then 2 else 0x80) := by
  have hnone : read (fun _ => 0x80) = none := by decide +kernel
  have hsome : read (fun i => if i = 9 then 2 else 0x80) = some (10, 0) := by decide +kernel
  have hsum : payload (fun i => if i = 9 then 2 else 0x80) 10 = 2^64 := by decide +kernel
  refine ⟨hnone, ?_, hsome, hsum, ?_⟩
  · rintro ⟨n, _, _, hread⟩
    rw [hnone] at hread
    cases hread
  · rintro ⟨n, _, _, hread⟩
    rw [hsome] at hread
    obtain ⟨rfl, hvalue⟩ := Prod.mk.inj (Option.some.inj hread)
    rw [hsum] at hvalue
    omega

end CircularLog.Varint

namespace CircularLog

/-- On a damaged file `NextRecordSize` itself runs into the end of `Varint::Read`. -/
theorem nextRecordSize_marked {M : ℕ} {s : State} (h : Usable M s) (hi : Ideal s) (hM : 10 ≤ M)
    (hne : s.self.readOffset ≠ s.file.header.endOffset)
    (hmark : ∀ i < 10, 128 ≤ (window M s.file s.self.readOffset i).toNat) :
    Stops .noReturn nextRecordSize s :=
  nextRecordSize_undecoded h hi hM hne (Varint.read_eq_none.mpr hmark)

end CircularLog
