import CircularLog.MarkedDigits
import CircularLog.Varint

/-! Which encodings are the shortest ones. The length is found by comparisons in double precision,
and a value right below a power of two may be rounded up to it. -/
namespace CircularLog.Varint

/-- The base-128 encoding that a value ought to have. -/
def standard (value : ℕ) : List UInt8 := (marked 128 (positional 128 value)).map UInt8.ofNat

/-- `bytes` is the shortest encoding of a value, and `n` its length. -/
structure Shortest (value n : ℕ) (bytes : List UInt8) : Prop where
  least : IsLeast {k | 1 ≤ k ∧ value < 2^(7*k)} n
  standard : bytes = Varint.standard value
  length : bytes.length = n
  marker : ∀ i (hi : i < bytes.length), 128 ≤ bytes[i].toNat ↔ i+1 < n
  last : 1 < n → bytes.getLast? ≠ some 0

/-- `ByteSize` and `Write` produce the shortest encoding, whatever the buffer held before. -/
def EncodesShortest (value : ℕ) : Prop :=
  ∃ n, byteSize value = some n ∧ ∀ buffer, Shortest value n (contents (write value buffer) n)

section ShortestEncoding
variable {value n k : ℕ}

/-- Up to 53 bits nothing is rounded. -/
theorem ltExp2_small (hk : k ≤ 53) : ltExp2 value k = true ↔ value < 2^k := by
  constructor
  · exact lt_of_ltExp2
  · intro hlt
    have hpow : 2^k ≤ 2^53 := Nat.pow_le_pow_right (by norm_num) hk
    rw [ltExp2, toDouble, if_pos (by omega)]
    exact decide_eq_true hlt

/-- A value in the last octave below `2^k` has a spacing of `2^(k-53)`: it is rounded up to `2^k`
from the middle of the last step on, which is a tie that goes to the even neighbour. -/
theorem ltExp2_octave (hk : 54 ≤ k) (hlow : 2^(k-1) ≤ value) (hlt : value < 2^k) :
    ltExp2 value k = true ↔ value+2^(k-54) < 2^k := by
  have hne : value ≠ 0 := by
    have hpos := Nat.two_pow_pos (k-1)
    omega
  -- all values of the octave have `k` bits
  have hlog : value.log2 = k-1 := by
    have hge : k-1 ≤ value.log2 := (Nat.le_log2 hne).mpr hlow
    have hle : value.log2 < k := (Nat.log2_lt hne).mpr hlt
    omega
  have h53 : 2^53 ≤ value := (Nat.pow_le_pow_right (by norm_num) (by omega)).trans hlow
  have hstep : value.log2-52 = k-54+1 := by omega
  -- the step is twice its half, and the octave ends after `2^53` steps
  have hhalf : 2^(k-54+1) = 2*2^(k-54) := Nat.pow_succ'
  have htop : 2^k = 2^53*2^(k-54+1) := by rw [← Nat.pow_add, show 53+(k-54+1) = k by omega]
  have hpos := Nat.two_pow_pos (k-54)
  have hsplit := Nat.div_add_mod' value (2^(k-54+1))
  have hmod := Nat.mod_lt value (Nat.two_pow_pos (k-54+1))
  rw [ltExp2, toDouble, if_neg (by omega), hstep, decide_eq_true_iff]
  dsimp only
  generalize value/2^(k-54+1) = q at hsplit ⊢
  generalize value%2^(k-54+1) = r at hsplit hmod ⊢
  rw [htop, Nat.mul_lt_mul_right (Nat.two_pow_pos _)]
  rw [htop, ← hsplit] at hlt
  rw [hhalf] at hsplit hmod hlt ⊢
  generalize 2^(k-54) = half at hsplit hmod hlt hpos ⊢
  have hq : q < 2^53 := by
    by_contra hge
    have hle := Nat.mul_le_mul_right (2*half) (Nat.le_of_not_lt hge)
    omega
  -- only on the last step can rounding up reach the power
  by_cases hlast : q+1 = 2^53
  · -- the last step of the octave: an odd number of steps lies below
    have hsum : q*(2*half)+2*half = 2^53*(2*half) := by
      calc
        q*(2*half)+2*half = (q+1)*(2*half) := (Nat.succ_mul q (2*half)).symm
        _ = 2^53*(2*half) := by rw [hlast]
    split_ifs with hup
    · omega
    · omega
  · have hle : (q+2)*(2*half) ≤ 2^53*(2*half) := Nat.mul_le_mul_right _ (by omega)
    rw [Nat.add_mul] at hle
    split_ifs with hup
    · omega
    · omega

/-- The comparison is exact but for the last half step below the power. -/
theorem ltExp2_large (hk : 54 ≤ k) : ltExp2 value k = true ↔ value+2^(k-54) < 2^k := by
  have hpow : 2^k = 2^(k-1)+2^(k-1) := by
    calc
      2^k = 2^(k-1+1) := by rw [Nat.sub_add_cancel (by omega)]
      _ = 2^(k-1)+2^(k-1) := by rw [Nat.pow_succ, Nat.mul_two]
  have hhalf : 2^(k-54) ≤ 2^(k-1) := Nat.pow_le_pow_right (by norm_num) (by omega)
  by_cases hlt : value < 2^k
  · by_cases hlow : 2^(k-1) ≤ value
    · exact ltExp2_octave hk hlow hlt
    · -- rounding does not double a value
      have hdouble : toDouble value < 2^k := by
        by_cases hz : value = 0
        · subst hz
          exact Nat.two_pow_pos k
        · have hle := toDouble_lt_two_mul hz
          omega
      exact iff_of_true (decide_eq_true hdouble) (by omega)
  · exact iff_of_false (fun h => hlt (lt_of_ltExp2 h)) (fun h => hlt (Nat.lt_of_add_right_lt h))

/-- The comparison of every length is exact for the other values. -/
theorem ltExp2_exact (hv : value < 2^64) (h56 : ¬(2^56-4 ≤ value ∧ value < 2^56))
    (h63 : ¬(2^63-512 ≤ value ∧ value < 2^63)) (hn : n ≤ 10) :
    ltExp2 value (n*7) = true ↔ value < 2^(n*7) := by
  by_cases hsmall : n ≤ 7
  · exact ltExp2_small (by omega)
  · rw [ltExp2_large (by omega)]
    have hlarge : n = 8 ∨ n = 9 ∨ n = 10 := by omega
    rcases hlarge with rfl | rfl | rfl
    · norm_num
      omega
    · norm_num
      omega
    · norm_num
      omega

theorem ltExp2_mono {k' : ℕ} (hk : k ≤ k') (h : ltExp2 value k = true) : ltExp2 value k' = true :=
  decide_eq_true ((of_decide_eq_true h).trans_le (Nat.pow_le_pow_right (by norm_num) hk))

/-- Where every comparison is exact, the length chosen is the least one. -/
theorem Groups.isLeast (hg : Groups value n)
    (hexact : ∀ m ≤ 10, ltExp2 value (m*7) = true ↔ value < 2^(m*7)) :
    IsLeast {k | 1 ≤ k ∧ value < 2^(7*k)} n := by
  constructor
  · refine ⟨hg.pos, ?_⟩
    rw [Nat.mul_comm]
    exact hg.lt
  · rintro m ⟨hpos, hlt⟩
    by_contra hless
    have hmax := hg.le_max
    unfold kMaxSize at hmax
    -- the loop went past that length, so the comparison failed there
    have hbefore := hg.before (m-1) (by omega)
    rw [Nat.sub_add_cancel hpos] at hbefore
    have hafter := (hexact m (by omega)).mpr (by rwa [Nat.mul_comm])
    rw [hbefore] at hafter
    cases hafter

theorem positional_length (hleast : IsLeast {k | 1 ≤ k ∧ value < 2^(7*k)} n) :
    (positional 128 value).length = n := by
  have hdigits := positional_isLeast (by norm_num : 1 < 128) value
  simp only [show (128 : ℕ) = 2^7 by norm_num, ← Nat.pow_mul] at hdigits ⊢
  exact hdigits.unique hleast

/-- Each byte stored is a digit with its marker. -/
theorem write_standard (hg : Groups value n)
    (hleast : IsLeast {k | 1 ≤ k ∧ value < 2^(7*k)} n) (buffer : Buffer) :
    contents (write value buffer) n = standard value := by
  have hlen := positional_length hleast
  apply List.ext_getElem
  · simp [standard, hlen]
  · intro i hi _
    have hin : i < n := by simpa using hi
    -- both are digit `i` of the value, with a marker if another one follows
    have hdigit := positional_getElem (by norm_num : 1 < 128) (hlen.symm ▸ hin)
    simp only [standard, contents_getElem, List.getElem_map, write_apply hg, hin, ↓reduceIte]
    rw [marked_getElem 128 (by simpa [hlen] using hin) (hlen.symm ▸ hin), hdigit, hlen, pow_group,
      group]

theorem shortest_write (hg : Groups value n)
    (hleast : IsLeast {k | 1 ≤ k ∧ value < 2^(7*k)} n) (buffer : Buffer) :
    Shortest value n (contents (write value buffer) n) := by
  have hbyte (i : ℕ) (hi : i < (contents (write value buffer) n).length) :
      (contents (write value buffer) n)[i].toNat = group value n i := by
    have hin : i < n := by simpa using hi
    rw [contents_getElem, write_apply hg, if_pos hin, ofNat_group_toNat]
  refine ⟨hleast, write_standard hg hleast buffer, contents_length _ _, ?_, ?_⟩
  · intro i hi
    have hin : i < n := by simpa using hi
    have hmarker := group_marker value n i
    rw [hbyte]
    omega
  · intro hn hlast
    -- the last group is what the value has above the shorter lengths
    have hpos : n-1 < (contents (write value buffer) n).length := by
      rw [contents_length]
      omega
    rw [List.getLast?_eq_getElem?, contents_length, List.getElem?_eq_getElem hpos] at hlast
    have hzero := congrArg UInt8.toNat (Option.some.inj hlast)
    rw [hbyte, group, if_pos (Nat.sub_add_cancel hg.pos), Nat.add_zero] at hzero
    have hsmall : value/2^((n-1)*7) < 128 := by
      apply Nat.div_lt_of_lt_mul
      calc
        value < 2^(n*7) := hg.lt
        _ = 2^((n-1)*7+7) := by rw [show n*7 = (n-1)*7+7 by omega]
        _ = 2^((n-1)*7)*128 := Nat.pow_add 2 _ 7
    rw [Nat.mod_eq_of_lt hsmall] at hzero
    have hlt : value < 2^((n-1)*7) := Nat.lt_of_div_eq_zero (Nat.two_pow_pos _) hzero
    have hshorter : n-1 ∈ {k | 1 ≤ k ∧ value < 2^(7*k)} := by
      refine ⟨by omega, ?_⟩
      rwa [Nat.mul_comm]
    have hle := hleast.2 hshorter
    omega

/-- A value that its own length rounds up has got a longer encoding. -/
theorem not_isLeast (hg : Groups value n) (hlt : value < 2^(k*7)) (hk : 1 ≤ k)
    (hround : ltExp2 value (k*7) = false) : ¬IsLeast {j | 1 ≤ j ∧ value < 2^(7*j)} n := by
  intro hleast
  have hle : n ≤ k := hleast.2 ⟨hk, by rwa [Nat.mul_comm]⟩
  have hlast := ltExp2_mono (Nat.mul_le_mul_right 7 hle) hg.last
  rw [hround] at hlast
  cases hlast

end ShortestEncoding

/-- The shortest encoding is missed by the values right below `2^56` and `2^63` that are rounded up
to them, and by no others. -/
theorem shortest_iff {value : ℕ} (h : value < 2^64) :
    EncodesShortest value ↔
      ¬(2^56-4 ≤ value ∧ value < 2^56) ∧ ¬(2^63-512 ≤ value ∧ value < 2^63) := by
  -- from half a step below a power on the comparison with it fails
  have hround {k : ℕ} (hk : 54 ≤ k) (hle : 2^k ≤ value+2^(k-54)) : ltExp2 value k = false := by
    rw [Bool.eq_false_iff, Ne, ltExp2_large hk]
    omega
  constructor
  · rintro ⟨n, hn, hshort⟩
    have hg := groups_of_byteSize hn
    have hleast := (hshort uninitialized).least
    constructor
    · rintro ⟨hge, hlt⟩
      exact not_isLeast (k := 8) hg hlt (by norm_num) (hround (by norm_num) (by omega)) hleast
    · rintro ⟨hge, hlt⟩
      exact not_isLeast (k := 9) hg hlt (by norm_num) (hround (by norm_num) (by omega)) hleast
  · rintro ⟨h56, h63⟩
    have hg := size_groups h
    have hleast := hg.isLeast (fun m hm => ltExp2_exact h h56 h63 hm)
    exact ⟨size value, byteSize_eq h, shortest_write hg hleast⟩

theorem shortest_iff_two_bytes : EncodesShortest 300 :=
  (shortest_iff (by norm_num)).mpr ⟨by norm_num, by norm_num⟩

/-- Eight groups hold `2^56-1`, but its double is `2^56`: a ninth group follows, which is zero. -/
theorem not_shortest_two_pow_56 :
    byteSize (2^56-1) = some 9 ∧
      (contents (write (2^56-1) uninitialized) 9).getLast? = some 0 ∧
      ¬EncodesShortest (2^56-1) := by
  have hsize : byteSize (2^56-1) = some 9 := by decide +kernel
  refine ⟨hsize, by decide +kernel, ?_⟩
  rintro ⟨n, hn, hshort⟩
  rw [hsize] at hn
  cases hn
  -- eight would be enough
  have hle : 9 ≤ 8 := (hshort uninitialized).least.2 ⟨by norm_num, by norm_num⟩
  omega

end CircularLog.Varint
