import CircularLog.MachineWord
import Mathlib.Data.Nat.Bitwise

/-! The variable-length integers of `varint.cc`. Both `ByteSize` and `Write` compare the value with
a power of two in double precision; the comparison is made here in integer arithmetic. -/
namespace CircularLog.Varint

def kMaxSize : ℕ := 10

/-- The nearest double of an unsigned integer, ties to even: 53 significant bits are kept. -/
def toDouble (value : ℕ) : ℕ :=
  if value < 2^53 then value
  else
    let s := value.log2-52
    let q := value/2^s
    let r := value%2^s
    let up := 2^s < 2*r ∨ (2^s = 2*r ∧ q%2 = 1)
    (if up then q+1 else q)*2^s

/-- `value_ < exp2(k)`; the power is exact. -/
def ltExp2 (value k : ℕ) : Bool := toDouble value < 2^k

/-- `Varint::Read` from group `shift` on, with `value_` accumulated so far. The loop may end
without reaching a return statement. -/
def readLoop (buffer : Buffer) : ℕ → ℕ → ℕ → Option (ℕ × ℕ)
  | 0, _, _ => none
  | k+1, shift, value =>
    let byte := (buffer shift).toNat
    -- the shifted group is truncated to 64 bits
    let value := value ||| u64 ((byte &&& 0x7f) <<< (shift*7))
    if byte &&& 0x80 = 0 then some (shift+1, value)
    else readLoop buffer k (shift+1) value

/-- `Varint::Read`: the value returned, and `value_` afterwards. -/
def read (buffer : Buffer) : Option (ℕ × ℕ) := readLoop buffer 10 0 0

/-- The integer that the first `n` bytes stand for, each by its low seven bits. -/
def payload (buffer : Buffer) (n : ℕ) : ℕ :=
  ∑ i ∈ Finset.range n, (buffer i).toNat%128*128^i

/-- `Varint::ByteSize`. The loop returns at the first length that is large enough. -/
def byteSize (value : ℕ) : Option ℕ :=
  ((List.range 10).find? (fun shift => ltExp2 value ((shift+1)*7))).map (fun shift => shift+1)

/-- `Varint::Write` from group `shift` on. -/
def writeLoop (value : ℕ) : ℕ → ℕ → Buffer → Buffer
  | 0, _, buffer => buffer
  | k+1, shift, buffer =>
    let marker := if ltExp2 value ((shift+1)*7) then 0 else 0x80
    let buffer := Function.update buffer shift
      (UInt8.ofNat (((value >>> (shift*7)) &&& 0x7f) ||| marker))
    if marker = 0 then buffer else writeLoop value k (shift+1) buffer

def write (value : ℕ) (buffer : Buffer) : Buffer := writeLoop value 10 0 buffer

/-- The number of bytes of an encoding; every 64-bit value has one. -/
def size (value : ℕ) : ℕ := (byteSize value).getD 0

/-- The bytes `Write` stores. -/
def encode (value : ℕ) : List UInt8 := contents (write value uninitialized) (size value)

theorem toDouble_lt_two_mul {value : ℕ} (h : value ≠ 0) : toDouble value < 2*value+1 := by
  unfold toDouble
  split_ifs with hs
  · omega
  · have hp : 2^(value.log2-52) ≤ value :=
      (Nat.pow_le_pow_right (by norm_num) (Nat.sub_le _ _)).trans (Nat.log2_self_le h)
    have hq := Nat.div_mul_le_self value (2^(value.log2-52))
    dsimp only
    split_ifs
    · rw [Nat.add_mul, Nat.one_mul]
      omega
    · omega

/-- A value at or above a power of two is not rounded below it. -/
theorem lt_of_ltExp2 {value k : ℕ} (h : ltExp2 value k = true) : value < 2^k := by
  have hd : toDouble value < 2^k := of_decide_eq_true h
  by_contra hge
  have hk : 2^k ≤ value := Nat.le_of_not_lt hge
  have hne : value ≠ 0 := by
    have := Nat.two_pow_pos k
    omega
  have hlog : k ≤ value.log2 := (Nat.le_log2 hne).mpr hk
  unfold toDouble at hd
  split_ifs at hd with hs
  · omega
  · -- the bits that are kept are at least `2^52`, so dropping the others stays at or above `2^k`
    have h53 : 53 ≤ value.log2 := (Nat.le_log2 hne).mpr (by omega)
    have hq : 2^52 ≤ value/2^(value.log2-52) := by
      apply (Nat.le_div_iff_mul_le (Nat.two_pow_pos _)).mpr
      rw [← Nat.pow_add, show 52+(value.log2-52) = value.log2 by omega]
      exact Nat.log2_self_le hne
    have hr : 2^k ≤ value/2^(value.log2-52)*2^(value.log2-52) := by
      calc
        2^k ≤ 2^(52+(value.log2-52)) := Nat.pow_le_pow_right (by norm_num) (by omega)
        _ = 2^52*2^(value.log2-52) := Nat.pow_add 2 52 _
        _ ≤ _ := Nat.mul_le_mul_right _ hq
    dsimp only at hd
    split_ifs at hd
    · rw [Nat.add_mul] at hd
      omega
    · omega

/-- Every 64-bit value is below `2^70`, also after rounding. -/
theorem ltExp2_seventy {value : ℕ} (h : value < 2^64) : ltExp2 value 70 = true := by
  apply decide_eq_true
  by_cases hz : value = 0
  · subst hz
    decide
  · have := toDouble_lt_two_mul hz
    omega

/-- What the loops of `ByteSize` and `Write` have in common: `n` groups hold the value, and the
comparison fails at every shorter length. -/
structure Groups (value n : ℕ) : Prop where
  pos : 1 ≤ n
  le_max : n ≤ kMaxSize
  last : ltExp2 value (n*7) = true
  before : ∀ j, j+1 < n → ltExp2 value ((j+1)*7) = false

theorem Groups.lt {value n : ℕ} (h : Groups value n) : value < 2^(n*7) := lt_of_ltExp2 h.last

theorem groups_of_byteSize {value n : ℕ} (h : byteSize value = some n) : Groups value n := by
  obtain ⟨shift, hs, rfl⟩ := Option.map_eq_some_iff.mp h
  obtain ⟨hp, hm, hb⟩ := List.find?_range_eq_some.mp hs
  have hlt := List.mem_range.mp hm
  refine ⟨by omega, by unfold kMaxSize; omega, hp, ?_⟩
  intro j hj
  simpa using hb j (by omega)

theorem byteSize_isSome {value : ℕ} (h : value < 2^64) : ∃ n, byteSize value = some n := by
  cases hb : byteSize value with
  | some n => exact ⟨n, rfl⟩
  | none =>
    have hf := List.find?_eq_none.mp (Option.map_eq_none_iff.mp hb) 9 (by simp)
    exact False.elim (hf (ltExp2_seventy h))

theorem byteSize_eq {value : ℕ} (h : value < 2^64) : byteSize value = some (size value) := by
  obtain ⟨n, hn⟩ := byteSize_isSome h
  rw [size, hn, Option.getD_some]

theorem size_groups {value : ℕ} (h : value < 2^64) : Groups value (size value) :=
  groups_of_byteSize (byteSize_eq h)

@[simp] theorem encode_length (value : ℕ) : (encode value).length = size value :=
  contents_length _ _

/-- Group `i` of an encoding in `n` groups. -/
def group (value n i : ℕ) : ℕ := value/2^(i*7)%128+(if i+1 = n then 0 else 128)

theorem marked_group (value i : ℕ) :
    ((value >>> (i*7)) &&& 0x7f) ||| 0x80 = value/2^(i*7)%128+128 := by
  rw [Nat.shiftRight_eq_div_pow, show (0x7f : ℕ) = 2^7-1 by norm_num,
    Nat.and_two_pow_sub_one_eq_mod]
  have hlow : value/2^(i*7)%2^7 < 2^7 := Nat.mod_lt _ (by norm_num)
  have h := Nat.two_pow_add_eq_or_of_lt hlow 1
  rw [Nat.or_comm] at h
  simpa [Nat.add_comm] using h.symm

theorem unmarked_group (value i : ℕ) :
    ((value >>> (i*7)) &&& 0x7f) ||| 0 = value/2^(i*7)%128 := by
  rw [Nat.or_zero, Nat.shiftRight_eq_div_pow, show (0x7f : ℕ) = 2^7-1 by norm_num,
    Nat.and_two_pow_sub_one_eq_mod]

/-- `Write` stores the groups that are left and touches nothing else. -/
theorem writeLoop_apply {value n : ℕ} (h : Groups value n) (k shift : ℕ) (buffer : Buffer)
    (hs : shift < n) (hk : n ≤ shift+k) (i : ℕ) :
    writeLoop value k shift buffer i =
      if shift ≤ i ∧ i < n then UInt8.ofNat (group value n i) else buffer i := by
  -- on the groups that are left
  induction k generalizing shift buffer with
  | zero => omega
  | succ k ih =>
    by_cases hl : shift+1 = n
    · -- the last group has no marker, and the loop breaks
      have hlast : ltExp2 value ((shift+1)*7) = true := by
        rw [hl]
        exact h.last
      simp only [writeLoop, hlast, ↓reduceIte, unmarked_group]
      by_cases hi : i = shift
      · subst hi
        simp only [Function.update_self, group, hl, ↓reduceIte, le_refl, true_and, hs, Nat.add_zero]
      · rw [Function.update_of_ne hi, if_neg (by omega)]
    · -- an earlier group has the marker; the later ones do not touch its byte
      have hbefore := h.before shift (by omega)
      simp only [writeLoop, hbefore, Bool.false_eq_true, ↓reduceIte, marked_group,
        show ¬(0x80 : ℕ) = 0 by norm_num]
      rw [ih (shift+1) _ (by omega) (by omega)]
      by_cases hi : i = shift
      · subst hi
        simp only [Function.update_self, group, hl, ↓reduceIte, le_refl, true_and, hs]
        rw [if_neg (by omega)]
      · rw [Function.update_of_ne hi]
        by_cases hr : shift ≤ i ∧ i < n
        · rw [if_pos hr, if_pos (by omega)]
        · rw [if_neg hr, if_neg (by omega)]

theorem write_apply {value n : ℕ} (h : Groups value n) (buffer : Buffer) (i : ℕ) :
    write value buffer i = if i < n then UInt8.ofNat (group value n i) else buffer i := by
  have hm := h.le_max
  have hp := h.pos
  unfold kMaxSize at hm
  simpa [write] using writeLoop_apply h 10 0 buffer (by omega) (by omega) i

/-- The bytes stored do not depend on what the buffer held before. -/
theorem write_eq_encode {value : ℕ} (h : value < 2^64) (buffer : Buffer) (i : ℕ)
    (hi : i < (encode value).length) : write value buffer i = (encode value)[i] := by
  have hs : i < size value := by simpa using hi
  simp only [encode, contents_getElem, write_apply (size_groups h), hs, ↓reduceIte]

theorem encode_getElem {value : ℕ} (h : value < 2^64) (i : ℕ) (hi : i < (encode value).length) :
    (encode value)[i] = UInt8.ofNat (group value (size value) i) := by
  rw [← write_eq_encode h uninitialized i hi, write_apply (size_groups h)]
  exact if_pos (by simpa using hi)

theorem ofNat_group_toNat (value n i : ℕ) :
    (UInt8.ofNat (group value n i)).toNat = group value n i := by
  have hg : group value n i < 256 := by
    unfold group
    split_ifs <;> omega
  rw [UInt8.toNat_ofNat', Nat.mod_eq_of_lt hg]

theorem group_payload (value n i : ℕ) : group value n i%128 = value/2^(i*7)%128 := by
  unfold group
  split_ifs <;> omega

theorem group_marker (value n i : ℕ) : group value n i < 128 ↔ i+1 = n := by
  unfold group
  split_ifs <;> omega

theorem pow_group (i : ℕ) : 128^i = 2^(i*7) := by
  rw [show (128 : ℕ) = 2^7 by norm_num, ← Nat.pow_mul, Nat.mul_comm]

theorem pow_group_succ (i : ℕ) : 2^((i+1)*7) = 2^(i*7)*128 := by
  rw [Nat.add_mul, Nat.pow_add]

theorem payload_succ (buffer : Buffer) (n : ℕ) :
    payload buffer (n+1) = payload buffer n+(buffer n).toNat%128*2^(n*7) := by
  rw [payload, Finset.sum_range_succ, pow_group, payload]

theorem payload_lt (buffer : Buffer) (n : ℕ) : payload buffer n < 2^(n*7) := by
  induction n with
  | zero => exact Nat.one_pos
  | succ n ih =>
    have hpow := pow_group_succ n
    have hle : (buffer n).toNat%128*2^(n*7) ≤ 127*2^(n*7) := Nat.mul_le_mul_right _ (by omega)
    calc
      payload buffer (n+1) = payload buffer n+(buffer n).toNat%128*2^(n*7) := payload_succ buffer n
      _ < 2^(n*7)+127*2^(n*7) := by omega
      _ = 2^((n+1)*7) := by omega

/-- The groups of an encoding add up to the part of the value that they cover. -/
theorem payload_group {value n : ℕ} {buffer : Buffer}
    (hb : ∀ i < n, buffer i = UInt8.ofNat (group value n i)) {m : ℕ} (hm : m ≤ n) :
    payload buffer m = value%2^(m*7) := by
  -- on the groups that are added up
  induction m with
  | zero => exact (Nat.mod_one value).symm
  | succ m ih =>
    calc
      payload buffer (m+1) = value%2^(m*7)+group value n m%128*2^(m*7) := by
        rw [payload_succ, ih (by omega), hb m hm, ofNat_group_toNat]
      _ = value%2^(m*7)+2^(m*7)*(value/2^(m*7)%128) := by
        rw [group_payload, Nat.mul_comm (2^(m*7))]
      _ = value%2^((m+1)*7) := by rw [pow_group_succ, Nat.mod_mul]

/-- A byte says by its top bit whether another one follows. -/
theorem marker_eq_zero (byte : UInt8) : byte.toNat &&& 0x80 = 0 ↔ byte.toNat < 128 := by
  have hlt := byte.toNat_lt
  -- the mask is a single bit, the highest of the byte
  rw [show (0x80 : ℕ) = 2^7 by norm_num, Nat.and_two_pow, Nat.testBit_eq_decide_div_mod_eq]
  by_cases hbit : byte.toNat/2^7%2 = 1
  · simp only [hbit, decide_true, Bool.toNat_true]
    omega
  · simp only [hbit, decide_false, Bool.toNat_false]
    omega

/-- A shifted group has no bit in common with what is below it, so `|||` adds. What is cut off is
the same before and after the addition. -/
theorem or_shifted {below k : ℕ} (hk : k ≤ 64) (hbelow : below < 2^k) (d : ℕ) :
    below ||| u64 (d <<< k) = u64 (below+d*2^k) := by
  have hsplit : 2^64 = 2^k*2^(64-k) := by rw [← Nat.pow_add, Nat.add_sub_cancel' hk]
  have hshift : u64 (d <<< k) = 2^k*(d%2^(64-k)) := by
    rw [Nat.shiftLeft_eq, u64, Nat.mul_comm, hsplit, Nat.mul_mod_mul_left]
  have hsum : u64 (below+d*2^k) = below+2^k*(d%2^(64-k)) := by
    rw [u64, hsplit, Nat.mod_mul, Nat.add_mul_mod_self_right, Nat.mod_eq_of_lt hbelow,
      Nat.add_mul_div_right _ _ (Nat.two_pow_pos k), Nat.div_eq_of_lt hbelow, Nat.zero_add]
  calc
    below ||| u64 (d <<< k) = 2^k*(d%2^(64-k)) ||| below := by rw [hshift, Nat.or_comm]
    _ = 2^k*(d%2^(64-k))+below := (Nat.two_pow_add_eq_or_of_lt hbelow _).symm
    _ = u64 (below+d*2^k) := by rw [hsum, Nat.add_comm]

/-- One turn of the loop, which adds the next group. -/
theorem readLoop_succ (buffer : Buffer) (k : ℕ) {shift : ℕ} (hs : shift < 10) :
    readLoop buffer (k+1) shift (payload buffer shift) =
      if (buffer shift).toNat < 128 then some (shift+1, u64 (payload buffer (shift+1)))
      else readLoop buffer k (shift+1) (u64 (payload buffer (shift+1))) := by
  have hor := or_shifted (by omega) (payload_lt buffer shift) ((buffer shift).toNat%128)
  -- the other mask keeps the low seven bits
  rw [readLoop, show (0x7f : ℕ) = 2^7-1 by norm_num, Nat.and_two_pow_sub_one_eq_mod]
  simp only [marker_eq_zero, Nat.reducePow, hor, payload_succ]

/-- The loop stops at the first byte that no other one follows. -/
theorem readLoop_last {buffer : Buffer} {m : ℕ} (hbefore : ∀ i < m, 128 ≤ (buffer i).toNat)
    (hlast : (buffer m).toNat < 128) (k shift : ℕ) (hs : shift ≤ m) (hm : m < 10)
    (hk : m < shift+k) :
    readLoop buffer k shift (payload buffer shift) = some (m+1, u64 (payload buffer (m+1))) := by
  -- on the bytes that are left; the value collected is what the bytes before them stand for
  induction k generalizing shift with
  | zero => omega
  | succ k ih =>
    rw [readLoop_succ buffer k (by omega)]
    by_cases hl : shift = m
    · rw [hl, if_pos hlast]
    · have hmark := hbefore shift (by omega)
      have hlt := payload_lt buffer (shift+1)
      have hpow : 2^((shift+1)*7) ≤ 2^63 := Nat.pow_le_pow_right (by norm_num) (by omega)
      rw [if_neg (by omega), u64_of_lt (by omega)]
      exact ih (shift+1) (by omega) (by omega)

theorem read_last {buffer : Buffer} {m : ℕ} (hbefore : ∀ i < m, 128 ≤ (buffer i).toNat)
    (hlast : (buffer m).toNat < 128) (hm : m < 10) :
    read buffer = some (m+1, u64 (payload buffer (m+1))) :=
  readLoop_last hbefore hlast 10 0 (Nat.zero_le m) hm (by omega)

/-- Bytes that all continue lead the loop past its last turn. -/
theorem readLoop_marked {buffer : Buffer} {k shift : ℕ} (value : ℕ)
    (h : ∀ i < k, 128 ≤ (buffer (shift+i)).toNat) : readLoop buffer k shift value = none := by
  induction k generalizing shift value with
  | zero => rfl
  | succ k ih =>
    have hmark : 128 ≤ (buffer shift).toNat := h 0 (Nat.succ_pos k)
    rw [readLoop]
    simp only [marker_eq_zero]
    -- the byte has its marker, and the loop goes on
    rw [if_neg (by omega)]
    apply ih
    intro i hi
    have hnext := h (i+1) (by omega)
    rwa [Nat.add_comm i 1, ← Nat.add_assoc] at hnext

/-- Either all ten bytes continue, or the first that does not ends the number. -/
theorem read_cases (buffer : Buffer) :
    ((∀ i < 10, 128 ≤ (buffer i).toNat) ∧ read buffer = none) ∨
      ∃ m < 10, (∀ i < m, 128 ≤ (buffer i).toNat) ∧ (buffer m).toNat < 128 ∧
        read buffer = some (m+1, u64 (payload buffer (m+1))) := by
  by_cases h : ∃ m, m < 10 ∧ (buffer m).toNat < 128
  · right
    -- the loop stops at the least such byte
    obtain ⟨hm, hlast⟩ := Nat.find_spec h
    have hbefore (i : ℕ) (hi : i < Nat.find h) : 128 ≤ (buffer i).toNat := by
      have hmin := Nat.find_min h hi
      omega
    exact ⟨Nat.find h, hm, hbefore, hlast, read_last hbefore hlast hm⟩
  · left
    have hmark (i : ℕ) (hi : i < 10) : 128 ≤ (buffer i).toNat := by
      by_contra hlt
      exact h ⟨i, hi, by omega⟩
    refine ⟨hmark, readLoop_marked 0 ?_⟩
    simpa using hmark

/-- A buffer that starts with an encoding is read as the value encoded. -/
theorem read_encode {value : ℕ} (h : value < 2^64) (buffer : Buffer)
    (hb : ∀ i (hi : i < (encode value).length), buffer i = (encode value)[i]) :
    read buffer = some (size value, value) := by
  have hg := size_groups h
  have hm := hg.le_max
  have hp := hg.pos
  unfold kMaxSize at hm
  have hbyte : ∀ i < size value, buffer i = UInt8.ofNat (group value (size value) i) :=
    fun i hi => (hb i (by simpa using hi)).trans (encode_getElem h i (by simpa using hi))
  have hmark (i : ℕ) (hi : i < size value) : (buffer i).toNat < 128 ↔ i+1 = size value := by
    rw [hbyte i hi, ofNat_group_toNat, group_marker]
  -- the byte of the last group is the first without a marker
  have hread := read_last (m := size value-1)
    (fun i hi => Nat.le_of_not_lt (mt (hmark i (by omega)).mp (by omega)))
    ((hmark (size value-1) (by omega)).mpr (by omega)) (by omega)
  rw [Nat.sub_add_cancel hp, payload_group hbyte le_rfl, Nat.mod_eq_of_lt hg.lt, u64_of_lt h]
    at hread
  exact hread

theorem size_pos {value : ℕ} (h : value < 2^64) : 1 ≤ size value := (size_groups h).pos

theorem size_le {value : ℕ} (h : value < 2^64) : size value ≤ 10 := (size_groups h).le_max

/-- What lies behind the window is not looked at. -/
theorem readLoop_congr {buffer buffer' : Buffer} (k shift value : ℕ)
    (h : ∀ i, i < shift+k → buffer i = buffer' i) :
    readLoop buffer k shift value = readLoop buffer' k shift value := by
  induction k generalizing shift value with
  | zero => rfl
  | succ k ih =>
    simp only [readLoop, h shift (by omega)]
    rw [ih (shift+1) _ (fun i hi => h i (by omega))]

theorem read_congr {buffer buffer' : Buffer} (h : ∀ i < kMaxSize, buffer i = buffer' i) :
    read buffer = read buffer' :=
  readLoop_congr 10 0 0 (fun i hi => h i (by unfold kMaxSize; omega))

/-- Whatever the bytes are, a length that is decoded is a 64-bit value. -/
theorem read_bound {buffer : Buffer} {n v : ℕ} (h : read buffer = some (n, v)) :
    1 ≤ n ∧ n ≤ 10 ∧ v < 2^64 := by
  rcases read_cases buffer with ⟨_, hnone⟩ | ⟨m, hm, _, _, hsome⟩
  · rw [hnone] at h
    cases h
  · rw [hsome] at h
    cases h
    exact ⟨by omega, by omega, Nat.mod_lt _ (by norm_num)⟩

end CircularLog.Varint
