import Mathlib.Tactic

/-! Unsigned 64-bit arithmetic on natural numbers, and the byte memory behind a pointer. -/
namespace CircularLog

/-- The value of a computation in `uint64_t` or `size_t`. -/
def u64 (n : ℕ) : ℕ := n%2^64

/-- Unsigned 64-bit subtraction. -/
def sub64 (a b : ℕ) : ℕ := (a+2^64-b)%2^64

/-- `-1` converted to `size_t`. -/
def minusOne : ℕ := 2^64-1

theorem u64_of_lt {n : ℕ} (h : n < 2^64) : u64 n = n := Nat.mod_eq_of_lt h

theorem sub64_of_le {a b : ℕ} (ha : a < 2^64) (hb : b ≤ a) : sub64 a b = a-b := by
  unfold sub64
  omega

/-- The memory from a pointer on. A call takes the number of bytes separately, as in the source,
so what lies behind a buffer's end is part of the model. -/
abbrev Buffer := ℕ → UInt8

/-- A local array before anything is stored in it. -/
def uninitialized : Buffer := fun _ => 0

/-- The memory of a byte string followed by whatever lies behind it. -/
def memory (bytes : List UInt8) (behind : Buffer) : Buffer :=
  fun i => if h : i < bytes.length then bytes[i] else behind (i-bytes.length)

/-- The first `n` bytes at a pointer. -/
def contents (ptr : Buffer) (n : ℕ) : List UInt8 := (List.range n).map ptr

/-- Memory with a byte string copied over its front. -/
def overlay (bytes : List UInt8) (ptr : Buffer) : Buffer :=
  fun i => if h : i < bytes.length then bytes[i] else ptr i

theorem memory_of_lt {bytes : List UInt8} {behind : Buffer} {i : ℕ} (h : i < bytes.length) :
    memory bytes behind i = bytes[i] := dif_pos h

@[simp] theorem contents_length (ptr : Buffer) (n : ℕ) : (contents ptr n).length = n := by
  simp only [contents, List.length_map, List.length_range]

theorem contents_getElem (ptr : Buffer) (n i : ℕ) (hi : i < (contents ptr n).length) :
    (contents ptr n)[i] = ptr i := by
  simp only [contents, List.getElem_map, List.getElem_range]

theorem contents_eq {ptr : Buffer} {bytes : List UInt8}
    (h : ∀ i (hi : i < bytes.length), ptr i = bytes[i]) : contents ptr bytes.length = bytes := by
  apply List.ext_getElem
  · exact contents_length _ _
  · intro i hi hi'
    rw [contents_getElem, h i hi']

theorem contents_memory (bytes : List UInt8) (behind : Buffer) :
    contents (memory bytes behind) bytes.length = bytes :=
  contents_eq (fun _ hi => memory_of_lt hi)

/-- What lies behind a prefix of a string begins with the rest of it. -/
theorem memory_append (l m : List UInt8) (behind : Buffer) :
    memory (l ++ m) behind = memory l (memory m behind) := by
  funext i
  by_cases hl : i < l.length
  · -- both sides read from `l`
    rw [memory_of_lt hl, memory_of_lt (by rw [List.length_append]; omega),
      List.getElem_append_left hl]
  · by_cases hm : i-l.length < m.length
    · -- both sides read from `m`
      rw [memory_of_lt (by rw [List.length_append]; omega), memory, dif_neg hl, memory_of_lt hm,
        List.getElem_append_right (by omega)]
    · -- both sides read from what lies behind
      rw [memory, memory, memory, dif_neg (by rw [List.length_append]; omega), dif_neg hl,
        dif_neg hm, List.length_append, Nat.sub_sub]

theorem eq_overlay {bytes : List UInt8} {ptr buffer : Buffer}
    (h : ∀ i (hi : i < bytes.length), buffer i = bytes[i])
    (hrest : ∀ i, bytes.length ≤ i → buffer i = ptr i) : buffer = overlay bytes ptr := by
  funext i
  by_cases hi : i < bytes.length
  · rw [h i hi, overlay, dif_pos hi]
  · rw [hrest i (by omega), overlay, dif_neg hi]

theorem contents_overlay (bytes : List UInt8) (ptr : Buffer) :
    contents (overlay bytes ptr) bytes.length = bytes :=
  contents_eq (fun _ hi => dif_pos hi)

end CircularLog
