import Mathlib.Tactic

/-! Numbers of a fixed width as bytes, the lowest first. -/
namespace CircularLog

/-- The `n` bytes of a number. What does not fit is cut off. -/
def littleEndian : ℕ → ℕ → List UInt8
  | 0, _ => []
  | n+1, value => UInt8.ofNat value :: littleEndian n (value/256)

def ofLittleEndian : List UInt8 → ℕ
  | [] => 0
  | byte :: bytes => byte.toNat+256*ofLittleEndian bytes

@[simp] theorem littleEndian_length (n value : ℕ) : (littleEndian n value).length = n := by
  induction n generalizing value with
  | zero => rfl
  | succ n ih => rw [littleEndian, List.length_cons, ih]

theorem ofLittleEndian_littleEndian {n value : ℕ} (h : value < 256^n) :
    ofLittleEndian (littleEndian n value) = value := by
  -- on the width; the lowest byte and the rest are remainder and quotient
  induction n generalizing value with
  | zero =>
    rw [pow_zero] at h
    simp [littleEndian, ofLittleEndian]
    omega
  | succ n ih =>
    have hrest : value/256 < 256^n := by
      apply (Nat.div_lt_iff_lt_mul (by norm_num)).mpr
      rwa [← Nat.pow_succ]
    have hbyte : (UInt8.ofNat value).toNat = value%256 := UInt8.toNat_ofNat
    calc
      ofLittleEndian (littleEndian (n+1) value)
          = value%256+256*ofLittleEndian (littleEndian n (value/256)) := by
        rw [littleEndian, ofLittleEndian, hbyte]
      _ = value%256+256*(value/256) := by rw [ih hrest]
      _ = value := Nat.mod_add_div value 256

theorem littleEndian_ofLittleEndian (bytes : List UInt8) :
    littleEndian bytes.length (ofLittleEndian bytes) = bytes := by
  induction bytes with
  | nil => rfl
  | cons byte bytes ih =>
    have hlt := byte.toNat_lt
    have hlow : UInt8.ofNat (byte.toNat+256*ofLittleEndian bytes) = byte := by
      apply UInt8.toNat_inj.mp
      rw [UInt8.toNat_ofNat']
      omega
    have hhigh : (byte.toNat+256*ofLittleEndian bytes)/256 = ofLittleEndian bytes := by omega
    rw [List.length_cons, ofLittleEndian, littleEndian, hlow, hhigh, ih]

end CircularLog
