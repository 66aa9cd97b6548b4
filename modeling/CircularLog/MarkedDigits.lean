import Mathlib.Tactic
import Mathlib.Data.Nat.Digits.Lemmas

/-! Numbers as digits in a base, the lowest first, where a digit says whether another one follows:
every digit but the last is stored with the base added to it. -/
namespace CircularLog

/-- The digits of a number. Zero has one. -/
def positional (b n : ℕ) : List ℕ := if n = 0 then [0] else b.digits n

/-- The digits with their markers. -/
def marked (b : ℕ) : List ℕ → List ℕ
  | [] => []
  | [d] => [d]
  | d :: e :: ds => (d+b) :: marked b (e :: ds)

section MarkedDigits
variable {b n : ℕ}

@[simp] theorem marked_length (b : ℕ) (ds : List ℕ) : (marked b ds).length = ds.length := by
  induction ds with
  | nil => rfl
  | cons d ds ih =>
    cases ds with
    | nil => rfl
    | cons e ds => rw [marked, List.length_cons, ih, List.length_cons (a := d)]

theorem marked_getElem (b : ℕ) {ds : List ℕ} {i : ℕ} (hi : i < (marked b ds).length)
    (hi' : i < ds.length) :
    (marked b ds)[i] = ds[i]+(if i+1 = ds.length then 0 else b) := by
  -- on the digits; a digit has a marker if there is another one behind it
  induction ds generalizing i with
  | nil => exact absurd hi' (Nat.not_lt_zero i)
  | cons d ds ih =>
    cases ds with
    | nil =>
      obtain rfl : i = 0 := by simpa using hi'
      rfl
    | cons e ds =>
      cases i with
      | zero => rfl
      | succ i =>
        have hlt : i < (e :: ds).length := by simpa using hi'
        have hrest := ih (by rwa [marked_length]) hlt
        simpa [marked] using hrest

theorem positional_length_pos (b n : ℕ) : 1 ≤ (positional b n).length := by
  unfold positional
  split_ifs with hn
  · exact le_rfl
  · exact List.length_pos_iff.mpr (Nat.digits_ne_nil_iff_ne_zero.mpr hn)

/-- As many digits are enough as it takes to pass the number. -/
theorem positional_length_le (hb : 1 < b) {k : ℕ} (hk : 1 ≤ k) :
    (positional b n).length ≤ k ↔ n < b^k := by
  unfold positional
  split_ifs with hn
  · subst hn
    exact iff_of_true hk (Nat.pow_pos (by omega))
  · exact Nat.digits_length_le_iff hb n

theorem positional_isLeast (hb : 1 < b) (n : ℕ) :
    IsLeast {k | 1 ≤ k ∧ n < b^k} (positional b n).length := by
  have hpos := positional_length_pos b n
  constructor
  · exact ⟨hpos, (positional_length_le hb hpos).mp le_rfl⟩
  · intro k hk
    exact (positional_length_le hb hk.1).mpr hk.2

theorem positional_getElem (hb : 1 < b) {i : ℕ} (hi : i < (positional b n).length) :
    (positional b n)[i] = n/b^i%b := by
  unfold positional at hi ⊢
  split_ifs at hi ⊢ with hn
  · subst hn
    obtain rfl : i = 0 := by simpa using hi
    simp
  · rw [← Nat.getD_digits n i hb, List.getD_eq_getElem?_getD, List.getElem?_eq_getElem hi,
      Option.getD_some]

end MarkedDigits

end CircularLog
