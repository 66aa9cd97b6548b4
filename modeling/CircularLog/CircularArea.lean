import Mathlib.Tactic

/-! A data area of `M` cells addressed modulo `M`. Offsets are not reduced here, so a region that
runs over the end of the area needs no case distinction. -/
namespace CircularLog

section CircularArea
variable {α : Type*}

/-- The `n` cells met from offset `off` on. -/
def slice (M : ℕ) (data : ℕ → α) (off n : ℕ) : List α :=
  (List.range n).map (fun i => data ((off+i)%M))

/-- Cell `p` is one of the `n` cells met from offset `off` on. -/
def Covers (M off n p : ℕ) : Prop := ∃ i < n, p = (off+i)%M

@[simp] theorem slice_length (M : ℕ) (data : ℕ → α) (off n : ℕ) :
    (slice M data off n).length = n := by
  simp only [slice, List.length_map, List.length_range]

theorem slice_getElem (M : ℕ) (data : ℕ → α) (off n i : ℕ) (hi : i < (slice M data off n).length) :
    (slice M data off n)[i] = data ((off+i)%M) := by
  simp only [slice, List.getElem_map, List.getElem_range]

theorem slice_add (M : ℕ) (data : ℕ → α) (off a b : ℕ) :
    slice M data off (a+b) = slice M data off a ++ slice M data (off+a) b := by
  simp only [slice, List.range_add, List.map_append, List.map_map, Function.comp_def, Nat.add_assoc]

@[simp] theorem slice_mod (M : ℕ) (data : ℕ → α) (off n : ℕ) :
    slice M data (off%M) n = slice M data off n := by
  simp only [slice, Nat.mod_add_mod]

theorem slice_congr (M : ℕ) (data data' : ℕ → α) (off n : ℕ)
    (h : ∀ p, Covers M off n p → data' p = data p) :
    slice M data' off n = slice M data off n := by
  apply List.map_congr_left
  intro i hi
  exact h _ ⟨i, List.mem_range.mp hi, rfl⟩

/-- The cells met from offset `off` on hold the entries of `l`. -/
def Stored (M : ℕ) (data : ℕ → α) (off : ℕ) (l : List α) : Prop := slice M data off l.length = l

theorem stored_iff {M : ℕ} {data : ℕ → α} {off : ℕ} {l : List α} :
    Stored M data off l ↔ ∀ i (hi : i < l.length), data ((off+i)%M) = l[i] := by
  constructor
  · intro h i hi
    have hs := List.getElem_of_eq h (by simpa using hi)
    rw [slice_getElem] at hs
    exact hs
  · intro h
    apply List.ext_getElem
    · simp only [slice_length]
    · intro i hi hi'
      rw [slice_getElem]
      exact h i hi'

theorem stored_nil (M : ℕ) (data : ℕ → α) (off : ℕ) : Stored M data off [] := rfl

theorem stored_mod {M : ℕ} {data : ℕ → α} {off : ℕ} {l : List α} :
    Stored M data (off%M) l ↔ Stored M data off l := by
  rw [Stored, slice_mod, Stored]

theorem stored_append {M : ℕ} {data : ℕ → α} {off : ℕ} {l m : List α} :
    Stored M data off (l ++ m) ↔ Stored M data off l ∧ Stored M data (off+l.length) m := by
  simp only [Stored, List.length_append, slice_add]
  constructor
  · intro h
    exact List.append_inj h (slice_length _ _ _ _)
  · intro h
    obtain ⟨hl, hm⟩ := h
    rw [hl, hm]

theorem Stored.congr {M : ℕ} {data data' : ℕ → α} {off : ℕ} {l : List α}
    (h : Stored M data off l) (hd : ∀ p, Covers M off l.length p → data' p = data p) :
    Stored M data' off l := by
  rw [Stored, slice_congr M data data' off l.length hd]
  exact h

theorem covers_mod (M off n p : ℕ) : Covers M (off%M) n p ↔ Covers M off n p := by
  simp only [Covers, Nat.mod_add_mod]

theorem Covers.sub {M off n k m p : ℕ} (h : Covers M (off+k) m p) (hk : k+m ≤ n) :
    Covers M off n p := by
  obtain ⟨i, hi, rfl⟩ := h
  exact ⟨k+i, by omega, by rw [Nat.add_assoc]⟩

/-- Two cells less than one lap apart are different. -/
theorem add_mod_inj {M off i j : ℕ} (hi : i < M) (hj : j < M)
    (h : (off+i)%M = (off+j)%M) : i = j := by
  -- cancel the offset; both sides are below the modulus
  have hm : i ≡ j [MOD M] := Nat.ModEq.add_left_cancel' off h
  exact hm.eq_of_lt_of_lt hi hj

/-- Two regions that follow each other inside one lap share no cell. -/
theorem Covers.disjoint {M off a b p : ℕ} (hab : a+b ≤ M) (ha : Covers M off a p) :
    ¬Covers M (off+a) b p := by
  intro h
  obtain ⟨j, hj, hp⟩ := h
  obtain ⟨i, hi, rfl⟩ := ha
  -- seen from `off`, the second region holds the later cells
  rw [Nat.add_assoc] at hp
  have hij : i = a+j := add_mod_inj (by omega) (by omega) hp
  omega

/-- Inside the area, going over its end at most once, reduction subtracts at most one lap. -/
theorem add_mod_cases {M off n : ℕ} (hoff : off < M) (hn : n ≤ M) :
    (off+n < M ∧ (off+n)%M = off+n) ∨ (M ≤ off+n ∧ (off+n)%M = off+n-M) := by
  rcases Nat.lt_or_ge (off+n) M with h | h
  · exact Or.inl ⟨h, Nat.mod_eq_of_lt h⟩
  · refine Or.inr ⟨h, ?_⟩
    rw [Nat.mod_eq_sub_mod h]
    exact Nat.mod_eq_of_lt (by omega)

end CircularArea

end CircularLog
