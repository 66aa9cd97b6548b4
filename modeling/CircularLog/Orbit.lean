import Mathlib.Tactic

/-! Iterating a partial function whose values lie in a finite set. Either the iteration comes to an
end within as many steps as the set has elements, or it never does. -/
namespace CircularLog

section Orbit
variable {α : Type*} {f : α → Option α} {a b c : α}

/-- Where `k` steps lead, if the function is defined that long. -/
def walk (f : α → Option α) : ℕ → α → Option α
  | 0, a => some a
  | k+1, a => (f a).bind (walk f k)

/-- The iteration ends in `b` after exactly `k` steps. -/
def HaltsAfter (f : α → Option α) (k : ℕ) (a b : α) : Prop := walk f k a = some b ∧ f b = none

theorem walk_succ {k : ℕ} (h : f a = some b) : walk f (k+1) a = walk f k b := by
  rw [walk, h, Option.bind_some]

theorem walk_add (j k : ℕ) (a : α) : walk f (j+k) a = (walk f j a).bind (walk f k) := by
  -- on the first stretch
  induction j generalizing a with
  | zero => rw [Nat.zero_add, walk, Option.bind_some]
  | succ j ih =>
    rw [Nat.succ_add, walk, walk]
    cases f a with
    | none => rfl
    | some b => exact ih b

theorem haltsAfter_succ {k : ℕ} (h : f a = some b) :
    HaltsAfter f (k+1) a c ↔ HaltsAfter f k b c := by
  unfold HaltsAfter
  rw [walk_succ h]

/-- The steps are determined, and so is their number. -/
theorem HaltsAfter.unique {j k : ℕ} {d : α} (hj : HaltsAfter f j a c) (hk : HaltsAfter f k a d) :
    j = k := by
  -- step by step; only the last value has no next one
  induction j generalizing a k with
  | zero =>
    cases hj.1
    cases k with
    | zero => rfl
    | succ k =>
      have hwalk := hk.1
      rw [walk, hj.2] at hwalk
      cases hwalk
  | succ j ih =>
    cases ha : f a with
    | none =>
      have hwalk := hj.1
      rw [walk, ha] at hwalk
      cases hwalk
    | some b =>
      cases k with
      | zero =>
        cases hk.1
        rw [hk.2] at ha
        cases ha
      | succ k => rw [ih ((haltsAfter_succ ha).mp hj) ((haltsAfter_succ ha).mp hk)]

/-- What is left of an iteration after `i` steps. -/
theorem HaltsAfter.drop {i k : ℕ} (h : HaltsAfter f k a c) (hi : i ≤ k) :
    ∃ b, walk f i a = some b ∧ HaltsAfter f (k-i) b c := by
  have hwalk := h.1
  rw [show k = i+(k-i) by omega, walk_add] at hwalk
  obtain ⟨b, hb, hrest⟩ := Option.bind_eq_some_iff.mp hwalk
  exact ⟨b, hb, hrest, h.2⟩

theorem walk_mem {S : Finset α} (hS : ∀ x y, f x = some y → y ∈ S) (k : ℕ)
    (h : walk f (k+1) a = some b) : b ∈ S := by
  rw [walk_add] at h
  obtain ⟨c, _, hc⟩ := Option.bind_eq_some_iff.mp h
  rw [walk] at hc
  obtain ⟨d, hd, hb⟩ := Option.bind_eq_some_iff.mp hc
  cases hb
  exact hS c b hd

/-- An iteration that ends visits no value twice, so it ends within the size of the set. -/
theorem HaltsAfter.le_card {S : Finset α} (hS : ∀ x y, f x = some y → y ∈ S) {k : ℕ}
    (h : HaltsAfter f k a c) : k ≤ S.card := by
  have hvisit (i : ℕ) : ∃ b, i < k → walk f (i+1) a = some b ∧ HaltsAfter f (k-(i+1)) b c := by
    by_cases hi : i < k
    · obtain ⟨b, hb⟩ := h.drop (show i+1 ≤ k by omega)
      exact ⟨b, fun _ => hb⟩
    · exact ⟨a, fun hlt => absurd hlt hi⟩
  -- the value after each step lies in the set
  choose visit hvisit using hvisit
  rw [← Finset.card_range k]
  refine Finset.card_le_card_of_injOn visit ?_ ?_
  · intro i hi
    exact walk_mem hS i (hvisit i (Finset.mem_range.mp hi)).1
  · intro i hi j hj hij
    have hi' : i < k := Finset.mem_range.mp hi
    have hj' : j < k := Finset.mem_range.mp hj
    -- from one value on, the number of steps to the end is one and the same
    have hrest := (hvisit i hi').2
    rw [hij] at hrest
    have hsame := hrest.unique (hvisit j hj').2
    omega

end Orbit

end CircularLog
