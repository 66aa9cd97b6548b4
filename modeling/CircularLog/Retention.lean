import Mathlib.Tactic

/-! The longest suffix of a list that fits a capacity, each item having a weight. It is what a log
that drops its oldest items keeps. -/
namespace CircularLog

section Retention
variable {α : Type*} (w : α → ℕ)

def weight (l : List α) : ℕ := (l.map w).sum

@[simp] theorem weight_nil : weight w [] = 0 := rfl

@[simp] theorem weight_cons (a : α) (l : List α) : weight w (a :: l) = w a + weight w l := rfl

@[simp] theorem weight_append (l m : List α) : weight w (l ++ m) = weight w l + weight w m := by
  simp only [weight, List.map_append, List.sum_append]

theorem weight_suffix_le {l m : List α} (h : l <:+ m) : weight w l ≤ weight w m := by
  obtain ⟨p, rfl⟩ := h
  rw [weight_append]
  omega

/-- Drop items from the front until the rest weighs at most `cap`. -/
def keep (cap : ℕ) : List α → List α
  | [] => []
  | a :: l => if weight w (a :: l) ≤ cap then a :: l else keep cap l

theorem keep_of_le {cap : ℕ} {l : List α} (h : weight w l ≤ cap) : keep w cap l = l := by
  cases l with
  | nil => rfl
  | cons a l => exact if_pos h

theorem keep_cons_of_lt {cap : ℕ} {a : α} {l : List α} (h : cap < weight w (a :: l)) :
    keep w cap (a :: l) = keep w cap l := if_neg (by omega)

theorem keep_suffix (cap : ℕ) (l : List α) : keep w cap l <:+ l := by
  induction l with
  | nil => exact List.suffix_rfl
  | cons a l ih =>
    by_cases h : weight w (a :: l) ≤ cap
    · rw [keep_of_le w h]
    · rw [keep_cons_of_lt w (by omega)]
      exact ih.trans (List.suffix_cons a l)

theorem weight_keep_le (cap : ℕ) (l : List α) : weight w (keep w cap l) ≤ cap := by
  induction l with
  | nil => exact Nat.zero_le _
  | cons a l ih =>
    by_cases h : weight w (a :: l) ≤ cap
    · rwa [keep_of_le w h]
    · rwa [keep_cons_of_lt w (by omega)]

/-- Every suffix that fits is a suffix of what is kept. -/
theorem suffix_keep {cap : ℕ} {l k : List α} (hk : k <:+ l) (hw : weight w k ≤ cap) :
    k <:+ keep w cap l := by
  induction l with
  | nil => exact hk
  | cons a l ih =>
    by_cases h : weight w (a :: l) ≤ cap
    · rwa [keep_of_le w h]
    · rw [keep_cons_of_lt w (by omega)]
      -- the whole list does not fit, so `k` is a suffix of its tail
      rcases List.suffix_cons_iff.mp hk with rfl | hk
      · exact False.elim (h hw)
      · exact ih hk

/-- An item that fits by itself stays, and what is kept before it is decided by the rest of the
capacity. -/
theorem keep_append_singleton {cap : ℕ} (l : List α) (a : α) (ha : w a ≤ cap) :
    keep w cap (l ++ [a]) = keep w (cap-w a) l ++ [a] := by
  induction l with
  | nil =>
    rw [List.nil_append, keep_of_le w (by simpa using ha)]
    rfl
  | cons b l ih =>
    have hw : weight w (b :: (l ++ [a])) = weight w (b :: l)+w a := by
      simp only [weight_cons, weight_append, weight_nil]
      omega
    rw [List.cons_append]
    -- the new item weighs the same on both sides
    by_cases h : weight w (b :: l) ≤ cap-w a
    · rw [keep_of_le w h, keep_of_le w (by omega), List.cons_append]
    · rw [keep_cons_of_lt w (show cap < weight w (b :: (l ++ [a])) by omega),
        keep_cons_of_lt w (show cap-w a < weight w (b :: l) by omega), ih]

/-- One unit of capacity matters exactly when some suffix uses all of it. -/
theorem keep_pred_iff {cap : ℕ} (hcap : 1 ≤ cap) (l : List α) :
    keep w cap l = keep w (cap-1) l ↔ ∀ k, k <:+ l → weight w k ≠ cap := by
  constructor
  · intro he k hk hw
    -- a suffix of weight `cap` would be kept by the larger capacity only
    have hle := weight_suffix_le w (suffix_keep w hk hw.le)
    have hlt := weight_keep_le w (cap-1) l
    rw [← he] at hlt
    omega
  · intro hno
    -- what is kept is lighter than `cap`, so each side is a suffix of the other
    have hfit := weight_keep_le w cap l
    have hne := hno _ (keep_suffix w cap l)
    have hsub : keep w cap l <:+ keep w (cap-1) l :=
      suffix_keep w (keep_suffix w cap l) (by omega)
    have hsup : keep w (cap-1) l <:+ keep w cap l := by
      apply suffix_keep w (keep_suffix w (cap-1) l)
      have hle := weight_keep_le w (cap-1) l
      omega
    exact hsub.eq_of_length_le hsup.length_le

end Retention

end CircularLog
