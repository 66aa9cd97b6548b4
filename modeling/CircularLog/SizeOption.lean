import CircularLog.CommandLine

/-! The argument of `--size`: decimal digits and a unit. -/
namespace CircularLog

/-- The suffixes and what they stand for. -/
def units : List (Text × ℕ) :=
  [(text "", 1), (text "b", 1), (text "B", 1), (text "k", 1024), (text "K", 1024),
    (text "m", 1024^2), (text "M", 1024^2), (text "g", 1024^3), (text "G", 1024^3)]

/-- The option means what it says: when it is accepted the size is the number written times the
unit, and a product that does not fit in a `long` is an invalid size. -/
structure SizeMeant (c : CommandLine) (digits unit : Text) (k : ℕ) : Prop where
  accepted : ∀ c', c.parseOption (.size (digits ++ unit)) = .goesOn c' →
    c'.size = decimal digits*k ∧ 0 < c'.size ∧ c'.size ≤ 2^63-1
  rejected : 2^63-1 < decimal digits*k →
    ∃ c', c.parseOption (.size (digits ++ unit)) = .returns false c' ∧
      c'.stderr = c.stderr ++ c.program ++ text ": invalid size" ++ [newline]

section SizeOption
variable {c : CommandLine} {digits unit : Text} {k : ℕ}

theorem unit_facts : ∀ p ∈ units, unitFactor p.1 = some (p.2 : ℤ) ∧ p.1.takeWhile isDigit = [] ∧
    p.1.dropWhile isDigit = p.1 ∧ 0 < p.2 ∧ (strtol p.1).value = 0 := by
  decide +kernel

/-- A digit is neither a blank nor a sign. -/
theorem isDigit_not {b : UInt8} (h : isDigit b = true) : isSpace b = false ∧ b ≠ 45 ∧ b ≠ 43 := by
  have hrange : 48 ≤ b.toNat ∧ b.toNat ≤ 57 := by
    unfold isDigit at h
    rw [Bool.and_eq_true, decide_eq_true_iff, decide_eq_true_iff, UInt8.le_iff_toNat_le,
      UInt8.le_iff_toNat_le] at h
    exact h
  have hother (a : UInt8) (ha : a.toNat < 48) : b ≠ a := by
    intro hb
    rw [hb] at hrange
    omega
  refine ⟨?_, hother 45 (by decide), hother 43 (by decide)⟩
  -- the blanks besides the space lie below the digits
  have hhigh : ¬b ≤ 13 := by
    rw [UInt8.le_iff_toNat_le]
    change ¬b.toNat ≤ 13
    omega
  rw [isSpace, beq_eq_false_iff_ne.mpr (hother 32 (by decide)), decide_eq_false hhigh,
    Bool.and_false, Bool.or_false]

theorem strtol_digits (hd : ∀ b ∈ digits, isDigit b = true) (hne : digits ≠ [])
    (hstop : unit.takeWhile isDigit = []) (hrest : unit.dropWhile isDigit = unit) :
    strtol (digits ++ unit) = .ofInt (decimal digits) unit := by
  have htake : (digits ++ unit).takeWhile isDigit = digits := by
    rw [List.takeWhile_append_of_pos hd, hstop, List.append_nil]
  have hdrop : (digits ++ unit).dropWhile isDigit = unit := by
    rw [List.dropWhile_append_of_pos hd, hrest]
  cases digits with
  | nil => exact absurd rfl hne
  | cons b digits =>
    obtain ⟨hspace, hminus, hplus⟩ := isDigit_not (hd b List.mem_cons_self)
    have hblank : (b :: digits ++ unit).dropWhile isSpace = b :: digits ++ unit := by
      rw [List.cons_append, List.dropWhile_cons_of_neg (by simp [hspace])]
    unfold strtol
    rw [hblank]
    dsimp only [List.cons_append] at htake hdrop ⊢
    -- no sign stands in front of a digit
    split
    · rename_i hsign
      exact absurd (List.cons.inj hsign).1 hminus
    · rename_i hsign
      exact absurd (List.cons.inj hsign).1 hplus
    · dsimp only
      rw [htake, hdrop, if_neg hne, if_neg Bool.false_ne_true]

theorem long_of_lt {n : ℤ} (h0 : 0 ≤ n) (h : n < 2^63) : long n = n := by
  unfold long
  rw [Int.bmod_eq_of_le (by omega) (by omega)]

/-- A number that fits is multiplied, whether the product fits or not. -/
theorem setSize_fits (hd : ∀ b ∈ digits, isDigit b = true) (hu : (unit, k) ∈ units)
    (hpos : 0 < decimal digits) (hlt : decimal digits < 2^63) :
    c.setSize (digits ++ unit) = .goesOn { c with size := long (decimal digits*k) } := by
  obtain ⟨hfactor, hstop, hrest, _, _⟩ := unit_facts _ hu
  have hne : digits ≠ [] := by
    intro h
    rw [h] at hpos
    exact absurd hpos (by decide)
  have hparsed : strtol (digits ++ unit) = ⟨decimal digits, 0, unit⟩ := by
    rw [strtol_digits hd hne hstop hrest, Strtol.ofInt, if_neg (by omega), if_neg (by omega)]
  unfold CommandLine.setSize
  rw [hparsed]
  dsimp only at hfactor ⊢
  rw [if_neg (by omega), hfactor]

/-- Zero, no number, and a number that does not fit. -/
theorem setSize_invalid (hd : ∀ b ∈ digits, isDigit b = true) (hu : (unit, k) ∈ units)
    (hbad : decimal digits = 0 ∨ 2^63 ≤ decimal digits) :
    ∃ size, c.setSize (digits ++ unit) =
      .returns false (({ c with size := size } : CommandLine).say
        (c.program ++ text ": invalid size")) := by
  obtain ⟨_, hstop, hrest, _, hzero⟩ := unit_facts _ hu
  have hparsed : (strtol (digits ++ unit)).errno ≠ 0 ∨ (strtol (digits ++ unit)).value ≤ 0 := by
    -- a lone suffix is no number, and `strtol` makes zero of it
    by_cases hne : digits = []
    · rw [hne, List.nil_append]
      exact Or.inr hzero.le
    · rw [strtol_digits hd hne hstop hrest, Strtol.ofInt]
      rcases hbad with hbad | hbad
      · rw [if_neg (by omega), if_neg (by omega)]
        right
        dsimp only
        omega
      · -- ERANGE
        rw [if_pos (by omega)]
        exact Or.inl (by simp [eRange])
  refine ⟨(strtol (digits ++ unit)).value, ?_⟩
  unfold CommandLine.setSize
  dsimp only
  rw [if_pos hparsed]

end SizeOption

/-- The size is what was written exactly when the product fits, or when the number itself does not:
between the two it is accepted and the product wraps around. -/
theorem size_option_iff (c : CommandLine) {digits unit : Text} {k : ℕ}
    (hd : ∀ b ∈ digits, isDigit b = true) (hu : (unit, k) ∈ units) :
    SizeMeant c digits unit k ↔ 2^63 ≤ decimal digits ∨ decimal digits*k < 2^63 := by
  obtain ⟨_, _, _, hk, _⟩ := unit_facts _ hu
  dsimp only at hk
  have hgrows : decimal digits ≤ decimal digits*k := Nat.le_mul_of_pos_right _ hk
  constructor
  · intro hmeant
    by_contra hbetween
    rw [not_or, not_le, not_lt] at hbetween
    obtain ⟨hfits, hproduct⟩ := hbetween
    have hpos : 0 < decimal digits := by
      apply Nat.pos_of_ne_zero
      intro hzero
      rw [hzero, Nat.zero_mul] at hproduct
      omega
    -- it would have to be rejected, but the check stands before the product
    obtain ⟨c', hreturns, _⟩ := hmeant.rejected (by omega)
    rw [CommandLine.parseOption, setSize_fits hd hu hpos hfits] at hreturns
    cases hreturns
  · intro hcond
    by_cases hpos : decimal digits = 0 ∨ 2^63 ≤ decimal digits
    · obtain ⟨size, hinvalid⟩ := setSize_invalid (c := c) hd hu hpos
      refine ⟨?_, fun _ => ⟨_, hinvalid, ?_⟩⟩
      · intro c' hgoes
        rw [CommandLine.parseOption, hinvalid] at hgoes
        cases hgoes
      · simp [CommandLine.say]
    · rw [not_or, not_le] at hpos
      obtain ⟨hne, hfits⟩ := hpos
      have hproduct : decimal digits*k < 2^63 := hcond.resolve_left (by omega)
      have hnonneg : 0 < decimal digits*k := Nat.mul_pos (by omega) hk
      -- the number and the product both fit
      refine ⟨?_, by omega⟩
      intro c' hgoes
      rw [CommandLine.parseOption, setSize_fits hd hu (by omega) hfits] at hgoes
      cases hgoes
      have hlong : long (decimal digits*k) = ((decimal digits*k : ℕ) : ℤ) := by
        rw [← Nat.cast_mul]
        exact long_of_lt (by omega) (by omega)
      dsimp only
      rw [hlong]
      refine ⟨by rw [Nat.cast_mul], by omega, by omega⟩

theorem size_option_iff_400m :
    SizeMeant (.construct [] [] []) (text "400") (text "m") (1024^2) :=
  (size_option_iff _ (by decide +kernel) (by simp [units])).mpr (Or.inr (by decide +kernel))

/-- `--size=18014398509481985k` is accepted as a ring of 1024 bytes. -/
theorem size_option_wraps :
    ((CommandLine.construct [] [] []).parse (text "ringfile")
      [.append, .size (text "18014398509481985" ++ text "k")] [text "log"]).1 = true ∧
    ((CommandLine.construct [] [] []).parse (text "ringfile")
      [.append, .size (text "18014398509481985" ++ text "k")] [text "log"]).2.size = 1024 ∧
    decimal (text "18014398509481985") = 18014398509481985 ∧
    ¬SizeMeant (.construct [] [] []) (text "18014398509481985") (text "k") 1024 := by
  have hdigits : decimal (text "18014398509481985") = 18014398509481985 := by decide +kernel
  refine ⟨by decide +kernel, by decide +kernel, hdigits, ?_⟩
  intro hmeant
  have hunit : (text "k", 1024) ∈ units := by simp [units]
  obtain ⟨c', hreturns, _⟩ := hmeant.rejected (by rw [hdigits]; norm_num)
  rw [CommandLine.parseOption, setSize_fits (by decide +kernel) hunit
    (by rw [hdigits]; norm_num) (by rw [hdigits]; norm_num)] at hreturns
  cases hreturns

end CircularLog
