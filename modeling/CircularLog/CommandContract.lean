import CircularLog.CommandLine

/-! What `Parse` promises `Main`, whose switch has no default case. -/
namespace CircularLog

/-- The options that select a mode. -/
def Delivered.isMode : Delivered → Bool
  | .stat | .append => true
  | _ => false

/-- The number of mode options that `mode` remembers. -/
def CommandLine.modes (c : CommandLine) : ℕ := if c.mode = .unspecified then 0 else 1

/-- The mode asked for by options of which at most one selects a mode. -/
def askedMode (default : CommandMode) (options : List Delivered) : CommandMode :=
  if .stat ∈ options then .stat
  else if .append ∈ options then .append
  else default

/-- What is printed for `--help`. -/
def usage (program : Text) : Text :=
  text "usage: " ++ program ++ text " [-hvSas] [file]" ++ [newline]

/-- Nothing is left undecided: there is one mode, the one asked for, and one file. -/
structure Decided (options : List Delivered) (operands : List Text) (c : CommandLine) : Prop where
  once : options.countP Delivered.isMode ≤ 1
  mode : c.mode = askedMode .read options
  path : operands = [c.path]

section Parse
variable {c c' : CommandLine} {o : Delivered} {options : List Delivered}

theorem setMode_goesOn {mode : CommandMode} (h : c.setMode mode = .goesOn c') :
    c.mode = .unspecified ∧ c' = { c with mode := mode } := by
  unfold CommandLine.setMode at h
  by_cases hmode : c.mode = .unspecified
  · rw [if_neg (not_not_intro hmode)] at h
    cases h
    exact ⟨hmode, rfl⟩
  · rw [if_pos hmode] at h
    cases h

theorem setSize_goesOn {optarg : Text} (h : c.setSize optarg = .goesOn c') :
    ∃ size, c' = { c with size := size } := by
  unfold CommandLine.setSize at h
  dsimp only at h
  split_ifs at h
  cases hfactor : unitFactor (strtol optarg).units with
  | none =>
    rw [hfactor] at h
    cases h
  | some factor =>
    rw [hfactor] at h
    cases h
    exact ⟨_, rfl⟩

/-- Neither of them returns true. -/
theorem setMode_returns {mode : CommandMode} {ok : Bool} (h : c.setMode mode = .returns ok c') :
    ok = false := by
  unfold CommandLine.setMode at h
  split_ifs at h
  cases h
  rfl

theorem setSize_returns {optarg : Text} {ok : Bool} (h : c.setSize optarg = .returns ok c') :
    ok = false := by
  unfold CommandLine.setSize at h
  dsimp only at h
  split_ifs at h
  · cases h
    rfl
  · cases hfactor : unitFactor (strtol optarg).units with
    | none =>
      rw [hfactor] at h
      cases h
      rfl
    | some factor =>
      rw [hfactor] at h
      cases h

/-- One turn of the loop. -/
theorem parseOption_goesOn (h : c.parseOption o = .goesOn c') :
    o ≠ .help ∧ c'.stderr = c.stderr ∧ c'.program = c.program ∧
      ((o.isMode = false ∧ c'.mode = c.mode) ∨
        (o.isMode = true ∧ c.mode = .unspecified ∧ c'.mode = askedMode c.mode [o])) := by
  cases o with
  | help => cases h
  | verbose =>
    cases h
    exact ⟨by simp, rfl, rfl, Or.inl ⟨rfl, rfl⟩⟩
  | stat =>
    obtain ⟨hmode, rfl⟩ := setMode_goesOn h
    exact ⟨by simp, rfl, rfl, Or.inr ⟨rfl, hmode, rfl⟩⟩
  | append =>
    obtain ⟨hmode, rfl⟩ := setMode_goesOn h
    exact ⟨by simp, rfl, rfl, Or.inr ⟨rfl, hmode, rfl⟩⟩
  | size optarg =>
    obtain ⟨size, rfl⟩ := setSize_goesOn h
    exact ⟨by simp, rfl, rfl, Or.inl ⟨rfl, rfl⟩⟩
  | invalid => cases h

/-- The one early return that is true. -/
theorem parseOption_returns (h : c.parseOption o = .returns true c') :
    o = .help ∧ c'.stderr = c.stderr ++ usage c.program := by
  cases o with
  | help =>
    cases h
    simp [CommandLine.say, usage]
  | verbose => cases h
  | stat => cases setMode_returns h
  | append => cases setMode_returns h
  | size optarg => cases setSize_returns h
  | invalid => cases h

theorem askedMode_skip {d : CommandMode} (ho : o.isMode = false) :
    askedMode d (o :: options) = askedMode d options := by
  cases o <;> simp [askedMode, Delivered.isMode] at ho ⊢

theorem askedMode_none {d : CommandMode} (h : options.countP Delivered.isMode = 0) :
    .stat ∉ options ∧ .append ∉ options ∧ askedMode d options = d := by
  rw [List.countP_eq_zero] at h
  have hstat : .stat ∉ options := fun hm => h _ hm rfl
  have happend : .append ∉ options := fun hm => h _ hm rfl
  exact ⟨hstat, happend, by rw [askedMode, if_neg hstat, if_neg happend]⟩

theorem modes_le (c : CommandLine) : c.modes ≤ 1 := by
  unfold CommandLine.modes
  split_ifs <;> omega

theorem askedMode_first {d : CommandMode} (ho : o.isMode = true)
    (hrest : options.countP Delivered.isMode = 0) :
    askedMode d [o] ≠ .unspecified ∧ askedMode d (o :: options) = askedMode d [o] := by
  obtain ⟨hstat, _, _⟩ := askedMode_none (d := d) hrest
  cases o with
  | stat => simp [askedMode]
  | append => simp [askedMode, hstat]
  | _ => cases ho

/-- The whole loop. Every mode option is counted, and a second one is not survived. -/
theorem parseOptions_goesOn (h : c.parseOptions options = .goesOn c') :
    .help ∉ options ∧ c'.modes = c.modes+options.countP Delivered.isMode ∧
      c'.mode = askedMode c.mode options := by
  -- on the options, with `modes` counting those that were met before
  induction options generalizing c with
  | nil =>
    cases h
    exact ⟨by simp, rfl, rfl⟩
  | cons o options ih =>
    unfold CommandLine.parseOptions at h
    cases hstep : c.parseOption o with
    | returns ok c₁ =>
      rw [hstep] at h
      cases h
    | goesOn c₁ =>
      rw [hstep] at h
      obtain ⟨hhelp, hmodes, hmode⟩ := ih h
      obtain ⟨hne, _, _, hturn⟩ := parseOption_goesOn hstep
      refine ⟨by simp [hhelp, Ne.symm hne], ?_⟩
      rcases hturn with ⟨ho, hsame⟩ | ⟨ho, hfree, hset⟩
      · -- not an option for the mode
        rw [List.countP_cons_of_neg (by simp [ho]), askedMode_skip ho, ← hsame, hmodes]
        refine ⟨?_, hmode⟩
        unfold CommandLine.modes
        rw [hsame]
      · have hbefore : c.modes = 0 := if_pos hfree
        have hle := modes_le c'
        have hnew : c₁.modes = 1 := by
          have hchosen : c₁.mode ≠ .unspecified := by
            have halone : List.countP Delivered.isMode [] = 0 := rfl
            rw [hset]
            exact (askedMode_first ho halone).1
          exact if_neg hchosen
        -- there is no room for another one
        have hrest : options.countP Delivered.isMode = 0 := by omega
        obtain ⟨_, hfirst⟩ := askedMode_first (d := c.mode) ho hrest
        obtain ⟨_, _, hkept⟩ := askedMode_none (d := c₁.mode) hrest
        rw [List.countP_cons_of_pos ho]
        refine ⟨by omega, ?_⟩
        rw [hmode, hkept, hset, hfirst]

theorem parseOptions_returns (h : c.parseOptions options = .returns true c') :
    .help ∈ options ∧ c'.stderr = c.stderr ++ usage c.program := by
  induction options generalizing c with
  | nil => cases h
  | cons o options ih =>
    unfold CommandLine.parseOptions at h
    cases hstep : c.parseOption o with
    | returns ok c₁ =>
      rw [hstep] at h
      cases h
      -- this option is the one that returns
      obtain ⟨rfl, husage⟩ := parseOption_returns hstep
      exact ⟨List.mem_cons_self, husage⟩
    | goesOn c₁ =>
      rw [hstep] at h
      -- a later one is, and nothing was printed on the way
      obtain ⟨hhelp, husage⟩ := ih h
      obtain ⟨_, hstderr, hprogram, _⟩ := parseOption_goesOn hstep
      rw [hstderr, hprogram] at husage
      exact ⟨List.mem_cons_of_mem _ hhelp, husage⟩

theorem parseOperands_true {operands : List Text} (h : c.parseOperands operands = (true, c')) :
    operands = [c'.path] ∧
      c'.mode = if c.mode = .unspecified then .read else c.mode := by
  unfold CommandLine.parseOperands at h
  cases operands with
  | nil => cases h
  | cons path rest =>
    cases rest with
    | nil =>
      cases h
      refine ⟨rfl, ?_⟩
      dsimp only
      split_ifs <;> rfl
    | cons path' rest => cases h

/-- No options, no mode: it is the one of reading. -/
theorem askedMode_read :
    (if askedMode .unspecified options = .unspecified then .read
      else askedMode .unspecified options) = askedMode .read options := by
  unfold askedMode
  split_ifs <;> simp_all

/-- `Main`'s switch has a case for the mode. -/
theorem Decided.dispatch {operands : List Text} (h : Decided options operands c)
    (strerror : Option ℕ → Text) (stringMaxSize : ℕ) (junk : Ringfile) (disk : Text → Option File)
    (outcomes : ℕ → Outcome) (behind : ℕ → Buffer) (turns : ℕ) :
    ∃ finished,
      c.dispatch strerror stringMaxSize junk disk outcomes behind turns = some finished := by
  have hmode := h.mode
  unfold askedMode at hmode
  unfold CommandLine.dispatch
  -- the three modes that can have been asked for
  split_ifs at hmode
  all_goals
    rw [hmode]
    exact ⟨_, rfl⟩

end Parse

/-- What `Parse` accepts is either a plea for help, which it answers at once, or all that `Main`
needs: one mode at most was asked for, there is one file, and the switch assigns `ok`. -/
theorem parse_decides {c : CommandLine} {stdin stdout stderr program : Text}
    {options : List Delivered} {operands : List Text}
    (h : (CommandLine.construct stdin stdout stderr).parse program options operands = (true, c)) :
    (.help ∈ options ∧ c.stderr = stderr ++ usage program) ∨
    (Decided options operands c ∧ (c.path = [] → operands = [[]]) ∧
      ∀ strerror stringMaxSize junk disk outcomes behind turns,
        (∃ finished, c.dispatch strerror stringMaxSize junk disk outcomes behind turns =
          some finished) ∧
        (CommandLine.construct stdin stdout stderr).main strerror stringMaxSize program options
          operands junk disk outcomes behind turns ≠ .indeterminate) := by
  have hparse := h
  unfold CommandLine.parse at h
  cases hloop : ({ CommandLine.construct stdin stdout stderr with
      program := program } : CommandLine).parseOptions options with
  | returns ok c₁ =>
    rw [hloop] at h
    cases h
    -- the loop was left early, and with true
    exact Or.inl (parseOptions_returns hloop)
  | goesOn c₁ =>
    rw [hloop] at h
    obtain ⟨_, hmodes, hmode⟩ := parseOptions_goesOn hloop
    obtain ⟨hpath, hfinal⟩ := parseOperands_true h
    -- a new object has no mode
    have hcount : c₁.modes = 0+options.countP Delivered.isMode := hmodes
    have hasked : c₁.mode = askedMode .unspecified options := hmode
    rw [hasked, askedMode_read] at hfinal
    have hle := modes_le c₁
    have hdecided : Decided options operands c := ⟨by omega, hfinal, hpath⟩
    refine Or.inr ⟨hdecided, ?_, ?_⟩
    · intro hempty
      rw [hpath, hempty]
    · intro strerror stringMaxSize junk disk outcomes behind turns
      obtain ⟨finished, hfinished⟩ :=
        hdecided.dispatch strerror stringMaxSize junk disk outcomes behind turns
      refine ⟨⟨finished, hfinished⟩, ?_⟩
      unfold CommandLine.main
      rw [hparse]
      dsimp only
      rw [hfinished]
      cases finished <;> simp

theorem parse_decides_append :
    ∃ c, (CommandLine.construct [] [] []).parse (text "frob")
        [.verbose, .size (text "400m"), .append] [text "some_path"] = (true, c) ∧
      ((.help ∈ [Delivered.verbose, .size (text "400m"), .append] ∧
          c.stderr = [] ++ usage (text "frob")) ∨
        (Decided [.verbose, .size (text "400m"), .append] [text "some_path"] c ∧
          (c.path = [] → [text "some_path"] = [[]]) ∧
          ∀ strerror stringMaxSize junk disk outcomes behind turns,
            (∃ finished, c.dispatch strerror stringMaxSize junk disk outcomes behind turns =
              some finished) ∧
            (CommandLine.construct [] [] []).main strerror stringMaxSize (text "frob")
              [.verbose, .size (text "400m"), .append] [text "some_path"] junk disk outcomes behind
              turns ≠ .indeterminate)) := by
  have htrue : ((CommandLine.construct [] [] []).parse (text "frob")
      [.verbose, .size (text "400m"), .append] [text "some_path"]).1 = true := by decide +kernel
  exact ⟨_, Prod.ext htrue rfl, parse_decides (Prod.ext htrue rfl)⟩

/-- `--help` alone is accepted, with no mode and no file; and an empty operand is a file. -/
theorem help_decides_nothing :
    (∃ c, (CommandLine.construct [] [] []).parse (text "ringfile") [.help] [] = (true, c) ∧
      ¬Decided [.help] [] c ∧ c.mode = .unspecified ∧ c.path = [] ∧
      ∀ strerror stringMaxSize junk disk outcomes behind turns,
        c.dispatch strerror stringMaxSize junk disk outcomes behind turns = none) ∧
    ∃ c, (CommandLine.construct [] [] []).parse (text "ringfile") [] [[]] = (true, c) ∧
      c.path = [] ∧ c.mode = .read := by
  refine ⟨⟨_, rfl, ?_, rfl, rfl, fun _ _ _ _ _ _ _ => rfl⟩, _, rfl, rfl, rfl⟩
  intro hdecided
  -- no operand is there to be the path
  cases hdecided.path

end CircularLog
