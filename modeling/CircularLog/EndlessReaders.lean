import CircularLog.FileFormat
import CircularLog.MendedRuns
import CircularLog.PythonObject

/-! What readers make of an end offset that was left unreduced. Their cursors stay inside the area
and never meet it: behind the last record they go on, and take for records what old bytes lie there.
-/
namespace CircularLog

/-- A reader with its cursor inside the area of `g`. -/
structure Roaming (M : ℕ) (g : File) (s : State) : Prop where
  usable : Usable M s
  file : s.file = g
  cursor_lt : s.self.readOffset < M

/-- The records `U` lie ahead of a reader of `g`, whose data are those of `f`, and no call fails. -/
structure Facing (M : ℕ) (f g : File) (U : List Record) (s : State) : Prop where
  usable : Usable M s
  ideal : Ideal s
  file : s.file = g
  data : g.data = f.data
  layout : Layout M (f.withStart s.self.readOffset) U

section Roaming
variable {M : ℕ} {f g : File} {s : State}

theorem roaming_indifferent (M : ℕ) (g : File) : Indifferent (Roaming M g) where
  called := fun _ _ h => ⟨h.usable.congr rfl rfl rfl rfl, h.file, h.cursor_lt⟩
  assigned := by
    intro s self h hfd hheader hsize hcursor
    refine ⟨h.usable.congr hfd hheader hsize rfl, h.file, ?_⟩
    dsimp only
    rw [hcursor]
    exact h.cursor_lt

/-- A cursor that moves is reduced. -/
theorem read_roaming (hM : 0 < M) (buffer : Buffer) (bufferSize : ℕ) :
    Maintains (Roaming M g) (read buffer bufferSize) := by
  apply read_maintains_of (roaming_indifferent M g)
  intro a v s h
  apply Sat.ends
  rw [sat_bind, sat_bytesMax h.usable, sat_bind, sat_modulo hM, sat_bind, setReadOffset, sat_modify,
    sat_pure]
  exact ⟨h.usable.congr rfl rfl rfl rfl, h.file, Nat.mod_lt a hM⟩

variable (hend : M ≤ g.header.endOffset)
include hend

theorem Roaming.not_end (h : Roaming M g s) : s.self.readOffset ≠ s.file.header.endOffset := by
  have hlt := h.cursor_lt
  rw [h.file]
  omega

theorem Roaming.endOfFile_run (h : Roaming M g s) : endOfFile s = .ok false s := by
  apply run_of_sat
  rw [endOfFile, sat_bind, sat_get, sat_bind, sat_mappedHeader h.usable.header, sat_pure]
  exact ⟨beq_eq_false_iff_ne.mpr (h.not_end hend), rfl⟩

variable {ε : Type} {newString : ℕ → ℕ → Option ε}

/-- `None` stands for the end of the file, which `read` does not see. -/
theorem Python.read_roaming {newString : ℕ → Option ε} (hM : 0 < M) (h : Roaming M g s) :
    Ends (Python.read newString) s
      (fun x t => Roaming M g t ∧ x ≠ .ok none ∧ x ≠ .error .stopIteration)
      (fun _ _ => True) := by
  have hraise {t : State} (ht : Roaming M g t) :
      Ends (raiseIOError : Op (Answered ε (Option Record))) t
        (fun x t => Roaming M g t ∧ x ≠ .ok none ∧ x ≠ .error .stopIteration)
        (fun _ _ => True) := by
    rw [raiseIOError, ends_of_run (get_run t)]
    exact ends_pure.mpr ⟨ht, by simp, by simp⟩
  rw [Python.read, ends_of_run (h.endOfFile_run hend), if_neg Bool.false_ne_true]
  apply ((nextRecordSize_maintains (roaming_indifferent M g) s h).mono (fun _ _ ht => ht)
    (fun _ _ _ => trivial)).bind
  intro size t ht
  cases size with
  | none => exact hraise ht
  | some n =>
    dsimp only
    cases newString n with
    | some e => exact ends_pure.mpr ⟨ht, by simp, by simp⟩
    | none =>
      apply ((CircularLog.read_roaming hM _ n t ht).mono (fun _ _ hu => hu)
        (fun _ _ _ => trivial)).bind
      intro v u hu
      rw [ends_ite]
      exact ⟨fun _ => hraise hu, fun _ => ends_pure.mpr ⟨hu, by simp, by simp⟩⟩

/-- Iterating over the object does not come to its end. -/
theorem Python.iterate_roaming (hM : 0 < M) (turns : ℕ) (h : Roaming M g s) :
    Ends (Python.iterate newString turns) s
      (fun v t => t.file = g ∧ v.2 ≠ .stopIteration) (fun _ _ => True) := by
  -- on the turns
  induction turns generalizing s with
  | zero => exact ends_throw.mpr trivial
  | succ turns ih =>
    rw [Python.iterate, Python.iternext]
    refine Ends.bind (R := fun x t => Roaming M g t ∧ x ≠ .error .stopIteration) ?_ ?_
    · apply (Python.read_roaming hend hM h).bind
      intro x t hspec
      obtain ⟨ht, hnone, hstop⟩ := hspec
      cases x with
      | error e => exact ends_pure.mpr ⟨ht, fun he => hstop (by cases he; rfl)⟩
      | ok r =>
        cases r with
        | none => exact absurd rfl hnone
        | some r => exact ends_pure.mpr ⟨ht, by simp⟩
    · intro x t hspec
      obtain ⟨ht, hx⟩ := hspec
      cases x with
      | error e => exact ends_pure.mpr ⟨ht.file, fun he => hx (congrArg _ he)⟩
      | ok r =>
        apply (ih ht).bind
        intro v u hspec
        exact ends_pure.mpr hspec

/-- While no call fails, `NextRecordSize` does not return false. -/
theorem nextRecordSize_roaming (hM : 10 ≤ M) (h : Roaming M g s) (hi : Ideal s) :
    Ends nextRecordSize s (fun v t => v ≠ none ∧ Roaming M g t ∧ Ideal t ∧
      ∃ d, Varint.read (window M t.file t.self.readOffset) = some d) (fun _ _ => True) := by
  have hne := h.not_end hend
  cases hd : Varint.read (window M s.file s.self.readOffset) with
  | none =>
    -- no length can be decoded, and the run stops
    obtain ⟨t, ht⟩ := nextRecordSize_undecoded h.usable hi hM hne hd
    constructor
    · intro v u hu
      rw [ht] at hu
      cases hu
    · exact fun _ _ _ => trivial
  | some d =>
    apply Sat.ends
    refine (nextRecordSize_decoded h.usable hi hM hne hd).mono ?_
    intro v t hspec
    obtain ⟨rfl, hm, hf⟩ := hspec
    have hcursor : t.self.readOffset = s.self.readOffset := by rw [hm.self]
    refine ⟨by simp, ⟨hm.usable h.usable, hf.trans h.file, ?_⟩, hm.ideal hi, d, ?_⟩
    · rw [hcursor]
      exact h.cursor_lt
    · rw [hf, hcursor]
      exact hd

/-- If the loop of `Command::Read` ends, it is because `Read` failed. -/
theorem readLoop_roaming (stringMaxSize : ℕ) (hM : 10 ≤ M) (turns : ℕ) (h : Roaming M g s)
    (hi : Ideal s) :
    Ends (readLoop stringMaxSize turns) s (fun v _ => v.2 = false) (fun _ _ => True) := by
  -- on the turns
  induction turns generalizing s with
  | zero => exact ends_throw.mpr trivial
  | succ turns ih =>
    rw [readLoop]
    apply (nextRecordSize_roaming hend hM h hi).bind
    intro size t hspec
    obtain ⟨hsize, ht, hit, d, hd⟩ := hspec
    cases size with
    | none => exact absurd rfl hsize
    | some n =>
      dsimp only
      rw [ends_ite]
      refine ⟨fun _ => ends_throw_bind.mpr trivial, fun _ => ?_⟩
      have hread := (read_decoded ht.usable hit hM hd (fun _ => 0) n).ends (fun _ _ => True)
      have hroams := CircularLog.read_roaming (by omega) (fun _ => 0) n t ht
      apply ((hread.and hroams).mono (fun _ _ hq => hq) (fun _ _ _ => trivial)).bind
      intro v u hspec
      obtain ⟨⟨_, _, hiu, _⟩, hu⟩ := hspec
      rw [ends_ite]
      refine ⟨fun _ => ends_pure.mpr rfl, fun _ => ?_⟩
      apply (ih hu hiu).bind
      intro w _ hw
      exact ends_pure.mpr hw

end Roaming

section Facing
variable {M : ℕ} {f g : File} {s : State} {r : Record} {U : List Record}

theorem Facing.roaming (h : Facing M f g U s) : Roaming M g s :=
  ⟨h.usable, h.file, h.layout.start_lt⟩

theorem Facing.decodes (h : Facing M f g (r :: U) s) :
    Varint.read (window M s.file s.self.readOffset) = some (Varint.size r.length, r.length) := by
  have hb := h.usable.bound
  have hread := h.layout.head.1.decodes (h.layout.record_lt (by omega))
  rw [h.file]
  unfold window
  rw [h.data]
  exact hread

/-- The length of the record ahead is found. -/
theorem nextRecordSize_facing (hM : 10 ≤ M) (hend : M ≤ g.header.endOffset)
    (h : Facing M f g (r :: U) s) :
    Sat nextRecordSize s (fun v t => v = some r.length ∧ Facing M f g (r :: U) t) := by
  refine (nextRecordSize_decoded h.usable h.ideal hM (h.roaming.not_end hend) h.decodes).mono ?_
  intro v t hspec
  obtain ⟨rfl, hm, hf⟩ := hspec
  have hcursor : t.self.readOffset = s.self.readOffset := by rw [hm.self]
  refine ⟨rfl, hm.usable h.usable, hm.ideal h.ideal, hf.trans h.file, h.data, ?_⟩
  rw [hcursor]
  exact h.layout

/-- And so is the record. -/
theorem read_facing (hM : 10 ≤ M) (h : Facing M f g (r :: U) s) (hr : r ≠ []) (buffer : Buffer) :
    Sat (read buffer r.length) s (fun v t => v.1 = true ∧ contents v.2 r.length = r ∧
      Facing M f g U t) := by
  have hb := h.usable.bound
  have hs := h.layout.start_lt
  have hfits := h.layout.fits
  have hsize : frameSize r = Varint.size r.length+r.length := rfl
  rw [used_cons] at hfits
  dsimp only [File.withStart] at hs
  have hd := h.decodes
  rw [h.file] at hd
  have hbytes := h.layout.head.2
  dsimp only [File.withStart, Stored] at hbytes
  rw [← h.data] at hbytes
  refine (read_whole_decoded hM ⟨h.usable, h.ideal, h.file, rfl⟩ (by omega) hd (by omega) hr hbytes
    buffer).mono ?_
  intro v t hspec
  obtain ⟨hok, hcontents, ht⟩ := hspec
  refine ⟨hok, hcontents, ht.usable, ht.ideal, ht.file, h.data, ?_⟩
  have hrest := Layout.withStart (P := [r]) (K := U) h.layout
  rw [used_cons, used_nil, Nat.add_zero] at hrest
  rw [ht.cursor]
  exact hrest

/-- The loop of `Command::Read` prints what is ahead first. -/
theorem readLoop_facing (stringMaxSize : ℕ) (hM : 10 ≤ M) (hend : M ≤ g.header.endOffset)
    (turns : ℕ) (h : Facing M f g U s) (hU : ∀ r ∈ U, r ≠ []) :
    Ends (readLoop stringMaxSize turns) s (fun v _ => U <+: v.1) (fun _ _ => True) := by
  -- on the turns; each takes one of the records ahead
  induction turns generalizing s U with
  | zero => exact ends_throw.mpr trivial
  | succ turns ih =>
    cases U with
    | nil => exact ⟨fun _ _ _ => List.nil_prefix, fun _ _ _ => trivial⟩
    | cons r U =>
      rw [readLoop]
      apply (nextRecordSize_facing hM hend h).ends_bind
      intro size t hspec
      obtain ⟨rfl, ht⟩ := hspec
      dsimp only
      rw [ends_ite]
      refine ⟨fun _ => ends_throw_bind.mpr trivial, fun _ => ?_⟩
      apply (read_facing hM ht (hU r List.mem_cons_self) _).ends_bind
      intro v u hspec
      obtain ⟨hok, hcontents, hu⟩ := hspec
      rw [ends_ite]
      refine ⟨fun hno => absurd hok (by simpa using hno), fun _ => ?_⟩
      apply (ih hu (fun q hq => hU q (List.mem_cons_of_mem r hq))).bind
      intro w _ hw
      rw [ends_pure, hcontents]
      exact List.cons_prefix_cons.mpr ⟨rfl, hw⟩

theorem Python.iterate_facing {ε : Type} {newString : ℕ → ℕ → Option ε} (hM : 10 ≤ M)
    (hend : M ≤ g.header.endOffset) (turns : ℕ) (h : Facing M f g U s) (hU : ∀ r ∈ U, r ≠ [])
    (hnew : ∀ i, ∀ r ∈ U, newString i r.length = none) :
    Ends (Python.iterate newString turns) s (fun v _ => U <+: v.1) (fun _ _ => True) := by
  -- on the turns, as for the tool
  induction turns generalizing s U with
  | zero => exact ends_throw.mpr trivial
  | succ turns ih =>
    cases U with
    | nil => exact ⟨fun _ _ _ => List.nil_prefix, fun _ _ _ => trivial⟩
    | cons r U =>
      have hnext : Sat (Python.iternext (newString turns)) s
          (fun x t => x = .ok r ∧ Facing M f g U t) := by
        rw [Python.iternext, Python.read, sat_bind, sat_bind,
          sat_of_run (h.roaming.endOfFile_run hend), if_neg Bool.false_ne_true]
        apply (nextRecordSize_facing hM hend h).bind
        intro size t hspec
        obtain ⟨rfl, ht⟩ := hspec
        dsimp only
        rw [hnew turns r List.mem_cons_self]
        apply (read_facing hM ht (hU r List.mem_cons_self) _).bind
        intro v u hspec
        obtain ⟨hok, hcontents, hu⟩ := hspec
        rw [if_neg (by simp [hok]), sat_pure]
        dsimp only
        rw [sat_pure, hcontents]
        exact ⟨rfl, hu⟩
      rw [Python.iterate]
      apply hnext.ends_bind
      intro x t hspec
      obtain ⟨rfl, ht⟩ := hspec
      apply (ih ht (fun q hq => hU q (List.mem_cons_of_mem r hq))
        (fun i q hq => hnew i q (List.mem_cons_of_mem r hq))).bind
      intro v _ hv
      exact ends_pure.mpr (List.cons_prefix_cons.mpr ⟨rfl, hv⟩)

end Facing

/-- A ring of ten bytes whose record goes over the end of the area, with the end offset as the first
store leaves it. -/
def tornRing : File := (File.holding 10 6 [[1, 2, 3, 4, 5]]).withEnd 12

end CircularLog
