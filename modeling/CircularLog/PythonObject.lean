import CircularLog.DumpCompleteness
import CircularLog.Histories

/-! The object of the Python module. Its methods ask for the end of the file before they ask for a
size, so a failure is never taken for the end. What the interpreter answers when a string is made is
a parameter. -/
namespace CircularLog

/-- What a method raises; `interpreter` is for the exceptions that are not its own. -/
inductive Raised (ε : Type)
  | ioError (errno : Option ℕ)
  | stopIteration
  | interpreter (e : ε)

/-- How a call that makes an object ends: there is an object now, an exception is raised and the
path names what it says, or the process stops. -/
inductive Made (ε : Type)
  | object (s : State)
  | raised (e : Raised ε) (path : Option File)
  | stopped (f : Fault)

/-- What a method returns or raises. -/
abbrev Answered (ε α : Type) := Except (Raised ε) α

section Methods
variable {ε : Type}

/-- `PyErr_SetObject(PyExc_IOError, …)` with `error()` as its argument. -/
def raiseIOError {α : Type} : Op (Answered ε α) := do
  return .error (.ioError (← get).self.error)

def Opening.made : Opening → Made ε
  | .opened s => .object s
  | .failed self path _ => .raised (.ioError self.error) path
  | .fault f => .stopped f

/-- `Ringfile_init`. -/
def Python.init (junk : Ringfile) (path : Option File) (mode : Mode) (outcomes : ℕ → Outcome) :
    Made ε := (openFile junk.construct path mode outcomes).made

/-- `Ringfile_create`; the size is an `int`. -/
def Python.create (junk : Ringfile) (path : Option File) (size : ℤ) (outcomes : ℕ → Outcome) :
    Made ε := (CircularLog.create junk.construct path (size%2^64).toNat outcomes).made

/-- `Ringfile_write`. The bytes of a Python string end with a zero. -/
def Python.write (r : Record) (behind : Buffer) : Op (Answered ε Unit) := do
  if !(← CircularLog.write (memory (r ++ [0]) behind) r.length) then
    raiseIOError
  else
    return .ok ()

/-- `Ringfile_read`, where `none` is `None`. `newString n` is what is raised when this call cannot
make a string of `n` bytes. -/
def Python.read (newString : ℕ → Option ε) : Op (Answered ε (Option Record)) := do
  if ← endOfFile then
    return .ok none
  match ← nextRecordSize with
  | none => raiseIOError
  | some recordSize =>
    match newString recordSize with
    | some e => return .error (.interpreter e)
    | none =>
      let (ok, buffer) ← CircularLog.read uninitialized recordSize
      if !ok then
        raiseIOError
      else
        return .ok (some (contents buffer recordSize))

/-- `Ringfile_iternext`. -/
def Python.iternext (newString : ℕ → Option ε) : Op (Answered ε Record) := do
  match ← Python.read newString with
  | .error e => return .error e
  | .ok none => return .error .stopIteration
  | .ok (some r) => return .ok r

/-- `Ringfile_close`. -/
def Python.close : Op (Answered ε Unit) := do
  let _ ← CircularLog.close
  return .ok ()

/-- `for record in ringfile`: the records, and the exception that ends the loop. The interpreter may
answer each turn in its own way. -/
def Python.iterate (newString : ℕ → ℕ → Option ε) : ℕ → Op (List Record × Raised ε)
  | 0 => throw .outOfFuel
  | turns+1 => do
    match ← Python.iternext (newString turns) with
    | .error e => return ([], e)
    | .ok r =>
      let (records, e) ← Python.iterate newString turns
      return (r :: records, e)

/-- `read` called `n` times, whatever it raises and whatever the interpreter answers each call. -/
def Python.reads (newString : ℕ → ℕ → Option ε) :
    ℕ → Op (List (Answered ε (Option Record)))
  | 0 => return []
  | n+1 => do
    let x ← Python.read (newString n)
    return x :: (← Python.reads newString n)

/-- `write` called for each record, whatever it raises, and then `close`. -/
def Python.appendAll (behind : Buffer) : List Record → Op (List (Answered ε Unit))
  | [] => do
    let _ ← (Python.close : Op (Answered ε Unit))
    return []
  | r :: W => do
    let x ← Python.write r behind
    return x :: (← Python.appendAll behind W)

/-- One object after the other, each made for appending to the file as the last one left it: what
all the calls of `write` answer, and the file then. -/
def Python.sessions (ε : Type) (junk : Ringfile) (behind : Buffer) :
    File → List (List Record) → Option (List (Answered ε Unit) × File)
  | f, [] => some ([], f)
  | f, W :: Ws =>
    match (Python.init junk (some f) .append allDone : Made ε) with
    | .object s =>
      match (Python.appendAll behind W : Op (List (Answered ε Unit))) s with
      | .ok xs t => (Python.sessions ε junk behind t.file Ws).map fun v => (xs ++ v.1, v.2)
      | .error _ _ => none
    | _ => none

/-- What a ring that holds `L` holds after `write` was called for `r`. -/
def taken (M : ℕ) (L : List Record) (r : Record) : List Record :=
  if frameSize r < M then afterWrite M L r else L

/-- What `write` answers for `r`: an `IOError` if its frame has no room in the ring. -/
def Answers (M : ℕ) (x : Answered ε Unit) (r : Record) : Prop :=
  if frameSize r < M then x = .ok () else ∃ errno, x = .error (.ioError errno)

/-- The records among the results of `read`. -/
def delivered (xs : List (Answered ε (Option Record))) : List Record :=
  xs.filterMap fun x =>
    match x with
    | .ok r => r
    | .error _ => none

end Methods

section PythonObject
variable {ε : Type} {newString : ℕ → ℕ → Option ε} {M : ℕ} {s : State} {f : File}
  {L U : List Record} {r : Record}

theorem endOfFile_unread (h : Unread M s U) :
    Sat endOfFile s (fun v t => (v = true ↔ U = []) ∧ t = s) := by
  rw [endOfFile, sat_bind, sat_get, sat_bind, sat_mappedHeader h.usable.header, sat_pure,
    beq_iff_eq, h.end_iff]
  exact ⟨Iff.rfl, rfl⟩

/-- One call of `read`: `None` at the end and only there, the next record, or an exception that
leaves the reader where it was. -/
theorem Python.read_spec {newString : ℕ → Option ε} (hM : 10 ≤ M) (h : Unread M s U)
    (hempty : [] ∈ U → newString 0 ≠ none) :
    Sat (Python.read newString) s (fun x t => t.file = s.file ∧
      ((x = .ok none ∧ U = [] ∧ Unread M t U) ∨
        (∃ e, x = .error e ∧ e ≠ .stopIteration ∧ U ≠ [] ∧ Unread M t U) ∨
        ∃ r U', x = .ok (some r) ∧ U = r :: U' ∧ Unread M t U') ∧
      (Ideal s → (∀ r ∈ U, newString r.length = none) → Ideal t ∧ ∀ e, x ≠ .error e)) := by
  apply (endOfFile_unread h).bind
  intro v t hspec
  obtain ⟨hv, rfl⟩ := hspec
  cases U with
  | nil =>
    rw [if_pos (hv.mpr rfl), sat_pure]
    exact ⟨rfl, Or.inl ⟨rfl, rfl, h⟩, fun hi _ => ⟨hi, by simp⟩⟩
  | cons r U =>
    rw [if_neg (fun hyes => by cases hv.mp hyes)]
    apply (nextRecordSize_spec hM h).bind
    intro size u hspec
    obtain ⟨hl, _, hu, hcases, hideal⟩ := hspec
    rcases hcases with rfl | rfl
    · -- the length was not read
      dsimp only
      rw [raiseIOError, sat_bind, sat_get, sat_pure]
      refine ⟨hl.file, Or.inr (Or.inl ⟨_, rfl, by simp, by simp, hu⟩), fun hi _ => ?_⟩
      cases hideal hi
    · dsimp only
      -- the interpreter may have no string of this length
      cases hstring : newString r.length with
      | some e =>
        rw [sat_pure]
        refine ⟨hl.file, Or.inr (Or.inl ⟨_, rfl, by simp, by simp, hu⟩), fun _ hnew => ?_⟩
        rw [hnew r List.mem_cons_self] at hstring
        cases hstring
      | none =>
        have hr : r ≠ [] := by
          rintro rfl
          exact hempty List.mem_cons_self hstring
        apply (CircularLog.read_spec hM hu hr uninitialized r.length).bind
        intro v w hspec
        obtain ⟨ok, buffer⟩ := v
        obtain ⟨hl', hread, _, hok⟩ := hspec
        have hfile := hl'.file.trans hl.file
        rcases hread with ⟨hno, _, hw⟩ | ⟨hyes, _, hw, _⟩
        · -- the record was not read, and the cursor stays
          dsimp only at hno
          subst hno
          dsimp only
          rw [if_pos (by simp), raiseIOError, sat_bind, sat_get, sat_pure]
          refine ⟨hfile, Or.inr (Or.inl ⟨_, rfl, by simp, by simp, hw⟩), fun hi _ => ?_⟩
          cases hok (hl.ideal hi) le_rfl
        · cases hyes
          dsimp only
          rw [if_neg (by simp), sat_pure, contents_overlay]
          exact ⟨hfile, Or.inr (Or.inr ⟨r, U, rfl, rfl, hw⟩),
            fun hi _ => ⟨hl'.ideal (hl.ideal hi), by simp⟩⟩

/-- The records come in order, and `StopIteration` ends the loop exactly when they are over. -/
theorem Python.iterate_spec (hM : 10 ≤ M) (h : Unread M s U)
    (hempty : [] ∈ U → ∀ i, newString i 0 ≠ none) {turns : ℕ} (hturns : U.length < turns) :
    Sat (Python.iterate newString turns) s (fun v t => t.file = s.file ∧ v.1 <+: U ∧
      (v.2 = .stopIteration ↔ v.1 = U) ∧
      (Ideal s → (∀ i, ∀ r ∈ U, newString i r.length = none) → v = (U, .stopIteration))) := by
  -- on the turns; each takes a record or is the last
  induction turns generalizing s U with
  | zero => omega
  | succ turns ih =>
    rw [Python.iterate, Python.iternext, sat_bind, sat_bind]
    refine (Python.read_spec hM h (fun hm => hempty hm turns)).mono ?_
    intro x t hspec
    obtain ⟨hf, hcases, hideal⟩ := hspec
    -- the end, an exception that is not the end, or a record
    rcases hcases with ⟨rfl, rfl, ht⟩ | ⟨e, rfl, he, hU, ht⟩ | ⟨r, U', rfl, rfl, ht⟩
    · dsimp only
      rw [sat_pure]
      dsimp only
      rw [sat_pure]
      exact ⟨hf, List.prefix_rfl, by simp, fun _ _ => rfl⟩
    · dsimp only
      rw [sat_pure]
      dsimp only
      rw [sat_pure]
      refine ⟨hf, List.nil_prefix, ?_, fun hi hnew => absurd rfl ((hideal hi (hnew turns)).2 e)⟩
      exact iff_of_false he (fun hnil => hU hnil.symm)
    · dsimp only
      rw [sat_pure]
      dsimp only
      rw [List.length_cons] at hturns
      apply (ih ht (fun hm => hempty (List.mem_cons_of_mem r hm)) (by omega)).bind
      intro v u hspec
      obtain ⟨records, e⟩ := v
      obtain ⟨hfu, hprefix, hstop, hall⟩ := hspec
      rw [sat_pure]
      refine ⟨hfu.trans hf, List.cons_prefix_cons.mpr ⟨rfl, hprefix⟩, ?_, fun hi hnew => ?_⟩
      · rw [hstop, List.cons.injEq]
        exact (and_iff_right rfl).symm
      · have hrest := hall (hideal hi (hnew turns)).1
          (fun i q hq => hnew i q (List.mem_cons_of_mem r hq))
        cases hrest
        rfl

theorem delivered_cons (x : Answered ε (Option Record)) (xs : List (Answered ε (Option Record))) :
    delivered (x :: xs) = delivered [x] ++ delivered xs := by
  rw [delivered, delivered, delivered, ← List.filterMap_append, List.singleton_append]

theorem Python.reads_spec (hM : 10 ≤ M) (h : Unread M s U)
    (hempty : [] ∈ U → ∀ i, newString i 0 ≠ none) (n : ℕ) :
    Sat (Python.reads newString n) s (fun xs t => t.file = s.file ∧ delivered xs <+: U ∧
      ∀ A x B, xs = A ++ x :: B → (x = .ok none ↔ delivered A = U)) := by
  -- on the calls, with what is unread before the first of them
  induction n generalizing s U with
  | zero => exact sat_pure.mpr ⟨rfl, List.nil_prefix, by simp⟩
  | succ n ih =>
    rw [Python.reads]
    apply (Python.read_spec hM h (fun hm => hempty hm n)).bind
    intro x t hspec
    obtain ⟨hf, hcases, _⟩ := hspec
    -- a call takes what it delivers off the front, and nothing when it raises
    obtain ⟨U', hU, hend, ht⟩ : ∃ U', U = delivered [x] ++ U' ∧ (x = .ok none ↔ U = []) ∧
        Unread M t U' := by
      rcases hcases with ⟨rfl, rfl, ht⟩ | ⟨e, rfl, _, hne, ht⟩ | ⟨r, U', rfl, rfl, ht⟩
      · exact ⟨[], rfl, by simp, ht⟩
      · exact ⟨U, rfl, iff_of_false (by simp) hne, ht⟩
      · exact ⟨U', rfl, by simp, ht⟩
    subst hU
    apply (ih ht (fun hm => hempty (List.mem_append_right _ hm))).bind
    intro xs u hspec
    obtain ⟨hfu, hprefix, hlater⟩ := hspec
    rw [sat_pure]
    refine ⟨hfu.trans hf, ?_, ?_⟩
    · rw [delivered_cons]
      exact (List.prefix_append_right_inj _).mpr hprefix
    · intro A y B hsplit
      cases A with
      | nil =>
        cases hsplit
        rw [hend]
        exact eq_comm
      | cons z A =>
        cases hsplit
        rw [delivered_cons, List.append_cancel_left_eq]
        exact hlater A y B rfl

theorem Python.init_opened {mode : Mode} {junk : Ringfile} {outcomes : ℕ → Outcome}
    (hs : (Python.init junk (some f) mode outcomes : Made ε) = .object s) :
    openFile junk.construct (some f) mode outcomes = .opened s := by
  rw [Python.init] at hs
  cases hopening : openFile junk.construct (some f) mode outcomes with
  | opened t =>
    rw [hopening] at hs
    cases hs
    rfl
  | failed self path later =>
    rw [hopening] at hs
    cases hs
  | fault e =>
    rw [hopening] at hs
    cases hs

theorem Python.init_unread (hl : Layout M f L) (hlen : f.length = M+24) (hb : M+24 < 2^63)
    {junk : Ringfile} {outcomes : ℕ → Outcome}
    (hs : (Python.init junk (some f) .read outcomes : Made ε) = .object s) :
    Unread M s L ∧ s.file = f ∧ (outcomes = allDone → Ideal s) := by
  obtain ⟨_, _, rfl⟩ := openFile_opened (Python.init_opened hs)
  refine ⟨⟨⟨by simp [openedState], by simp [openedState], hlen, hlen, hb⟩, hl⟩, rfl, ?_⟩
  rintro rfl
  exact fun _ => rfl

theorem taken_nonempty (hL : ∀ q ∈ L, q ≠ []) (hr : r ≠ []) : ∀ q ∈ taken M L r, q ≠ [] := by
  unfold taken
  split_ifs
  · exact afterWrite_nonempty M hL hr
  · exact hL

/-- What is written is what the answers say. -/
theorem Python.appendAll_spec (ε : Type) (hM : 10 ≤ M) (behind : Buffer) {W : List Record}
    (h : Ready M s L) (hL : ∀ q ∈ L, q ≠ []) (hW : ∀ r ∈ W, r ≠ [] ∧ r.length < 2^63) :
    Sat (Python.appendAll behind W : Op (List (Answered ε Unit))) s (fun xs t =>
      List.Forall₂ (Answers M) xs W ∧
      WellFormed M t.file (W.foldl (taken M) L)) := by
  -- on the records, with what the ring holds before each of them
  induction W generalizing s L with
  | nil =>
    rw [Python.appendAll, Python.close, CircularLog.close, sat_bind, sat_bind, sat_bind, sat_modify,
      sat_pure, sat_pure, sat_pure]
    -- `Close` does nothing to the file
    exact ⟨.nil, h.wellFormed hL⟩
  | cons r W ih =>
    obtain ⟨hne, hlen⟩ := hW r List.mem_cons_self
    rw [Python.appendAll, Python.write, memory_append, sat_bind, sat_bind]
    refine (write_ready h hM _ hne hlen).mono ?_
    intro ok t hspec
    have htaken : Ready M t (taken M L r) ∧ (ok = true ↔ frameSize r < M) := by
      unfold taken
      cases hspec.1 with
      | refused hbig =>
        rw [if_neg (Nat.not_lt.mpr hbig)]
        exact ⟨h, iff_of_false (by simp) (Nat.not_lt.mpr hbig)⟩
      | written hsmall _ _ _ ht =>
        rw [if_pos hsmall]
        exact ⟨ht, iff_of_true rfl hsmall⟩
    obtain ⟨ht, hok⟩ := htaken
    have hrest := ih ht (taken_nonempty hL hne) (fun q hq => hW q (List.mem_cons_of_mem r hq))
    cases ok with
    | false =>
      -- the frame is as long as the area, or longer
      have hbig : ¬frameSize r < M := fun hsmall => Bool.false_ne_true (hok.mpr hsmall)
      rw [if_pos (by simp), raiseIOError, sat_bind, sat_get, sat_pure]
      apply hrest.bind
      intro xs u hspec
      refine sat_pure.mpr ⟨.cons ?_ hspec.1, hspec.2⟩
      rw [Answers, if_neg hbig]
      exact ⟨_, rfl⟩
    | true =>
      rw [if_neg (by simp), sat_pure]
      apply hrest.bind
      intro xs u hspec
      refine sat_pure.mpr ⟨.cons ?_ hspec.1, hspec.2⟩
      rw [Answers, if_pos (hok.mp rfl)]

theorem Python.sessions_spec (ε : Type) (hM : 10 ≤ M) (junk : Ringfile) (behind : Buffer)
    {Ws : List (List Record)} (h : WellFormed M f L)
    (hWs : ∀ r ∈ Ws.flatten, r ≠ [] ∧ r.length < 2^63) :
    ∃ xs g, Python.sessions ε junk behind f Ws = some (xs, g) ∧
      List.Forall₂ (Answers M) xs Ws.flatten ∧ WellFormed M g (Ws.flatten.foldl (taken M) L) := by
  -- on the sessions; each begins with the file of the one before
  induction Ws generalizing f L with
  | nil => exact ⟨[], f, rfl, .nil, h⟩
  | cons W Ws ih =>
    rw [List.flatten_cons] at hWs
    obtain ⟨s, hs, hf, hready⟩ := h.open_ready junk
    have hinit : (Python.init junk (some f) .append allDone : Made ε) = .object s := by
      rw [Python.init, hs]
      rfl
    obtain ⟨xs, t, hrun, hxs, hwell⟩ := Python.appendAll_spec ε hM behind hready h.nonempty
      (fun r hr => hWs r (List.mem_append_left _ hr))
    obtain ⟨ys, g, hg, hys, hgwell⟩ := ih hwell (fun r hr => hWs r (List.mem_append_right _ hr))
    refine ⟨xs ++ ys, g, ?_, ?_, ?_⟩
    · rw [Python.sessions, hinit]
      dsimp only
      rw [hrun]
      dsimp only
      rw [hg, Option.map_some]
    · rw [List.flatten_cons]
      exact List.rel_append hxs hys
    · rwa [List.flatten_cons, List.foldl_append]

end PythonObject

/-- Iterating over an object that reads a ring, whatever the system and the interpreter answer: the
records come in their order from the first on, the iteration stops when they are over, and in no
other case does it stop without an exception. -/
theorem python_iteration_honest {ε : Type} (newString : ℕ → ℕ → Option ε) {M : ℕ} (hM : 10 ≤ M)
    {f : File} {L : List Record} (hl : Layout M f L) (hlen : f.length = M+24) (hb : M+24 < 2^63)
    (hempty : [] ∈ L → ∀ i, newString i 0 ≠ none) {junk : Ringfile} {outcomes : ℕ → Outcome}
    {s : State} (hs : (Python.init junk (some f) .read outcomes : Made ε) = .object s) {turns : ℕ}
    (hturns : L.length < turns) :
    Sat (Python.iterate newString turns) s (fun v t => t.file = f ∧ v.1 <+: L ∧
      (v.2 = .stopIteration ↔ v.1 = L) ∧
      (outcomes = allDone → (∀ i, ∀ r ∈ L, newString i r.length = none) →
        v = (L, .stopIteration))) := by
  obtain ⟨hu, rfl, hi⟩ := Python.init_unread hl hlen hb hs
  refine (Python.iterate_spec hM hu hempty hturns).mono ?_
  intro v t hspec
  obtain ⟨hf, hprefix, hstop, hall⟩ := hspec
  exact ⟨hf, hprefix, hstop, fun hdone => hall (hi hdone)⟩

/-- However often `read` is called and whatever it raises in between: each record is returned once
and in its order, and `None` is returned exactly when all of them have been. -/
theorem python_reads_once {ε : Type} (newString : ℕ → ℕ → Option ε) {M : ℕ} (hM : 10 ≤ M)
    {f : File} {L : List Record} (hl : Layout M f L) (hlen : f.length = M+24) (hb : M+24 < 2^63)
    (hempty : [] ∈ L → ∀ i, newString i 0 ≠ none) {junk : Ringfile} {outcomes : ℕ → Outcome}
    {s : State} (hs : (Python.init junk (some f) .read outcomes : Made ε) = .object s) (n : ℕ) :
    Sat (Python.reads newString n) s (fun xs t => t.file = f ∧ delivered xs <+: L ∧
      ∀ A x B, xs = A ++ x :: B → (x = .ok none ↔ delivered A = L)) := by
  obtain ⟨hu, rfl, _⟩ := Python.init_unread hl hlen hb hs
  exact Python.reads_spec hM hu hempty n

/-- A ring of 26 bytes whose first record goes over the end of the area. -/
def wrappedRing : File := File.holding 26 20 [[1, 2, 3], [4]]

theorem wrappedRing_wellFormed : WellFormed 26 wrappedRing [[1, 2, 3], [4]] :=
  wellFormed_holding (by norm_num) (by decide +kernel) (by norm_num) (by decide)

theorem python_iteration_honest_two :
    ∃ s, (Python.init blank (some wrappedRing) .read allDone : Made Unit) = .object s ∧
      Sat (Python.iterate (fun _ _ => (none : Option Unit)) 3) s (fun v t =>
        t.file = wrappedRing ∧ v.1 <+: [[1, 2, 3], [4]] ∧
        (v.2 = .stopIteration ↔ v.1 = [[1, 2, 3], [4]]) ∧
        (allDone = allDone →
          (∀ _ : ℕ, ∀ r ∈ ([[1, 2, 3], [4]] : List Record), (none : Option Unit) = none) →
          v = ([[1, 2, 3], [4]], .stopIteration))) := by
  have hw := wrappedRing_wellFormed
  obtain ⟨s, hs⟩ : ∃ s, (Python.init blank (some wrappedRing) .read allDone : Made Unit) =
    .object s := ⟨_, rfl⟩
  exact ⟨s, hs, python_iteration_honest (fun _ _ => none) (by norm_num) hw.layout hw.length hw.bound
    (fun hempty => absurd rfl (hw.nonempty [] hempty)) hs (by norm_num)⟩

/-- A `read` of the first call fails, the second call has no memory for a string of three bytes, and
the third one makes up for both. -/
theorem python_reads_once_retry :
    ∃ s, (Python.init blank (some wrappedRing) .read (oneFailure 10 5) : Made Unit) = .object s ∧
      Sat (Python.reads (fun i _ => if i = 3 then some () else none) 5) s (fun xs t =>
        t.file = wrappedRing ∧ delivered xs <+: [[1, 2, 3], [4]] ∧
        ∀ A x B, xs = A ++ x :: B → (x = .ok none ↔ delivered A = [[1, 2, 3], [4]])) := by
  have hw := wrappedRing_wellFormed
  obtain ⟨s, hs⟩ : ∃ s, (Python.init blank (some wrappedRing) .read (oneFailure 10 5) : Made Unit) =
    .object s := ⟨_, rfl⟩
  exact ⟨s, hs, python_reads_once _ (by norm_num) hw.layout hw.length hw.bound
    (fun hempty => absurd rfl (hw.nonempty [] hempty)) hs 5⟩

end CircularLog
