import CircularLog.Histories

/-! One process appends while another reads. They share the file; each has its own handle, and
nothing tells the writer where the reader stands. -/
namespace CircularLog

/-- Both processes. Each of them holds the file as it is. -/
structure Shared where
  writer : State
  reader : State

abbrev SharedOp := EStateM Fault Shared

/-- An operation of the writer, after which the reader sees the new file. -/
def asWriter (x : Op α) : SharedOp α := fun σ =>
  match x σ.writer with
  | .ok a t => .ok a ⟨t, { σ.reader with file := t.file }⟩
  | .error e t => .error e ⟨t, { σ.reader with file := t.file }⟩

/-- An operation of the reader. -/
def asReader (x : Op α) : SharedOp α := fun σ =>
  match x σ.reader with
  | .ok a t => .ok a ⟨{ σ.writer with file := t.file }, t⟩
  | .error e t => .error e ⟨{ σ.writer with file := t.file }, t⟩

/-- `NextRecordSize` and, if it succeeds, `Read` with a buffer of the size reported. -/
def poll : Op (List Record) := do
  match ← nextRecordSize with
  | none => return []
  | some size =>
    let (ok, buffer) ← read (fun _ => 0) size
    if !ok then
      return []
    return [contents buffer size]

inductive SharedStep
  | write (r : Record) (behind : Buffer)
  | poll

/-- Carry out a step: the records written and the records returned by it. -/
def SharedStep.run : SharedStep → SharedOp (List Record × List Record)
  | .write r behind => do
    if ← asWriter (CircularLog.write (memory r behind) r.length) then
      return ([r], [])
    else
      return ([], [])
  | .poll => do
    return ([], ← asReader CircularLog.poll)

def runShared : List SharedStep → SharedOp (List Record × List Record)
  | [] => return ([], [])
  | x :: xs => do
    let (written, returned) ← x.run
    let (written', returned') ← runShared xs
    return (written ++ written', returned ++ returned')

def SharedStep.Valid : SharedStep → Prop
  | .write r _ => r ≠ [] ∧ r.length < 2^63
  | .poll => True

/-- The frame of an accepted write does not run past the cursor of the reader: it fits in the area
together with what lies between the cursor and the end. -/
def SharedStep.Behind (M : ℕ) (σ : Shared) : SharedStep → Prop
  | .write r _ => frameSize r < M →
    (σ.writer.file.header.endOffset+(M-σ.reader.self.readOffset))%M+frameSize r ≤ M
  | .poll => True

instance (M : ℕ) (σ : Shared) (x : SharedStep) : Decidable (x.Behind M σ) :=
  match x with
  | .write _ _ => inferInstanceAs (Decidable (_ → _))
  | .poll => isTrue trivial

/-- No write of the run laps the reader. -/
def Unlapped (M : ℕ) : List SharedStep → Shared → Prop
  | [], _ => True
  | x :: xs, σ => x.Behind M σ ∧ ∀ a τ, x.run σ = .ok a τ → Unlapped M xs τ

instance decidableUnlapped (M : ℕ) :
    (xs : List SharedStep) → (σ : Shared) → Decidable (Unlapped M xs σ)
  | [], _ => isTrue trivial
  | x :: xs, σ =>
    have : Decidable (∀ a τ, x.run σ = .ok a τ → Unlapped M xs τ) :=
      match hx : x.run σ with
      | .ok _ τ =>
        have := decidableUnlapped M xs τ
        decidable_of_iff (Unlapped M xs τ) (by simp)
      | .error _ _ => isTrue (by simp)
    inferInstanceAs (Decidable (_ ∧ _))

/-- The reader stands on a record boundary, and what it has returned (`R`) and will return are among
the records written (`V`), in order. -/
structure Follows (M : ℕ) (σ : Shared) (V R : List Record) : Prop where
  writer : ∃ L, Ready M σ.writer L
  reader : ∃ U, Unread M σ.reader U ∧ (∀ r ∈ U, r ≠ []) ∧ (R ++ U).Sublist V
  ideal : Ideal σ.reader
  file : σ.reader.file = σ.writer.file

section SharedReader
variable {α : Type} {M : ℕ} {σ : Shared} {V R : List Record}

theorem sat_asWriter {x : Op α} {Q : α → Shared → Prop} :
    Sat (asWriter x) σ Q ↔
      Sat x σ.writer (fun a t => Q a ⟨t, { σ.reader with file := t.file }⟩) := by
  unfold Sat asWriter
  cases hx : x σ.writer with
  | ok a t => simp
  | error e t => simp

theorem sat_asReader {x : Op α} {Q : α → Shared → Prop} :
    Sat (asReader x) σ Q ↔
      Sat x σ.reader (fun a t => Q a ⟨{ σ.writer with file := t.file }, t⟩) := by
  unfold Sat asReader
  cases hx : x σ.reader with
  | ok a t => simp
  | error e t => simp

theorem poll_spec {s : State} {U : List Record} (hM : 10 ≤ M) (h : Unread M s U)
    (hU : ∀ r ∈ U, r ≠ []) (hi : Ideal s) :
    Sat poll s (fun g t => Looked s t ∧ ∃ U', U = g ++ U' ∧ Unread M t U') := by
  cases U with
  | nil =>
    apply (nextRecordSize_none h).bind
    intro v t hnone
    rw [hnone.1, hnone.2, sat_pure]
    exact ⟨⟨rfl, id⟩, [], rfl, h⟩
  | cons r U =>
    apply (nextRecordSize_spec hM h).bind
    intro v t hsize
    obtain ⟨hl, _, hu, _, hv⟩ := hsize
    rw [hv hi]
    dsimp only
    have hreadable : Readable M t.self.readOffset r := Or.inl (hU r List.mem_cons_self)
    apply (read_whole hM hu (hl.ideal hi) hreadable _).bind
    intro v u hread
    obtain ⟨ok, buffer⟩ := v
    obtain ⟨hok, hcontents, hl', hu', _⟩ := hread
    rw [sat_unless]
    refine ⟨fun hno => absurd hok (ne_true_of_eq_false hno), fun _ => ?_⟩
    rw [sat_pure, hcontents]
    exact ⟨hl.trans hl', U, rfl, hu'⟩

/-- A write that stays behind the reader's cursor adds to what the reader will see, or hides it all
when it fills the area to the last byte. -/
theorem SharedStep.write_spec (hM : 10 ≤ M) (h : Follows M σ V R) {r : Record} {behind : Buffer}
    (hne : r ≠ []) (hr : r.length < 2^63) (hb : (SharedStep.write r behind).Behind M σ) :
    Sat (SharedStep.write r behind).run σ (fun a τ => Follows M τ (V ++ a.1) (R ++ a.2)) := by
  obtain ⟨L, hready⟩ := h.writer
  obtain ⟨U, hu, hU, hsub⟩ := h.reader
  rw [SharedStep.run, sat_bind, sat_asWriter]
  refine (write_ready hready hM behind hne hr).mono ?_
  intro ok t hspec
  cases hspec.1 with
  | refused hbig =>
    -- the file is as it was
    change Sat (pure ([], [])) _ _
    rw [sat_pure]
    have hsame : { σ.reader with file := σ.writer.file } = σ.reader := by rw [← h.file]
    rw [hsame, List.append_nil, List.append_nil]
    exact ⟨⟨L, hready⟩, ⟨U, hu, hU, hsub⟩, h.ideal, h.file⟩
  | written hsmall hL hK hc ht =>
    change Sat (pure ([r], [])) _ _
    rw [sat_pure, List.append_nil]
    have hl : Layout M (σ.writer.file.withStart σ.reader.self.readOffset) U := by
      rw [← h.file]
      exact hu.layout
    have hfit : used U+frameSize r ≤ M := by
      rw [← hl.distance]
      exact hb hsmall
    -- the new frame stays behind the cursor, so it lies behind what the reader has yet to read
    have hnew := hc.file.layoutFrom hl hfit
    refine ⟨⟨_, ht⟩, ⟨_, ⟨?_, hnew⟩, ?_, ?_⟩, h.ideal, rfl⟩
    · have hlen : t.file.length = σ.reader.file.length := by
        rw [h.file]
        exact hc.file.length
      exact hu.usable.congr rfl rfl rfl hlen
    · split_ifs
      · simp
      · intro q hq
        rcases List.mem_append.mp hq with hq | hq
        · exact hU q hq
        · rwa [List.mem_singleton.mp hq]
    · split_ifs
      · -- an exact fit: the cursor meets the end, and the reader will find nothing
        rw [List.append_nil]
        exact ((List.sublist_append_left R U).trans hsub).trans (List.sublist_append_left V [r])
      · rw [← List.append_assoc]
        exact hsub.append_right [r]

theorem SharedStep.poll_spec (hM : 10 ≤ M) (h : Follows M σ V R) :
    Sat SharedStep.poll.run σ (fun a τ => Follows M τ (V ++ a.1) (R ++ a.2)) := by
  obtain ⟨U, hu, hU, hsub⟩ := h.reader
  rw [SharedStep.run, sat_bind, sat_asReader]
  refine (CircularLog.poll_spec hM hu hU h.ideal).mono ?_
  intro g t hpoll
  obtain ⟨hl, U', hU', hu'⟩ := hpoll
  rw [sat_pure, List.append_nil]
  have hfile : { σ.writer with file := t.file } = σ.writer := by rw [hl.file, h.file]
  refine ⟨?_, ⟨U', hu', ?_, ?_⟩, hl.ideal h.ideal, rfl⟩
  · rw [hfile]
    exact h.writer
  · intro q hq
    apply hU q
    rw [hU']
    exact List.mem_append_right g hq
  · rw [hU', ← List.append_assoc] at hsub
    exact hsub

theorem SharedStep.run_spec (hM : 10 ≤ M) (h : Follows M σ V R) {x : SharedStep} (hx : x.Valid)
    (hb : x.Behind M σ) :
    Sat x.run σ (fun a τ => Follows M τ (V ++ a.1) (R ++ a.2)) := by
  cases x with
  | write r behind => exact SharedStep.write_spec hM h hx.1 hx.2 hb
  | poll => exact SharedStep.poll_spec hM h

theorem runShared_spec (hM : 10 ≤ M) (xs : List SharedStep) (hxs : ∀ x ∈ xs, x.Valid)
    (h : Follows M σ V R) (hrun : Unlapped M xs σ) :
    Sat (runShared xs) σ (fun a τ => Follows M τ (V ++ a.1) (R ++ a.2)) := by
  induction xs generalizing σ V R with
  | nil =>
    rw [runShared, sat_pure, List.append_nil, List.append_nil]
    exact h
  | cons x xs ih =>
    obtain ⟨hb, hrest⟩ := hrun
    obtain ⟨a, τ, hstep, hτ⟩ := SharedStep.run_spec hM h (hxs x List.mem_cons_self) hb
    have hlater := ih (fun y hy => hxs y (List.mem_cons_of_mem _ hy)) hτ (hrest a τ hstep)
    rw [runShared, sat_bind, sat_of_run hstep]
    apply hlater.bind
    intro b υ hυ
    rw [sat_pure]
    rw [List.append_assoc, List.append_assoc] at hυ
    exact hυ

end SharedReader

/-- As long as no write laps the reader, the records it returns are a subsequence of the records
written, in the order of the writes. -/
theorem unlapped_reader_subsequence {M : ℕ} (hM : 10 ≤ M) {s t : State} {W : List Record}
    (h : Reachable M s W) (hW : ∀ q ∈ W, q ≠ []) (junk : Ringfile)
    (ht : openFile junk.construct (some s.file) .read allDone = .opened t) (xs : List SharedStep)
    (hxs : ∀ x ∈ xs, x.Valid) (hrun : Unlapped M xs ⟨s, t⟩) :
    Sat (runShared xs) ⟨s, t⟩ (fun a _ => a.2.Sublist (W ++ a.1)) := by
  obtain ⟨L, hL, hready, hw, _⟩ := h.readBack hM hW
  obtain ⟨t', ht', hf, hserves⟩ := hw.open_serves junk
  rw [ht] at ht'
  cases ht'
  have hfollows : Follows M ⟨s, t⟩ W [] :=
    ⟨⟨L, hready⟩, ⟨L, hserves.unread, hserves.nonempty, hL.sublist⟩, hserves.ideal, hf⟩
  refine (runShared_spec hM xs hxs hfollows hrun).mono ?_
  intro a τ hτ
  obtain ⟨U, _, _, hsub⟩ := hτ.reader
  rw [List.nil_append] at hsub
  exact (List.sublist_append_left a.2 U).trans hsub

/-- The reader takes two records, the next two make the first one go, and it takes these too. -/
def followedRun : List SharedStep :=
  [.write [1, 2, 3] uninitialized, .write [4, 5] uninitialized, .poll, .poll,
    .write (List.replicate 17 6) uninitialized, .poll, .write [7] uninitialized, .poll, .poll]

theorem unlapped_reader_subsequence_evicting :
    ∃ s t, create blank.construct none (26+24) allDone = .opened s ∧
      openFile blank.construct (some s.file) .read allDone = .opened t ∧
      Sat (runShared followedRun) ⟨s, t⟩ (fun a _ => a.2.Sublist ([] ++ a.1)) := by
  have hs := create_allDone blank.construct (show 0 < 26+24 by norm_num) (by norm_num)
  refine ⟨_, _, hs, rfl, unlapped_reader_subsequence (by norm_num) (Reachable.create blank hs)
    (by simp) blank rfl followedRun ?_ (by decide +kernel)⟩
  simp [followedRun, SharedStep.Valid]

/-- A reader that opened an empty ring of ten bytes and sees three records go by: the third write
covers the cell its cursor stands on, and the eight bytes it then returns were never written as a
record. -/
theorem lapped_reader_returns_garbage :
    ∃ s t, create blank.construct none (10+24) allDone = .opened s ∧
      openFile blank.construct (some s.file) .read allDone = .opened t ∧
      resultOf (runShared [.write [1, 2, 3] uninitialized, .write [4, 5, 6] uninitialized,
        .write [7, 8, 9] uninitialized, .poll]) ⟨s, t⟩ =
        some ([[1, 2, 3], [4, 5, 6], [7, 8, 9]], [[9, 2, 3, 3, 4, 5, 6, 3]]) ∧
      ¬([[9, 2, 3, 3, 4, 5, 6, 3]] : List Record).Sublist [[1, 2, 3], [4, 5, 6], [7, 8, 9]] :=
  ⟨_, _, rfl, rfl, by decide +kernel, by decide⟩

end CircularLog
