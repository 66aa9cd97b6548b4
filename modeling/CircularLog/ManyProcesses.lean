import CircularLog.SharedReader
import CircularLog.WriteFootprint

/-! Any number of processes that have one file open, for reading or for appending. They take turns,
one whole call at a time; nothing else keeps them apart. A process may die inside a call, and others
go on with the file it leaves. -/
namespace CircularLog

/-- The processes, and what has come of it so far: the records written, in order, and those each
process has read since it opened the file. A process without a handle is not there. -/
structure Processes (ι : Type) where
  file : File
  handle : ι → Option State
  written : List Record
  returned : ι → List Record

/-- A process as a call of it begins: it sees the file as it is now. -/
def State.on (s : State) (f : File) : State := { s with file := f, steps := [] }

@[simp] theorem State.on_file (s : State) (f : File) : (s.on f).file = f := rfl

@[simp] theorem State.on_steps (s : State) (f : File) : (s.on f).steps = [] := rfl

/-- The record an attempt is to add. -/
def Attempt.record : Attempt → Record
  | .write r _ => r
  | .stream chunks _ => chunks.flatten
  | .abandoned _ chunks _ => chunks.flatten

/-- The attempt goes on to the end, if nothing fails. -/
def Attempt.isWhole : Attempt → Bool
  | .write _ _ | .stream _ _ => true
  | .abandoned _ _ _ => false

/-- The file after the first `n` steps of a run. -/
def fileAfter (x : Op α) (s : State) (n : ℕ) : File :=
  let t := match x s with
    | .ok _ t => t
    | .error _ t => t
  -- the steps are kept with the latest first
  match (t.steps.reverse.take n).getLast? with
  | none => s.file
  | some y => y.file

/-- What happens next. In `dies` a process makes the first `n` steps of an attempt. -/
inductive Move (ι : Type)
  | opens (i : ι) (mode : Mode) (junk : Ringfile) (outcomes : ℕ → Outcome)
  | exits (i : ι)
  | adds (i : ι) (a : Attempt)
  | dies (i : ι) (a : Attempt) (n : ℕ)
  | polls (i : ι)

namespace Processes
variable {ι : Type} [DecidableEq ι]

def leave (σ : Processes ι) (i : ι) (s : Option State) (f : File) : Processes ι :=
  { σ with file := f, handle := Function.update σ.handle i s }

/-- A call of process `i`. A fault ends the process. -/
def call (σ : Processes ι) (i : ι) (x : Op α) : Option α × Processes ι :=
  match σ.handle i with
  | none => (none, σ)
  | some s =>
    match x (s.on σ.file) with
    | .ok a t => (some a, σ.leave i (some t) t.file)
    | .error _ t => (none, σ.leave i none t.file)

/-- Process `i` leaves off an attempt to add `r`, which counts as written when the end has moved. -/
def tried (σ : Processes ι) (i : ι) (s : Option State) (f : File) (r : Record) : Processes ι :=
  { σ.leave i s f with
    written :=
      if f.header.endOffset = σ.file.header.endOffset then σ.written else σ.written ++ [r] }

def move (σ : Processes ι) : Move ι → Processes ι
  | .opens i mode junk outcomes =>
    let handle := match openFile junk.construct (some σ.file) mode outcomes with
      | .opened s => some s
      | _ => none
    { σ.leave i handle σ.file with returned := Function.update σ.returned i [] }
  | .exits i => σ.leave i none σ.file
  | .adds i a =>
    let (ok, τ) := σ.call i a.run
    if ok = some true then { τ with written := σ.written ++ [a.record] } else τ
  | .dies i a n =>
    match σ.handle i with
    | none => σ
    | some s => σ.tried i none (fileAfter a.run (s.on σ.file) n) a.record
  | .polls i =>
    let (records, τ) := σ.call i poll
    { τ with returned := Function.update σ.returned i (σ.returned i ++ records.getD []) }

def run (σ : Processes ι) (ms : List (Move ι)) : Processes ι := ms.foldl move σ

/-- Process `i` has just created the file. -/
def started (i : ι) (s : State) : Processes ι where
  file := s.file
  handle := Function.update (fun _ => none) i (some s)
  written := []
  returned := fun _ => []

end Processes

def Move.Valid {ι : Type} : Move ι → Prop
  | .adds _ a | .dies _ a _ => a.Valid
  | _ => True

/-- The attempt that is made in a move. -/
def Move.attempt {ι : Type} : Move ι → Option Attempt
  | .adds _ a | .dies _ a _ => some a
  | _ => none

/-- A process does not die between the two stores that move an offset over the end of the area: both
offsets lie inside it when it is gone. -/
def Move.Settled {ι : Type} [DecidableEq ι] (M : ℕ) (σ : Processes ι) : Move ι → Prop
  | .dies i a n => (σ.move (.dies i a n)).file.header.startOffset < M ∧
    (σ.move (.dies i a n)).file.header.endOffset < M
  | _ => True

/-- So it is in a whole run. -/
def Settled {ι : Type} [DecidableEq ι] (M : ℕ) : List (Move ι) → Processes ι → Prop
  | [], _ => True
  | m :: ms, σ => m.Settled M σ ∧ Settled M ms (σ.move m)

/-- How an attempt ends on a ring that holds `L`: the record is too big, it was cut short, or it was
written. -/
inductive AttemptResult (M : ℕ) (s : State) (L : List Record) (a : Attempt) : Bool → State → Prop
  | refused (hbig : M ≤ a.frameSize) : AttemptResult M s L a false s
  | cut {t : State} {P K : List Record} (hfits : a.frameSize < M) (hL : L = P ++ K)
      (hcut : Cut M s t P K) : AttemptResult M s L a false t
  | completed {t : State} {P K : List Record} (hwhole : a.isWhole = true)
      (hsmall : frameSize a.record < M) (hL : L = P ++ K)
      (hK : K = keep frameSize (M-frameSize a.record) L)
      (hc : Completed M s t P K (frame a.record)) : AttemptResult M s L a true t

section Attempts
variable {M : ℕ} {s t : State} {f : File} {L P K : List Record} {a : Attempt}

theorem Attempt.frameSize_eq (ha : a.isWhole = true) :
    a.frameSize = CircularLog.frameSize a.record := by
  cases a with
  | write r behind => rfl
  | stream chunks behind => rfl
  | abandoned n chunks behind => cases ha

theorem WriteResult.attempt {ok : Bool} (ha : a.isWhole = true) (hfits : a.frameSize < M)
    (h : WriteResult M a.record.length s L (frame a.record) ok t) : AttemptResult M s L a ok t := by
  have hsize := a.frameSize_eq ha
  cases h with
  | refused hbig => exact .refused (by rw [hsize, frameSize]; omega)
  | cut hL hcut _ => exact .cut hfits hL hcut
  | completed hsmall hL hK hc => exact .completed ha hsmall hL hK hc

theorem Attempt.length_lt (ha : a.Valid) : a.length < 2^63 := by
  cases a with
  | write r behind => exact ha.2
  | stream chunks behind => exact ha.2
  | abandoned n chunks behind => exact ha.2.2

/-- A session cannot start while another is open. -/
theorem streamingWriteStart_open (n : ℕ) (hopen : s.self.streamingWriteOffset ≠ 0) :
    Ends (streamingWriteStart n) s (fun _ _ => False) (fun _ t => t = s) := by
  rw [streamingWriteStart, ends_of_run (get_run s), assert, if_neg hopen]
  exact ends_throw_bind.mpr rfl

/-- A record that is too big is refused before anything is done. -/
theorem Attempt.run_refused (h : Writable M s) (ha : a.Valid) (hbig : M ≤ a.frameSize) :
    Ends a.run s (fun ok t => ok = false ∧ t = s) (fun _ t => t = s) := by
  have hlen := a.length_lt ha
  have hle := Varint.size_le (show a.length < 2^64 by omega)
  have hsum : M < u64 (Varint.size a.length+a.length+1) := by
    rw [u64_of_lt (by omega)]
    change M ≤ Varint.size a.length+a.length at hbig
    omega
  have hcheck : passesCheck a.length s = .ok false s := by
    rw [passesCheck_eq h.usable (by omega), decide_eq_false (by omega)]
  -- a session is refused by its first call, or that call stops because another one is open
  have hstart (f : Bool → Op Bool) (hf : f false = pure false) :
      Ends (streamingWriteStart a.length >>= f) s (fun ok t => ok = false ∧ t = s)
        (fun _ t => t = s) := by
    by_cases hopen : s.self.streamingWriteOffset = 0
    · rw [ends_of_run (streamingWriteStart_refused hcheck hopen), hf]
      exact ends_pure.mpr ⟨rfl, rfl⟩
    · exact (streamingWriteStart_open _ hopen).bind (fun _ _ hno => hno.elim)
  cases a with
  | write r behind => exact (Sat.ends ⟨false, s, write_refused hcheck _, rfl, rfl⟩ _)
  | stream chunks behind => exact hstart _ rfl
  | abandoned n chunks behind => exact hstart _ rfl

/-- A stop leaves the file alone. It is a session inside a session. -/
theorem Attempt.run_result (hM : 10 ≤ M) (h : Writable M s) (hl : Layout M s.file L)
    (ha : a.Valid) :
    Ends a.run s (AttemptResult M s L a) (fun _ t => t = s) := by
  by_cases hfits : a.frameSize < M
  swap
  · refine (a.run_refused h ha (by omega)).mono ?_ (fun _ _ he => he)
    intro ok t hspec
    obtain ⟨rfl, rfl⟩ := hspec
    exact .refused (by omega)
  cases a with
  | write r behind =>
    obtain ⟨hne, hr⟩ := ha
    have hs := Varint.size_le (show r.length < 2^64 by omega)
    apply Sat.ends
    refine (write_spec h hl (Or.inl hM) (memory r behind) (List.length_pos_iff.mpr hne)
      (by omega)).mono ?_
    intro ok t hspec
    have hw := hspec.1
    rw [frame_eq] at hw
    exact hw.attempt rfl hfits
  | stream chunks behind =>
    obtain ⟨hne, hr⟩ := ha
    have hs := Varint.size_le (show chunks.flatten.length < 2^64 by omega)
    by_cases hopen : s.self.streamingWriteOffset = 0
    · apply Sat.ends
      refine (streamRecord_spec h hM hl hopen behind chunks hne rfl (by omega)).mono ?_
      intro ok t hspec
      exact hspec.1.attempt rfl hfits
    · exact (streamingWriteStart_open _ hopen).bind (fun _ _ hno => hno.elim)
  | abandoned n chunks behind =>
    obtain ⟨hne, hsum, hn⟩ := ha
    have hs := Varint.size_le (show n < 2^64 by omega)
    have hsmall' : Varint.size n+n < M := hfits
    -- the session is left open, so its end is as if it had been cut short
    by_cases hopen : s.self.streamingWriteOffset = 0
    · apply Sat.ends
      apply (streamingWriteStart_spec h hM hl hopen (by omega)).bind
      intro ok t hstart
      cases hstart with
      | refused hbig => omega
      | cut hL hcut _ => exact sat_pure.mpr (.cut hfits hL hcut)
      | opened hsmall hL hsession =>
        subst hL
        apply (streamAll_spec h hl hsmall behind chunks hne hsession (by simpa using hsum)).bind
        intro ok' u hspec
        obtain ⟨hcut, hdone, _⟩ := hspec
        apply sat_pure.mpr
        cases ok' with
        | false => exact .cut hfits rfl (hcut rfl)
        | true =>
          -- what the open session wrote lies behind the end
          have hopened := hdone rfl
          exact .cut hfits rfl (hopened.writing.cut hl (hopened.fits hsmall))
    · exact (streamingWriteStart_open _ hopen).bind (fun _ _ hno => hno.elim)

theorem PopStep.endOffset {x : Step} (h : PopStep M f P K x) :
    x.file.header.endOffset = f.header.endOffset := by
  obtain ⟨A, B, _, ⟨_, hp⟩ | ⟨_, r, C, _, hx⟩⟩ := h
  · rw [hp.header]
    rfl
  · rw [hx]
    rfl

/-- Between the two stores of a pop the start offset is as good as reduced when it is small enough.
-/
theorem PopStep.settled {x : Step} (h : PopStep M f P K x) (hl : Layout M f (P ++ K))
    (hx : x.file.header.startOffset < M) : ∃ L', L' <:+ P ++ K ∧ Layout M x.file L' := by
  obtain ⟨A, B, rfl, ⟨_, hp⟩ | ⟨_, r, C, rfl, hfile⟩⟩ := h
  · rw [List.append_assoc] at hl ⊢
    exact ⟨B ++ K, List.suffix_append A (B ++ K), hp.layout hl⟩
  · -- the second store would reduce what is reduced already
    rw [hfile] at hx ⊢
    have hstart : (f.header.startOffset+used A)%M+frameSize r < M := hx
    have hmod : (f.header.startOffset+used A)%M+frameSize r =
        (f.header.startOffset+used (A ++ [r]))%M := by
      calc
        (f.header.startOffset+used A)%M+frameSize r
            = ((f.header.startOffset+used A)%M+frameSize r)%M := (Nat.mod_eq_of_lt hstart).symm
        _ = (f.header.startOffset+used (A ++ [r]))%M := by
          rw [Nat.mod_add_mod, used_append, used_cons, used_nil, Nat.add_zero, Nat.add_assoc]
    have hsplit : A ++ r :: C ++ K = (A ++ [r]) ++ (C ++ K) := by simp
    rw [hsplit] at hl ⊢
    rw [hmod]
    exact ⟨C ++ K, List.suffix_append _ _, hl.withStart⟩

/-- A written record moves the end. -/
theorem Completed.end_ne {bytes : List UInt8} (h : Completed M s t P K bytes)
    (he : s.file.header.endOffset < M) (hpos : 1 ≤ bytes.length) (hlt : bytes.length < M) :
    t.file.header.endOffset ≠ s.file.header.endOffset := by
  rw [h.file.header]
  dsimp only
  rcases add_mod_cases he hlt.le with ⟨_, hc⟩ | ⟨_, hc⟩ <;> omega

/-- What an attempt leaves of the file `f`, which held `L`: its own frame may be partly there, and
if the offsets are in range, the file has the end it had and a suffix of the records, or the new
record as well. -/
structure Remains (M : ℕ) (a : Attempt) (f : File) (L : List Record) (g : File) : Prop where
  marked : f.Marked (fun p => a.frameSize < M ∧ Covers M f.header.endOffset a.frameSize p) g
  decodes : g.header.startOffset < M → g.header.endOffset < M →
    (g.header.endOffset = f.header.endOffset ∧ ∃ K, K <:+ L ∧ Layout M g K) ∨
      (g.header.endOffset ≠ f.header.endOffset ∧ (∃ K, K <:+ L ++ [a.record] ∧ Layout M g K) ∧
        a.isWhole = true ∧ frameSize a.record < M ∧ ∃ P, Filled M f P (frame a.record) g)

theorem Remains.refl (a : Attempt) (hl : Layout M f L) : Remains M a f L f :=
  ⟨.refl _ f, fun _ _ => Or.inl ⟨rfl, L, List.suffix_rfl, hl⟩⟩

/-- The frame that may be there, when the record is not refused. -/
theorem File.Marked.of_fits {g : File}
    (hg : f.Marked (Covers M f.header.endOffset a.frameSize) g) (hfits : a.frameSize < M) :
    f.Marked (fun p => a.frameSize < M ∧ Covers M f.header.endOffset a.frameSize p) g :=
  ⟨hg.magic, hg.length, fun p hp => hg.data p (fun hc => hp ⟨hfits, hc⟩)⟩

/-- A record that is too big leaves no cells of a frame. -/
theorem AttemptResult.marked {ok : Bool} (h : AttemptResult M s L a ok t) {g : File}
    (hg : s.file.Marked (Covers M s.file.header.endOffset a.frameSize) g)
    (hrefused : t = s → g = s.file) :
    s.file.Marked (fun p => a.frameSize < M ∧ Covers M s.file.header.endOffset a.frameSize p)
      g := by
  cases h with
  | refused _ =>
    rw [hrefused rfl]
    exact .refl _ _
  | cut hfits _ _ => exact hg.of_fits hfits
  | completed hwhole hsmall _ _ _ => exact hg.of_fits (by rwa [a.frameSize_eq hwhole])

/-- When an attempt returns. -/
theorem AttemptResult.remains {ok : Bool} (h : AttemptResult M s L a ok t) (hb : M+24 < 2^63)
    (hl : Layout M s.file L)
    (hfoot : s.file.Marked (Covers M s.file.header.endOffset a.frameSize) t.file) :
    Remains M a s.file L t.file ∧ (∃ K, Layout M t.file K) ∧
      (ok = true ↔ t.file.header.endOffset ≠ s.file.header.endOffset) := by
  have hmarked := h.marked hfoot (fun he => by rw [he])
  cases h with
  | refused _ => exact ⟨.refl a hl, ⟨L, hl⟩, by simp⟩
  | cut _ hL hcut =>
    subst hL
    have hend : t.file.header.endOffset = s.file.header.endOffset := by
      rw [hcut.file.header]
      rfl
    have hK := hcut.file.layout hl
    exact ⟨⟨hmarked, fun _ _ => Or.inl ⟨hend, _, List.suffix_append _ _, hK⟩⟩, ⟨_, hK⟩,
      by simp [hend]⟩
  | completed hwhole hsmall hL hK hc =>
    subst hL
    have hpos := frameSize_pos (r := a.record) (by omega)
    have hend := hc.end_ne hl.end_lt (by simpa using hpos) (by simpa using hsmall)
    have hnew := hc.file.layout hl hsmall.le hK
    exact ⟨⟨hmarked, fun _ _ => Or.inr ⟨hend, ⟨_, afterWrite_suffix M _ _, hnew⟩, hwhole, hsmall, _,
      hc.file⟩⟩, ⟨_, hnew⟩, by simp [hend]⟩

/-- When a process dies after a step of it. -/
theorem AttemptResult.remains_step {ok : Bool} (h : AttemptResult M s L a ok t)
    (hb : M+24 < 2^63) (hl : Layout M s.file L) (hs : s.steps = []) {x : Step} (hx : x ∈ t.steps)
    (hfoot : s.file.Marked (Covers M s.file.header.endOffset a.frameSize) x.file)
    (hfoot' : s.file.Marked (Covers M s.file.header.endOffset a.frameSize) t.file) :
    Remains M a s.file L x.file := by
  -- a record that is refused takes no step
  have hmarked := h.marked hfoot (fun he => by
    rw [he, hs] at hx
    cases hx)
  obtain ⟨hdone, _⟩ := h.remains hb hl hfoot'
  cases h with
  | refused _ =>
    rw [hs] at hx
    cases hx
  | cut _ hL hcut =>
    subst hL
    obtain ⟨new, hnew, hall⟩ := hcut.steps
    rw [hnew, hs, List.append_nil] at hx
    exact ⟨hmarked, fun hstart _ => Or.inl ⟨(hall x hx).endOffset, (hall x hx).settled hl hstart⟩⟩
  | completed _ _ hL _ hc =>
    subst hL
    obtain ⟨new, hnew, hall, _⟩ := hc.steps
    rw [hnew, hs, List.append_nil] at hx
    -- the latest step is the second store to the end, the one before it the first
    rcases List.mem_cons.mp hx with rfl | hx
    · exact hdone
    rcases List.mem_cons.mp hx with rfl | hx
    · refine ⟨hmarked, fun hstart hlt => ?_⟩
      -- in range, the first of the two stores leaves the end where the second does
      have hsame : t.file.withEnd (s.file.header.endOffset+(frame a.record).length) = t.file := by
        have hend : t.file.header.endOffset = s.file.header.endOffset+(frame a.record).length := by
          rw [hc.file.header]
          exact Nat.mod_eq_of_lt hlt
        rw [← hend]
        rfl
      rw [hsame] at hstart hlt ⊢
      exact hdone.decodes hstart hlt
    · exact ⟨hmarked, fun hstart _ =>
        Or.inl ⟨(hall x hx).endOffset, (hall x hx).settled hl hstart⟩⟩

end Attempts

section Onlookers
variable {I : State → Prop} {s : State}

/-- A handle that cannot store to the header never gets to the end of a write. -/
theorem assignEnd_barred (hI : Barred I) (hs : I s) (n : ℕ) :
    Ends (assignEnd n) s (fun _ _ => False) (fun _ t => I t) := by
  apply (mappedHeader_maintains s hs).bind
  intro h t ht
  refine Ends.bind (R := fun _ _ => False) ?_ (fun _ _ hno => hno.elim)
  rw [storeHeader, ends_of_run (get_run t)]
  have hheader := hI.header ht
  cases hm : t.self.header with
  | null => exact ends_throw.mpr ht
  | readOnly => exact ends_throw.mpr ht
  | readWrite => contradiction

theorem write_barred (hI : Barred I) (hs : I s) (ptr : Buffer) (n : ℕ) :
    Ends (write ptr n) s (fun ok t => ok = false ∧ I t) (fun _ t => I t) := by
  apply (startRecord_maintains hI n s hs).bind
  intro r t ht
  cases r with
  | none => exact ends_pure.mpr ⟨rfl, ht⟩
  | some k =>
    apply (mappedHeader_maintains t ht).bind
    intro h u hu
    apply (wrappingWrite_maintains hI _ _ _ u hu).bind
    intro ok v hv
    rw [ends_ite]
    refine ⟨fun _ => ends_pure.mpr ⟨rfl, hv⟩, fun _ => ?_⟩
    apply (mappedHeader_maintains v hv).bind
    intro h' w hw
    exact (assignEnd_barred hI hw _).bind (fun _ _ hno => hno.elim)

theorem streamAll_maintains (hI : Barred I) (behind : Buffer) (chunks : List (List UInt8)) :
    Maintains I (streamAll behind chunks) := by
  -- on the chunks
  induction chunks with
  | nil => exact maintains_pure _
  | cons c chunks ih =>
    apply (streamingWrite_maintains hI _ _).bind
    intro ok
    exact (maintains_pure _).ite ih

theorem Attempt.run_barred (hI : Barred I) (hs : I s) (a : Attempt) :
    Ends a.run s (fun ok t => ok = false ∧ I t) (fun _ t => I t) := by
  cases a with
  | write r behind => exact write_barred hI hs _ _
  | stream chunks behind =>
    apply (streamingWriteStart_maintains hI _ s hs).bind
    intro ok t ht
    rw [ends_ite]
    refine ⟨fun _ => ends_pure.mpr ⟨rfl, ht⟩, fun _ => ?_⟩
    apply (streamAll_maintains hI _ _ t ht).bind
    intro ok' u hu
    rw [ends_ite]
    refine ⟨fun _ => ends_pure.mpr ⟨rfl, hu⟩, fun _ => ?_⟩
    rw [streamingWriteFinish, ends_of_run (get_run u)]
    apply (assert_maintains _ u hu).bind
    intro _ v hv
    exact (assignEnd_barred hI hv _).bind (fun _ _ hno => hno.elim)
  | abandoned n chunks behind =>
    apply (streamingWriteStart_maintains hI _ s hs).bind
    intro ok t ht
    rw [ends_ite]
    refine ⟨fun _ => ends_pure.mpr ⟨rfl, ht⟩, fun _ => ?_⟩
    apply (streamAll_maintains hI _ _ t ht).bind
    intro ok' u hu
    exact ends_pure.mpr ⟨rfl, hu⟩

theorem poll_maintains (hI : CursorFree I) : Maintains I poll := by
  apply (nextRecordSize_maintains hI.toIndifferent).bind
  intro d
  cases d with
  | none => exact maintains_pure _
  | some n =>
    apply (read_maintains hI _ _).bind
    intro v
    exact (maintains_pure _).ite (maintains_pure _)

/-- From `s` to `t` the file stayed as it was, after each step as well, and the handle is open in
the same way. -/
structure Unchanged (s t : State) : Prop where
  fd : t.self.fd = s.self.fd
  header : t.self.header = s.self.header
  size : t.self.size = s.self.size
  file : t.file = s.file
  steps : ∀ x ∈ t.steps, x ∈ s.steps ∨ x.file = s.file

theorem Unchanged.refl (s : State) : Unchanged s s := ⟨rfl, rfl, rfl, rfl, fun _ hx => Or.inl hx⟩

theorem unchanged_cursorFree (s : State) : CursorFree (Unchanged s) where
  called := by
    intro t event position h
    refine ⟨h.fd, h.header, h.size, h.file, ?_⟩
    intro x hx
    rcases List.mem_cons.mp hx with rfl | hx
    · exact Or.inr h.file
    · exact h.steps x hx
  assigned := by
    intro t self h hfd hheader hsize _
    exact ⟨hfd.trans h.fd, hheader.trans h.header, hsize.trans h.size, h.file, h.steps⟩
  moved := fun _ h => ⟨h.fd, h.header, h.size, h.file, h.steps⟩

/-- A handle for reading stays where it is as well when it is asked to write. -/
theorem unchanged_barred (hfd : s.self.fd = some .read) (hheader : s.self.header = .readOnly) :
    Barred (fun t => Unchanged s t ∧ t.self.readOffset = s.self.readOffset) where
  called := fun event position h => ⟨(unchanged_cursorFree s).called event position h.1, h.2⟩
  assigned := fun self h hfd hheader hsize hcursor =>
    ⟨(unchanged_cursorFree s).assigned self h.1 hfd hheader hsize hcursor, hcursor.trans h.2⟩
  fd := by
    intro t h
    rw [h.1.fd, hfd]
    simp
  header := by
    intro t h
    rw [h.1.header, hheader]
    simp

end Onlookers

/-- A handle as `Open` or `Create` of the file leaves it, for all that its calls depend on. -/
structure Attached (M : ℕ) (s : State) : Prop where
  size : s.self.size = M+24
  mode : (s.self.fd = some .append ∧ s.self.header = .readWrite) ∨
    (s.self.fd = some .read ∧ s.self.header = .readOnly)

/-- The file decodes to the last of the records written. -/
structure Sound {ι : Type} (M : ℕ) (σ : Processes ι) : Prop where
  bound : M+24 < 2^63
  length : σ.file.length = M+24
  magic : σ.file.header.magic = kMagic
  layout : ∃ L, L <:+ σ.written ∧ Layout M σ.file L
  attached : ∀ i s, σ.handle i = some s → Attached M s

section ManyProcesses
variable {ι : Type} {M : ℕ} {σ τ : Processes ι} {i : ι} {s t : State}

theorem Unchanged.attached (h : Unchanged s t) (hs : Attached M s) : Attached M t := by
  refine ⟨h.size.trans hs.size, ?_⟩
  rw [h.fd, h.header]
  exact hs.mode

theorem Writable.attached (h : Writable M s) : Attached M s := ⟨h.size, Or.inl ⟨h.fd, h.header⟩⟩

theorem Attached.usable (h : Attached M s) (hb : M+24 < 2^63) {f : File}
    (hlen : f.length = M+24) : Usable M (s.on f) := by
  rcases h.mode with ⟨hfd, hheader⟩ | ⟨hfd, hheader⟩
  · exact ⟨by simp [State.on, hfd], by simp [State.on, hheader], h.size, hlen, hb⟩
  · exact ⟨by simp [State.on, hfd], by simp [State.on, hheader], h.size, hlen, hb⟩

/-- What the steps of a run keep is true of the file left after some of them. -/
theorem fileAfter_of_ends {α : Type} {x : Op α} {Q : File → Prop} (n : ℕ) (hs : Q s.file)
    (h : Ends x s (fun _ t => ∀ y ∈ t.steps, Q y.file) (fun _ t => ∀ y ∈ t.steps, Q y.file)) :
    Q (fileAfter x s n) := by
  have hlast (t : State) (ht : ∀ y ∈ t.steps, Q y.file) :
      Q (match (t.steps.reverse.take n).getLast? with | none => s.file | some y => y.file) := by
    cases hy : (t.steps.reverse.take n).getLast? with
    | none => exact hs
    | some y => exact ht y (List.mem_reverse.mp (List.mem_of_mem_take (List.mem_of_getLast? hy)))
  unfold fileAfter
  cases hx : x s with
  | ok a t => exact hlast t (h.1 a t hx)
  | error e t => exact hlast t (h.2 e t hx)

variable [DecidableEq ι]

theorem Processes.call_of_ends {α : Type} {x : Op α} {Q : α → State → Prop} {E : State → Prop}
    (hs : σ.handle i = some s) (h : Ends x (s.on σ.file) Q (fun _ t => E t)) :
    (∃ a t, σ.call i x = (some a, σ.leave i (some t) t.file) ∧ Q a t) ∨
      ∃ t, σ.call i x = (none, σ.leave i none t.file) ∧ E t := by
  unfold Processes.call
  rw [hs]
  dsimp only
  cases hx : x (s.on σ.file) with
  | ok a t => exact Or.inl ⟨a, t, rfl, h.1 a t hx⟩
  | error e t => exact Or.inr ⟨t, rfl, h.2 e t hx⟩

theorem Processes.call_none {α : Type} (hs : σ.handle i = none) (x : Op α) :
    σ.call i x = (none, σ) := by
  unfold Processes.call
  rw [hs]

/-- Process `i` has moved, the others have their handles still. -/
theorem Sound.update (h : Sound M σ) (hother : ∀ j, j ≠ i → τ.handle j = σ.handle j)
    (hi : ∀ s, τ.handle i = some s → Attached M s) (hlen : τ.file.length = σ.file.length)
    (hmagic : τ.file.header.magic = σ.file.header.magic)
    (hl : ∃ L, L <:+ τ.written ∧ Layout M τ.file L) : Sound M τ := by
  refine ⟨h.bound, hlen.trans h.length, hmagic.trans h.magic, hl, ?_⟩
  intro j s hj
  by_cases hji : j = i
  · subst hji
    exact hi s hj
  · rw [hother j hji] at hj
    exact h.attached j s hj

/-- The same when nothing was written. -/
theorem Sound.leave (h : Sound M σ) (i : ι) {s : Option State} (hs : ∀ t, s = some t → Attached M t)
    (hfile : τ.file = σ.file) (hhandle : τ.handle = Function.update σ.handle i s)
    (hwritten : τ.written = σ.written) : Sound M τ := by
  refine h.update (i := i) ?_ ?_ ?_ ?_ ?_
  · intro j hj
    rw [hhandle, Function.update_of_ne hj]
  · intro t ht
    rw [hhandle, Function.update_self] at ht
    exact hs t ht
  · rw [hfile]
  · rw [hfile]
  · rw [hfile, hwritten]
    exact h.layout

/-- A poll leaves everything but the handle of its process and what that process has read. -/
theorem Processes.move_polls (hσ : ∀ i s, σ.handle i = some s → Attached M s) (i : ι) :
    ∃ s' records, σ.move (.polls i) = { σ with
        handle := Function.update σ.handle i s'
        returned := Function.update σ.returned i (σ.returned i ++ records) } ∧
      ∀ t, s' = some t → Attached M t := by
  rw [Processes.move]
  cases hs : σ.handle i with
  | none =>
    refine ⟨none, [], ?_, by simp⟩
    rw [Processes.call_none hs, Function.update_eq_self_iff.mpr hs.symm]
    rfl
  | some s =>
    have hattached := hσ i s hs
    have hpoll := poll_maintains (unchanged_cursorFree (s.on σ.file)) _ (Unchanged.refl _)
    rcases Processes.call_of_ends (Q := fun _ t => Unchanged (s.on σ.file) t) hs hpoll with
      ⟨a, t, hcall, ht⟩ | ⟨t, hcall, ht⟩
    · have hfile : t.file = σ.file := ht.file
      rw [hcall, hfile]
      refine ⟨some t, a, rfl, ?_⟩
      intro u hu
      cases hu
      exact ht.attached ⟨hattached.size, hattached.mode⟩
    · -- a fault in the call ends the process
      have hfile : t.file = σ.file := ht.file
      rw [hcall, hfile]
      exact ⟨none, [], rfl, by simp⟩

/-- A move in which no record is added leaves the file alone, and one process with another handle or
with none. -/
theorem Processes.move_idle {m : Move ι} (hm : m.attempt = none) (hlen : σ.file.length = M+24)
    (hσ : ∀ i s, σ.handle i = some s → Attached M s) :
    ∃ i s', (σ.move m).file = σ.file ∧ (σ.move m).handle = Function.update σ.handle i s' ∧
      (σ.move m).written = σ.written ∧ ∀ t, s' = some t → Attached M t := by
  cases m with
  | opens i mode junk outcomes =>
    refine ⟨i, _, rfl, rfl, rfl, ?_⟩
    intro t ht
    cases hopen : openFile junk.construct (some σ.file) mode outcomes with
    | opened s =>
      rw [hopen] at ht
      cases ht
      obtain ⟨_, _, rfl⟩ := openFile_opened hopen
      refine ⟨hlen, ?_⟩
      cases mode with
      | read => exact Or.inr ⟨rfl, rfl⟩
      | append => exact Or.inl ⟨rfl, rfl⟩
    | failed self path rest =>
      rw [hopen] at ht
      cases ht
    | fault f =>
      rw [hopen] at ht
      cases ht
  | exits i => exact ⟨i, none, rfl, rfl, rfl, by simp⟩
  | adds i a => cases hm
  | dies i a n => cases hm
  | polls i =>
    obtain ⟨s', records, hmove, hs'⟩ := Processes.move_polls hσ i
    rw [hmove]
    exact ⟨i, s', rfl, rfl, rfl, hs'⟩

theorem Sound.idle (h : Sound M σ) {m : Move ι} (hm : m.attempt = none) : Sound M (σ.move m) := by
  obtain ⟨i, s', hfile, hhandle, hwritten, hs'⟩ := Processes.move_idle hm h.length h.attached
  exact h.leave i hs' hfile hhandle hwritten

/-- An attempt that returned, from `s` to `t`. -/
structure Returned (M : ℕ) (a : Attempt) (L : List Record) (s : State) (ok : Bool) (t : State) :
    Prop where
  attached : Attached M t
  cursor : t.self.readOffset = s.self.readOffset
  remains : Remains M a s.file L t.file
  start : t.file.header.startOffset < M
  end_ : t.file.header.endOffset < M
  ok : ok = true ↔ t.file.header.endOffset ≠ s.file.header.endOffset
  steps : ∀ y ∈ t.steps, Remains M a s.file L y.file

omit [DecidableEq ι] in
/-- An attempt by any process, whether or not it may write. -/
theorem Attached.attempt (hs : Attached M s) {f : File} (hM : 10 ≤ M) (hb : M+24 < 2^63)
    (hlen : f.length = M+24) {L : List Record} (hl : Layout M f L) {a : Attempt} (ha : a.Valid) :
    Ends a.run (s.on f) (Returned M a L (s.on f))
      (fun _ t => t.file = f ∧ ∀ y ∈ t.steps, y.file = f) := by
  rcases hs.mode with ⟨hfd, hheader⟩ | ⟨hfd, hheader⟩
  · -- a handle that can write
    have hw : Writable M (s.on f) := ⟨hfd, hheader, hs.size, hlen, hb⟩
    apply ((a.run_result hM hw hl ha).and (a.footprint hM hw hl.end_lt ha)).mono
    · intro ok t hspec
      obtain ⟨hresult, hfoot⟩ := hspec
      obtain ⟨hremains, ⟨K, hK⟩, hok⟩ := hresult.remains hb hl hfoot.file
      obtain ⟨new, hnew, hx⟩ := hfoot.steps
      refine ⟨hfoot.writable.attached, hfoot.cursor, hremains, hK.start_lt, hK.end_lt, hok, ?_⟩
      intro y hy
      apply hresult.remains_step hb hl rfl hy _ hfoot.file
      rw [hnew] at hy
      exact hx y (by simpa using hy)
    · intro _ t hspec
      rw [hspec.1]
      exact ⟨rfl, by simp⟩
  · -- one that cannot; its attempt comes to nothing, however it ends
    have hbarred := unchanged_barred (s := s.on f) hfd hheader
    apply (a.run_barred hbarred ⟨.refl _, rfl⟩).mono
    · intro ok t hspec
      obtain ⟨rfl, ht, hcursor⟩ := hspec
      have hfile : t.file = f := ht.file
      have hsteps (y : Step) (hy : y ∈ t.steps) : y.file = f :=
        (ht.steps y hy).resolve_left (by simp)
      refine ⟨ht.attached ⟨hs.size, hs.mode⟩, hcursor, ?_, ?_, ?_, ?_, ?_⟩
      · rw [hfile]
        exact .refl a hl
      · rw [hfile]
        exact hl.start_lt
      · rw [hfile]
        exact hl.end_lt
      · rw [hfile]
        simp
      · intro y hy
        rw [hsteps y hy]
        exact .refl a hl
    · intro _ t hspec
      exact ⟨hspec.1.file, fun y hy => (hspec.1.steps y hy).resolve_left (by simp)⟩

/-- How a move in which process `i` attempts to add a record comes out: it leaves a file that
remains of the attempt, and its handle or none. -/
theorem Sound.attempt (h : Sound M σ) (hM : 10 ≤ M) {L : List Record} (hl : Layout M σ.file L)
    {a : Attempt} (ha : a.Valid) (m : Move ι) (hm : m = .adds i a ∨ ∃ n, m = .dies i a n)
    (hsettled : m.Settled M σ) :
    ∃ s' g, σ.move m = σ.tried i s' g a.record ∧ Remains M a σ.file L g ∧
      g.header.startOffset < M ∧ g.header.endOffset < M ∧
      ∀ t, s' = some t → ∃ s, σ.handle i = some s ∧ Attached M t ∧
        t.self.readOffset = s.self.readOffset := by
  have hrefl := Remains.refl (M := M) a hl
  -- nothing counts as written where the file is as it was
  have hstay : σ.tried i none σ.file a.record = σ.leave i none σ.file := by
    simp [Processes.tried, Processes.leave]
  cases hs : σ.handle i with
  | none =>
    refine ⟨none, σ.file, ?_, hrefl, hl.start_lt, hl.end_lt, by simp⟩
    have hsame : σ.leave i none σ.file = σ := by
      rw [Processes.leave, Function.update_eq_self_iff.mpr hs.symm]
    rw [hstay, hsame]
    rcases hm with rfl | ⟨n, rfl⟩
    · simp [Processes.move, Processes.call_none hs]
    · simp [Processes.move, hs]
  | some s =>
    have hspec := (h.attached i s hs).attempt (f := σ.file) hM h.bound h.length hl ha
    rcases hm with rfl | ⟨n, rfl⟩
    · -- the attempt returns, or it stops the process
      rcases Processes.call_of_ends hs (hspec.mono (fun _ _ hq => hq) (fun _ _ he => he.1)) with
        ⟨ok, t, hcall, hreturn⟩ | ⟨t, hcall, hfile⟩
      · refine ⟨some t, t.file, ?_, hreturn.remains, hreturn.start, hreturn.end_, ?_⟩
        · -- it returns true when the end has moved, and then only
          rw [Processes.move, hcall]
          cases ok with
          | true =>
            have hend : t.file.header.endOffset ≠ σ.file.header.endOffset := hreturn.ok.mp rfl
            simp [Processes.tried, Processes.leave, hend]
          | false =>
            have hend : t.file.header.endOffset = σ.file.header.endOffset :=
              not_ne_iff.mp (fun hne => Bool.false_ne_true (hreturn.ok.mpr hne))
            simp [Processes.tried, Processes.leave, hend]
        · intro u hu
          cases hu
          exact ⟨s, rfl, hreturn.attached, hreturn.cursor⟩
      · refine ⟨none, σ.file, ?_, hrefl, hl.start_lt, hl.end_lt, by simp⟩
        rw [hstay, Processes.move, hcall, hfile]
        rfl
    · -- the process dies; where that was is all that is known of the offsets
      have hmove : σ.move (.dies i a n) =
          σ.tried i none (fileAfter a.run (s.on σ.file) n) a.record := by
        rw [Processes.move, hs]
      obtain ⟨hstart, hend⟩ := hsettled
      rw [hmove] at hstart hend ⊢
      refine ⟨none, _, rfl, ?_, hstart, hend, by simp⟩
      apply fileAfter_of_ends n hrefl
      apply hspec.mono (fun _ _ hq => hq.steps)
      intro _ t he y hy
      rw [he.2 y hy]
      exact hrefl

theorem Sound.adds (h : Sound M σ) (hM : 10 ≤ M) {a : Attempt} (ha : a.Valid) (m : Move ι)
    (hm : m = .adds i a ∨ ∃ n, m = .dies i a n) (hsettled : m.Settled M σ) :
    Sound M (σ.move m) := by
  obtain ⟨L, hL, hl⟩ := h.layout
  obtain ⟨s', g, hmove, hr, hstart, hend, hs'⟩ := h.attempt hM hl ha m hm hsettled
  rw [hmove]
  refine h.update (i := i) ?_ ?_ hr.marked.length hr.marked.magic ?_
  · intro j hj
    exact Function.update_of_ne hj _ _
  · intro t ht
    have ht' : Function.update σ.handle i s' i = some t := ht
    rw [Function.update_self] at ht'
    obtain ⟨_, _, hattached, _⟩ := hs' t ht'
    exact hattached
  · dsimp only [Processes.tried, Processes.leave]
    rcases hr.decodes hstart hend with ⟨he, K, hK, hlK⟩ | ⟨hne, ⟨K, hK, hlK⟩, _⟩
    · rw [if_pos he]
      exact ⟨K, hK.trans hL, hlK⟩
    · rw [if_neg hne]
      exact ⟨K, hK.trans (List.suffix_append_self_iff.mpr hL), hlK⟩

/-- What one move preserves. -/
theorem Sound.move (h : Sound M σ) (hM : 10 ≤ M) {m : Move ι} (hm : m.Valid)
    (hsettled : m.Settled M σ) : Sound M (σ.move m) := by
  cases m with
  | opens i mode junk outcomes => exact h.idle rfl
  | exits i => exact h.idle rfl
  | adds i a => exact h.adds hM hm _ (Or.inl rfl) hsettled
  | dies i a n => exact h.adds hM hm _ (Or.inr ⟨n, rfl⟩) hsettled
  | polls i => exact h.idle rfl

theorem Sound.run (h : Sound M σ) (hM : 10 ≤ M) {ms : List (Move ι)} (hms : ∀ m ∈ ms, m.Valid)
    (hsettled : Settled M ms σ) : Sound M (σ.run ms) := by
  -- on the moves, from any processes that are `Sound`
  induction ms generalizing σ with
  | nil => exact h
  | cons m ms ih =>
    obtain ⟨hm, hrest⟩ := hsettled
    exact ih (h.move hM (hms m List.mem_cons_self) hm)
      (fun m' hm' => hms m' (List.mem_cons_of_mem _ hm')) hrest

omit [DecidableEq ι] in
theorem Sound.readBack (h : Sound M σ) (hM : 10 ≤ M) :
    ∃ L, L <:+ σ.written ∧ Layout M σ.file L ∧
      ((∀ r ∈ σ.written, r ≠ []) → ∀ junk, readBack junk σ.file = some L) := by
  obtain ⟨L, hL, hl⟩ := h.layout
  refine ⟨L, hL, hl, fun hne junk => ?_⟩
  have hw : WellFormed M σ.file L :=
    ⟨h.length, h.bound, h.magic, hl, fun r hr => hne r (hL.subset hr)⟩
  exact hw.readBack hM junk

theorem started_sound {self : Ringfile} {outcomes : ℕ → Outcome} (hM : 10 ≤ M)
    (hs : create self none (M+24) outcomes = .opened s) (i : ι) :
    Sound M (Processes.started i s) := by
  obtain ⟨_, hsize, rfl⟩ := create_opened hs
  have hl := createdState_layout self outcomes (show 0 < M by omega)
  refine ⟨hsize, rfl, rfl, ⟨[], List.suffix_rfl, hl⟩, ?_⟩
  intro j t hj
  dsimp only [Processes.started] at hj
  by_cases hji : j = i
  · subst hji
    rw [Function.update_self] at hj
    cases hj
    exact (createdState_writable self outcomes hsize).attached
  · rw [Function.update_of_ne hji] at hj
    cases hj

end ManyProcesses

/-- However many processes append to the file and read it, whatever they are told by the system and
wherever in a call they die: the file holds the last of the records that were written, and a reader
that opens it reads them. -/
theorem processes_keep_ring {ι : Type} [DecidableEq ι] {M : ℕ} (hM : 10 ≤ M) {self : Ringfile}
    {outcomes : ℕ → Outcome} {s : State} (hs : create self none (M+24) outcomes = .opened s) (i : ι)
    {ms : List (Move ι)} (hms : ∀ m ∈ ms, m.Valid) (hsettled : Settled M ms (.started i s)) :
    ∃ L, L <:+ ((Processes.started i s).run ms).written ∧
      Layout M ((Processes.started i s).run ms).file L ∧
      ((∀ r ∈ ((Processes.started i s).run ms).written, r ≠ []) →
        ∀ junk, readBack junk ((Processes.started i s).run ms).file = some L) :=
  ((started_sound hM hs i).run hM hms hsettled).readBack hM

/-- One process writes a record, a second one dies four steps into the next, and a third one reads.
-/
def crashRun : List (Move ℕ) :=
  [.adds 0 (.write [1, 2, 3] uninitialized), .opens 1 .append blank allDone,
    .dies 1 (.write [4, 5] uninitialized) 4, .opens 2 .read blank allDone, .polls 2]

theorem processes_keep_ring_crash :
    ∃ s, create blank.construct none (26+24) allDone = .opened s ∧
      ∃ L, L <:+ ((Processes.started 0 s).run crashRun).written ∧
        Layout 26 ((Processes.started 0 s).run crashRun).file L ∧
        ((∀ r ∈ ((Processes.started 0 s).run crashRun).written, r ≠ []) →
          ∀ junk, readBack junk ((Processes.started 0 s).run crashRun).file = some L) := by
  have hs := create_allDone blank.construct (show 0 < 26+24 by norm_num) (by norm_num)
  refine ⟨_, hs, processes_keep_ring (by norm_num) hs 0 ?_ ?_⟩
  · simp [crashRun, Move.Valid, Attempt.Valid]
  · exact ⟨trivial, trivial, ⟨by decide +kernel, by decide +kernel⟩, trivial, trivial, trivial⟩

end CircularLog
