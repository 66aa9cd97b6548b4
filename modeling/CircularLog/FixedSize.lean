import CircularLog.SharedReader
import CircularLog.SizeCheck
import CircularLog.UncheckedReads

/-! The size of the file. `Create` takes any size that is not zero, and the area is what is left
behind the header of 24 bytes. -/
namespace CircularLog

/-- A call on one of the two handles of a file: the handle that created it writes, another one
reads. The second handle may be opened again. -/
inductive HandleCall
  | write (r : Record) (behind : Buffer)
  | nextRecordSize
  | read (buffer : Buffer) (bufferSize : ℕ)
  | reopen (junk : Ringfile)

def HandleCall.run : HandleCall → SharedOp Unit
  | .write r behind => do
    let _ ← asWriter (CircularLog.write (memory r behind) r.length)
  | .nextRecordSize => do
    let _ ← asReader CircularLog.nextRecordSize
  | .read buffer bufferSize => do
    let _ ← asReader (CircularLog.read buffer bufferSize)
  | .reopen junk => do
    let _ ← asReader (openAgain junk.construct .read)

def HandleCall.Valid : HandleCall → Prop
  | .write r _ => r ≠ [] ∧ r.length < 2^63
  | _ => True

def HandleCall.isRead : HandleCall → Bool
  | .read _ _ => true
  | _ => false

/-- The event stores a byte at file position `p`. -/
def Event.Stores : Event → ℕ → Prop
  | .write position n, p => position ≤ p ∧ p < position+n
  | _, _ => False

/-- `bytes_max()` is what lies behind the header, the file has the size it was created with, and no
`write` stored a byte outside the data area. -/
structure InSize (size : ℕ) (σ : Shared) : Prop where
  writer : (σ.writer.self.bytesMax : ℤ) = (size : ℤ)-24
  reader : σ.reader.self.isClosed = false → (σ.reader.self.bytesMax : ℤ) = (size : ℤ)-24
  length : σ.writer.file.length = size
  stores : ∀ x ∈ σ.writer.steps ++ σ.reader.steps, x.file.length = size ∧
    ∀ p, x.event.Stores p → 24 ≤ p ∧ p < size

/-- So it is at every state met by the calls, and none of them divides by zero. -/
def AlwaysInSize (size : ℕ) : List HandleCall → Shared → Prop
  | [], σ => InSize size σ
  | x :: xs, σ => InSize size σ ∧ Ends x.run σ (fun _ τ => AlwaysInSize size xs τ)
    (fun e τ => e ≠ .divisionByZero ∧ InSize size τ)

/-- The calls keep a file created with size `size` in its size, whatever the system answers and
whatever the object held that `Create` is called on. -/
def KeepsSize (size : ℕ) (xs : List HandleCall) : Prop :=
  ∀ (self junk : Ringfile) (outcomes outcomes' : ℕ → Outcome) (s t : State),
    create self none size outcomes = .opened s →
    openFile junk.construct (some s.file) .read outcomes' = .opened t →
    AlwaysInSize size xs ⟨s, t⟩

/-- From `s` to `t` the handle kept its size and the file its length, and `write` stored bytes of
the area only. -/
structure Stays (M : ℕ) (s t : State) : Prop where
  fd : t.self.fd = s.self.fd
  header : t.self.header = s.self.header
  size : t.self.size = s.self.size
  length : t.file.length = s.file.length
  steps : ∃ new, t.steps = new ++ s.steps ∧ ∀ x ∈ new, x.file.length = s.file.length ∧
    ∀ p, x.event.Stores p → 24 ≤ p ∧ p < M+24

/-- The call did not change the file either. -/
def LooksOn (M : ℕ) (s t : State) : Prop := Stays M s t ∧ t.file = s.file

section Stays
variable {M : ℕ} {s t u : State}

theorem Stays.refl (M : ℕ) (s : State) : Stays M s s := ⟨rfl, rfl, rfl, rfl, [], rfl, by simp⟩

theorem Stays.trans (h : Stays M s t) (h' : Stays M t u) : Stays M s u := by
  obtain ⟨new, hnew, hx⟩ := h.steps
  obtain ⟨new', hnew', hx'⟩ := h'.steps
  refine ⟨h'.fd.trans h.fd, h'.header.trans h.header, h'.size.trans h.size,
    h'.length.trans h.length, new' ++ new, ?_, ?_⟩
  · rw [hnew', hnew, List.append_assoc]
  · intro x hm
    -- the newest step stands first
    rcases List.mem_append.mp hm with hm | hm
    · obtain ⟨hlen, hp⟩ := hx' x hm
      exact ⟨hlen.trans h.length, hp⟩
    · exact hx x hm

theorem Stays.writable (h : Stays M s t) (hs : Writable M s) : Writable M t :=
  hs.congr h.fd h.header h.size h.length

theorem Stays.usable (h : Stays M s t) (hs : Usable M s) : Usable M t :=
  hs.congr h.fd h.header h.size h.length

theorem Event.IsTransfer.inside {e : Event} (h : e.IsTransfer M) {p : ℕ} (hp : e.Stores p) :
    24 ≤ p ∧ p < M+24 := by
  cases e with
  | write position n =>
    obtain ⟨hlow, hhigh⟩ := h
    obtain ⟨hle, hlt⟩ := hp
    omega
  | _ => exact False.elim hp

theorem Moved.stays {R : ℕ → Prop} (h : Moved M R s t) : Stays M s t := by
  obtain ⟨new, hnew, hx⟩ := h.steps
  refine ⟨?_, ?_, ?_, h.file.length, new, hnew, ?_⟩
  · rw [h.self]
  · rw [h.self]
  · rw [h.self]
  · intro x hm
    exact ⟨(hx x hm).2.length, fun p hp => (hx x hm).1.inside hp⟩

/-- A store to the header through the mapping. -/
theorem stays_assigned {event : Event} (he : ∀ p, ¬event.Stores p) {file : File}
    (hf : file.length = s.file.length) : Stays M s (s.assigned event file) := by
  refine ⟨rfl, rfl, rfl, hf, [⟨event, file⟩], rfl, ?_⟩
  intro x hx
  rw [List.mem_singleton.mp hx]
  exact ⟨hf, fun p hp => absurd hp (he p)⟩

theorem stays_advanced {f g : File} (hf : f.length = s.file.length) (hg : g.length = f.length) :
    Stays M s ((s.assigned .advance f).assigned .reduce g) :=
  (stays_assigned (fun _ => id) hf).trans (stays_assigned (fun _ => id) hg)

theorem LooksOn.refl (M : ℕ) (s : State) : LooksOn M s s := ⟨.refl M s, rfl⟩

theorem Moved.looksOn {R : ℕ → Prop} (h : Moved M R s t) (hf : t.file = s.file) : LooksOn M s t :=
  ⟨h.stays, hf⟩

theorem LooksOn.trans (h : LooksOn M s t) (h' : LooksOn M t u) : LooksOn M s u :=
  ⟨h.1.trans h'.1, h'.2.trans h.2⟩

end Stays

section RingfileOps
variable {M : ℕ} {s : State}

/-- Whatever the offsets are. -/
theorem bytesAvailable_any (h : s.self.header ≠ .null) :
    Sat bytesAvailable s (fun _ t => t = s) := by
  have hmax {Q : ℕ → State → Prop} (hq : ∀ a, Q a s) : Sat bytesMax s Q := by
    simp only [bytesMax, sat_bind, sat_get, sat_pure]
    exact hq _
  have hused : Sat bytesUsed s (fun _ t => t = s) := by
    rw [bytesUsed, sat_bind, sat_mappedHeader h, sat_ite]
    -- either branch of `bytes_used()` only looks
    constructor
    · exact fun _ => sat_pure.mpr rfl
    · intro _
      rw [sat_bind]
      exact hmax (fun _ => sat_pure.mpr rfl)
  rw [bytesAvailable]
  apply hused.bind
  intro used t ht
  rw [ht, sat_bind]
  exact hmax (fun _ => sat_pure.mpr rfl)

/-- A window that is no length stops the run, but not on a division. -/
theorem readVarint_ends (h : Usable M s) (hM : 0 < M) (off : ℕ) :
    Ends (readVarint off) s (fun _ t => LooksOn M s t)
      (fun e t => e ≠ .divisionByZero ∧ LooksOn M s t) := by
  unfold readVarint
  apply (wrappingRead_exact h hM off uninitialized Varint.kMaxSize).ends_bind
  intro v t hspec
  obtain ⟨ok, headerBuffer⟩ := v
  obtain ⟨_, hm, hf, _⟩ := hspec
  have hl := hm.looksOn hf
  dsimp only
  rw [ends_ite, ends_pure]
  refine ⟨fun _ => hl, fun _ => ?_⟩
  cases Varint.read headerBuffer with
  | none =>
    -- ten bytes without a last one: `Varint::Read` runs off its end
    rw [reached, ends_throw_bind]
    exact ⟨by simp, hl⟩
  | some d => exact ends_pure.mpr hl

theorem popRecord_ends (h : Writable M s) (hM : 0 < M) :
    Ends popRecord s (fun _ t => Stays M s t) (fun e t => e ≠ .divisionByZero ∧ Stays M s t) := by
  have hread := (readVarint_ends h.usable hM s.file.header.startOffset).mono (fun _ _ => id)
    (fun _ _ he => And.intro he.1 he.2.1)
  rw [popRecord, ends_of_run (mappedHeader_run h.usable.header), ends_ite, ends_pure]
  refine ⟨fun _ => .refl M s, fun _ => hread.bind ?_⟩
  intro v u hl
  have hu := hl.1
  cases v with
  | none => exact ends_pure.mpr hu
  | some d =>
    -- a length that is garbage moves the start somewhere, by two stores to the header
    have hadvance : Sat (advanceStart (u64 (d.1+d.2))) u (fun _ w => Stays M s w) := by
      rw [sat_advanceStart (hu.writable h) hM]
      exact hu.trans (stays_advanced rfl rfl)
    apply hadvance.ends_bind
    exact fun _ _ hw => ends_pure.mpr hw

theorem popUntilAvailable_ends (h : Writable M s) (hM : 0 < M) (need fuel : ℕ) :
    Ends (popUntilAvailable need fuel) s (fun _ t => Stays M s t)
      (fun e t => e ≠ .divisionByZero ∧ Stays M s t) := by
  -- on the turns that are left, from any state that has kept its size
  induction fuel generalizing s with
  | zero =>
    unfold popUntilAvailable
    apply (bytesAvailable_any h.usable.header).ends_bind
    intro a t ht
    subst ht
    rw [ends_ite, ends_throw, ends_pure]
    exact ⟨fun _ => ⟨by simp, .refl M t⟩, fun _ => .refl M t⟩
  | succ fuel ih =>
    unfold popUntilAvailable
    apply (bytesAvailable_any h.usable.header).ends_bind
    intro a t ht
    subst ht
    rw [ends_ite, ends_pure]
    refine ⟨fun _ => (popRecord_ends h hM).bind ?_, fun _ => .refl M t⟩
    intro ok u hu
    have hwu := hu.writable h
    rw [ends_ite, ends_pure]
    refine ⟨fun _ => hu, fun _ => (bytesAvailable_any hwu.usable.header).ends_bind ?_⟩
    intro b w hw
    subst hw
    -- the turn made room, or the assertion stops the run
    unfold assert
    by_cases hmore : a < b
    · -- the turns that are left
      rw [if_pos hmore]
      exact (ih hwu).mono (fun _ _ hx => hu.trans hx) (fun _ _ hx => ⟨hx.1, hu.trans hx.2⟩)
    · rw [if_neg hmore, ends_throw_bind]
      exact ⟨by simp, hu⟩

/-- What is behind the size check can be written. -/
theorem startRecord_ends (h : Writable M s) (hM : 0 < M) {n : ℕ} (hn : n < 2^63) :
    Ends (startRecord n) s
      (fun r t => Stays M s t ∧ ∀ headerSize, r = some headerSize → headerSize+n+1 ≤ M)
      (fun e t => e ≠ .divisionByZero ∧ Stays M s t) := by
  have hv : n < 2^64 := by omega
  have hpos := Varint.size_pos hv
  have hsize := Varint.size_le hv
  have hcheck := passesCheck_eq h.usable hv
  -- below 2^63 the sum of the check does not wrap around
  rw [u64_of_lt (by omega)] at hcheck
  rw [startRecord_checked, ends_of_run hcheck, ends_ite, ends_pure]
  refine ⟨fun _ => ⟨.refl M s, by simp⟩, fun hpassed => ?_⟩
  have hfits : Varint.size n+n+1 ≤ M := by simpa using hpassed
  rw [startChecked, ends_of_run (reached_byteSize hv s)]
  apply (popUntilAvailable_ends h hM _ _).bind
  intro ok t ht
  have hwt := ht.writable h
  rw [ends_ite, ends_pure]
  refine ⟨fun _ => ⟨ht, by simp⟩, fun _ => ?_⟩
  rw [ends_of_run (mappedHeader_run hwt.usable.header)]
  -- the header takes no more than one lap
  apply (wrappingWrite_spec hwt _ _ hpos (by omega)).ends_bind
  intro ok' u hspec
  have hu := ht.trans hspec.1.stays
  rw [ends_ite, ends_pure, ends_pure]
  refine ⟨fun _ => ⟨hu, by simp⟩, fun _ => ⟨hu, ?_⟩⟩
  intro headerSize heq
  cases heq
  exact hfits

theorem write_ends (h : Writable M s) (hM : 0 < M) {n : ℕ} (h1 : 1 ≤ n) (hn : n < 2^63)
    (ptr : Buffer) :
    Ends (write ptr n) s (fun _ t => Stays M s t)
      (fun e t => e ≠ .divisionByZero ∧ Stays M s t) := by
  unfold write
  apply (startRecord_ends h hM hn).bind
  intro r t hr
  obtain ⟨ht, hfits⟩ := hr
  cases r with
  | none => exact ends_pure.mpr ht
  | some headerSize =>
    have hle := hfits headerSize rfl
    have hwt := ht.writable h
    dsimp only
    rw [ends_of_run (mappedHeader_run hwt.usable.header)]
    -- nor does the payload, or the check would have refused it
    apply (wrappingWrite_spec hwt _ ptr h1 (by omega)).ends_bind
    intro ok u hspec
    have hu := ht.trans hspec.1.stays
    have hwu := hu.writable h
    rw [ends_ite, ends_pure]
    refine ⟨fun _ => hu, fun _ => ?_⟩
    rw [ends_of_run (mappedHeader_run hwu.usable.header)]
    have hassign (k : ℕ) : Sat (assignEnd k) u (fun _ x => Stays M s x) := by
      rw [sat_assignEnd hwu hM]
      exact hu.trans (stays_advanced rfl rfl)
    apply (hassign _).ends_bind
    exact fun _ _ hx => ends_pure.mpr hx

theorem nextRecordSize_ends (h : s.self.isClosed = true ∨ Usable M s) (hM : 0 < M) :
    Ends nextRecordSize s (fun _ t => LooksOn M s t)
      (fun e t => e ≠ .divisionByZero ∧ LooksOn M s t) := by
  rw [nextRecordSize, ends_of_run (get_run s), ends_ite, ends_pure]
  refine ⟨fun _ => .refl M s, fun hopen => ?_⟩
  have hu := h.resolve_left hopen
  rw [ends_of_run (mappedHeader_run hu.header), ends_ite, ends_pure]
  refine ⟨fun _ => .refl M s, fun _ => (readVarint_ends hu hM _).bind ?_⟩
  intro d t ht
  cases d with
  | none => exact ends_pure.mpr ht
  | some d => exact ends_pure.mpr ht

theorem read_ends (h : s.self.isClosed = true ∨ Usable M s) (hM : 0 < M) (buffer : Buffer)
    (bufferSize : ℕ) :
    Ends (read buffer bufferSize) s (fun _ t => LooksOn M s t)
      (fun e t => e ≠ .divisionByZero ∧ LooksOn M s t) := by
  rw [read, ends_of_run (get_run s), ends_ite, ends_pure]
  refine ⟨fun _ => .refl M s, fun hopen => ?_⟩
  have hu := h.resolve_left hopen
  apply (readVarint_ends hu hM _).bind
  intro d t ht
  cases d with
  | none => exact ends_pure.mpr ht
  | some d =>
    obtain ⟨headerSize, value⟩ := d
    dsimp only
    rw [ends_ite, ends_pure]
    refine ⟨fun _ => ht, fun _ => ?_⟩
    -- any length at all is read, within the file
    apply (wrappingRead_exact (ht.1.usable hu) hM _ buffer value).ends_bind
    intro w u hspec
    obtain ⟨ok, buffer'⟩ := w
    obtain ⟨_, hm, hf, _⟩ := hspec
    have hlu := ht.trans (hm.looksOn hf)
    have huu := hlu.1.usable hu
    dsimp only
    rw [ends_ite, ends_pure]
    refine ⟨fun _ => hlu, fun _ => Sat.ends ?_ _⟩
    rw [sat_bind, sat_bytesMax huu, sat_bind, sat_modulo hM, sat_bind, setReadOffset, sat_modify,
      sat_pure]
    exact hlu.trans ⟨⟨rfl, rfl, rfl, rfl, [], rfl, by simp⟩, rfl⟩

end RingfileOps

/-- The two handles on a file with an area of `M` bytes. The reader may have failed to open. -/
structure Held (M : ℕ) (σ : Shared) : Prop where
  writer : Writable M σ.writer
  reader : σ.reader.self.isClosed = true ∨ Usable M σ.reader
  file : σ.reader.file = σ.writer.file
  steps : ∀ x ∈ σ.writer.steps ++ σ.reader.steps, x.file.length = M+24 ∧
    ∀ p, x.event.Stores p → 24 ≤ p ∧ p < M+24

/-- No area at all is left behind the header, and both offsets are zero for good. -/
structure Bare (σ : Shared) : Prop extends Held 0 σ where
  start : σ.writer.file.header.startOffset = σ.writer.file.header.endOffset
  cursor : σ.reader.self.isClosed = true ∨
    σ.reader.self.readOffset = σ.writer.file.header.endOffset

/-- The reader is open, and no call is going to fail. -/
structure Armed (σ : Shared) : Prop extends Bare σ where
  usable : Usable 0 σ.reader
  ideal : Ideal σ.reader
  magic : σ.writer.file.header.magic = kMagic

/-- The handle after an attempt to open the file again: closed as before the attempt or since, or
new. -/
def Reopened (junk : Ringfile) (s t : State) : Prop :=
  t.file = s.file ∧ ((t.self.isClosed = true ∧ t.steps = s.steps) ∨
    t = openedState junk.construct s.file .read s.outcomes)

theorem openAgain_ends (junk : Ringfile) (s : State) :
    Ends (openAgain junk.construct .read) s (fun _ t => Reopened junk s t)
      (fun e t => e = .protection ∧ t = s) := by
  unfold Ends openAgain
  rcases openFile_cases junk.construct s.file .read s.outcomes with
    ⟨hopen, _, _⟩ | ⟨self, rest, hfail, hclosed⟩ | hstop
  · rw [hopen]
    simp [Reopened, openedState]
  · have hself : self.isClosed = true := by
      rcases hclosed with hfd | hheader
      · simp [Ringfile.isClosed, hfd]
      · simp [Ringfile.isClosed, hheader, Ringfile.construct]
    rw [hfail]
    simp [Reopened, hself]
  · rw [hstop]
    simp

section Shared
variable {M : ℕ} {σ : Shared} {x : HandleCall} {xs : List HandleCall}

theorem ends_asWriter {α : Type} {x : Op α} {Q : α → Shared → Prop} {E : Fault → Shared → Prop}
    (h : Ends x σ.writer (fun a t => Q a ⟨t, { σ.reader with file := t.file }⟩)
      (fun e t => E e ⟨t, { σ.reader with file := t.file }⟩)) : Ends (asWriter x) σ Q E := by
  obtain ⟨hok, herror⟩ := h
  unfold Ends asWriter
  cases hx : x σ.writer with
  | ok a t => simp [hok a t hx]
  | error e t => simp [herror e t hx]

theorem ends_asReader {α : Type} {x : Op α} {Q : α → Shared → Prop} {E : Fault → Shared → Prop}
    (h : Ends x σ.reader (fun a t => Q a ⟨{ σ.writer with file := t.file }, t⟩)
      (fun e t => E e ⟨{ σ.writer with file := t.file }, t⟩)) : Ends (asReader x) σ Q E := by
  obtain ⟨hok, herror⟩ := h
  unfold Ends asReader
  cases hx : x σ.reader with
  | ok a t => simp [hok a t hx]
  | error e t => simp [herror e t hx]

theorem Held.inSize (h : Held M σ) : InSize (M+24) σ := by
  refine ⟨?_, ?_, h.writer.length, h.steps⟩
  · rw [h.writer.usable.bytesMax_eq]
    omega
  · intro hopen
    rw [(h.reader.resolve_left (by simp [hopen])).bytesMax_eq]
    omega

theorem Held.wrote (h : Held M σ) {t : State} (ht : Stays M σ.writer t) :
    Held M ⟨t, { σ.reader with file := t.file }⟩ := by
  obtain ⟨new, hnew, hx⟩ := ht.steps
  refine ⟨ht.writable h.writer, ?_, rfl, ?_⟩
  · rcases h.reader with hclosed | hopen
    · exact Or.inl hclosed
    · refine Or.inr (hopen.congr rfl rfl rfl ?_)
      rw [h.file]
      exact ht.length
  · intro y hy
    dsimp only at hy
    rw [hnew, List.append_assoc] at hy
    -- a step of this call, or one taken before
    rcases List.mem_append.mp hy with hy | hy
    · obtain ⟨hlen, hp⟩ := hx y hy
      exact ⟨hlen.trans h.writer.length, hp⟩
    · exact h.steps y hy

theorem Held.looked (h : Held M σ) {t : State} (ht : LooksOn M σ.reader t) :
    Held M ⟨{ σ.writer with file := t.file }, t⟩ := by
  obtain ⟨hs, hf⟩ := ht
  obtain ⟨new, hnew, hx⟩ := hs.steps
  have hlen : σ.reader.file.length = M+24 := by
    rw [h.file]
    exact h.writer.length
  refine ⟨h.writer.congr rfl rfl rfl ?_, ?_, rfl, ?_⟩
  · dsimp only
    rw [hf, h.file]
  · rcases h.reader with hclosed | hopen
    · left
      rw [Ringfile.isClosed, hs.header, hs.fd]
      exact hclosed
    · exact Or.inr (hs.usable hopen)
  · intro y hy
    dsimp only at hy
    rw [hnew] at hy
    -- a step of the writer, a new one of the reader, or an old one
    rcases List.mem_append.mp hy with hy | hy
    · exact h.steps y (List.mem_append_left _ hy)
    rcases List.mem_append.mp hy with hy | hy
    · obtain ⟨hsame, hp⟩ := hx y hy
      exact ⟨hsame.trans hlen, hp⟩
    · exact h.steps y (List.mem_append_right _ hy)

theorem Held.reopened (h : Held M σ) {junk : Ringfile} {t : State}
    (ht : Reopened junk σ.reader t) : Held M ⟨{ σ.writer with file := t.file }, t⟩ := by
  obtain ⟨hf, hhow⟩ := ht
  have hlen : t.file.length = M+24 := by
    rw [hf, h.file]
    exact h.writer.length
  refine ⟨h.writer.congr rfl rfl rfl (hlen.trans h.writer.length.symm), ?_, rfl, ?_⟩
  · rcases hhow with ⟨hclosed, _⟩ | hopen
    · exact Or.inl hclosed
    · right
      rw [hf] at hlen
      rw [hopen]
      exact ⟨by simp [openedState], by simp [openedState], hlen, hlen, h.writer.bound⟩
  · intro y hy
    rcases hhow with ⟨_, hsteps⟩ | hopen
    · rw [hsteps] at hy
      exact h.steps y hy
    · -- a new process has taken no step
      rw [hopen] at hy
      apply h.steps y
      apply List.mem_append_left
      simpa [openedState] using hy

/-- No call leaves the size, unless there is no area. -/
theorem HandleCall.run_held (h : Held M σ) (hM : 0 < M) (hx : x.Valid) :
    Ends x.run σ (fun _ τ => Held M τ) (fun e τ => e ≠ .divisionByZero ∧ Held M τ) := by
  cases x with
  | write r behind =>
    have hrun := write_ends h.writer hM (List.length_pos_iff.mpr hx.1) hx.2 (memory r behind)
    refine (ends_asWriter (hrun.mono (fun _ _ => h.wrote) ?_)).discard
    exact fun _ _ he => ⟨he.1, h.wrote he.2⟩
  | nextRecordSize =>
    have hrun := nextRecordSize_ends h.reader hM
    refine (ends_asReader (hrun.mono (fun _ _ => h.looked) ?_)).discard
    exact fun _ _ he => ⟨he.1, h.looked he.2⟩
  | read buffer bufferSize =>
    have hrun := read_ends h.reader hM buffer bufferSize
    refine (ends_asReader (hrun.mono (fun _ _ => h.looked) ?_)).discard
    exact fun _ _ he => ⟨he.1, h.looked he.2⟩
  | reopen junk =>
    have hrun := openAgain_ends junk σ.reader
    refine (ends_asReader (hrun.mono (fun _ _ => h.reopened) ?_)).discard
    -- an `open` that faults leaves the reader as it was
    intro e t he
    obtain ⟨rfl, rfl⟩ := he
    exact ⟨by simp, h.looked (.refl M _)⟩

theorem always_of_held (h : Held M σ) (hM : 0 < M) (hxs : ∀ x ∈ xs, x.Valid) :
    AlwaysInSize (M+24) xs σ := by
  -- `Held` is what each call hands on to the next
  induction xs generalizing σ with
  | nil => exact h.inSize
  | cons x xs ih =>
    refine ⟨h.inSize, ?_⟩
    apply (HandleCall.run_held h hM (hxs x List.mem_cons_self)).mono
    · exact fun _ τ hτ => ih hτ (fun y hy => hxs y (List.mem_cons_of_mem _ hy))
    · exact fun e τ hτ => ⟨hτ.1, hτ.2.inSize⟩

/-- Without an area every record is refused. -/
theorem Held.write_bare (h : Held 0 σ) {r : Record} (hr : r.length < 2^63) (behind : Buffer) :
    (HandleCall.write r behind).run σ = .ok () σ := by
  have hsize := Varint.size_pos (show r.length < 2^64 by omega)
  have hsize' := Varint.size_le (show r.length < 2^64 by omega)
  have hcheck := passesCheck_eq h.writer.usable (show r.length < 2^64 by omega)
  -- two bytes at least are asked for, and there is none
  rw [u64_of_lt (by omega), decide_eq_false (by omega)] at hcheck
  have hwrite := write_refused hcheck (memory r behind)
  have hsame : { σ.reader with file := σ.writer.file } = σ.reader := by rw [← h.file]
  have hrun : asWriter (CircularLog.write (memory r behind) r.length) σ = .ok false σ := by
    unfold asWriter
    rw [hwrite]
    dsimp only
    rw [hsame]
  rw [HandleCall.run, run_bind, hrun]
  rfl

/-- And the cursor of the reader stays on the end. -/
theorem Bare.nextRecordSize_bare (h : Bare σ) : HandleCall.nextRecordSize.run σ = .ok () σ := by
  have hnone : Sat nextRecordSize σ.reader (fun r t => r = none ∧ t = σ.reader) := by
    -- a closed reader returns before it looks at its cursor
    by_cases hclosed : σ.reader.self.isClosed = true
    · rw [nextRecordSize, sat_bind, sat_get, if_pos hclosed, sat_pure]
      exact ⟨rfl, rfl⟩
    · apply nextRecordSize_end (h.reader.resolve_left hclosed)
      rw [h.file]
      exact h.cursor.resolve_left hclosed
  obtain ⟨r, t, hrun, rfl, rfl⟩ := hnone
  have hsame : { σ.writer with file := σ.reader.file } = σ.writer := by rw [h.file]
  have hshared : asReader CircularLog.nextRecordSize σ = .ok none σ := by
    unfold asReader
    rw [hrun]
    dsimp only
    rw [hsame]
  rw [HandleCall.run, run_bind, hshared]
  rfl

theorem HandleCall.run_bare (h : Bare σ) (hx : x.Valid) (hread : x.isRead = false) :
    Ends x.run σ (fun _ τ => Bare τ) (fun e τ => e ≠ .divisionByZero ∧ Bare τ) := by
  cases x with
  | write r behind => exact (((sat_of_run (h.write_bare hx.2 behind)).mpr h).ends _)
  | nextRecordSize => exact (((sat_of_run h.nextRecordSize_bare).mpr h).ends _)
  | read buffer bufferSize => cases hread
  | reopen junk =>
    have hrun := openAgain_ends junk σ.reader
    refine (ends_asReader (hrun.mono ?_ ?_)).discard
    · intro _ t ht
      have hfile : t.file = σ.writer.file := ht.1.trans h.file
      refine ⟨h.toHeld.reopened ht, ?_, ?_⟩
      · dsimp only
        rw [hfile]
        exact h.start
      · rcases ht.2 with ⟨hclosed, _⟩ | hopen
        · exact Or.inl hclosed
        · -- the new cursor is the start, which is the end
          right
          dsimp only
          rw [hfile, ← h.start, hopen, ← h.file]
          rfl
    · intro e t he
      obtain ⟨rfl, rfl⟩ := he
      have hsame : { σ.writer with file := σ.reader.file } = σ.writer := by rw [h.file]
      rw [hsame]
      exact ⟨by simp, h⟩

theorem always_of_bare (h : Bare σ) (hxs : ∀ x ∈ xs, x.Valid)
    (hread : ∀ x ∈ xs, x.isRead = false) : AlwaysInSize 24 xs σ := by
  induction xs generalizing σ with
  | nil => exact h.inSize
  | cons x xs ih =>
    refine ⟨h.inSize, ?_⟩
    apply (HandleCall.run_bare h (hxs x List.mem_cons_self) (hread x List.mem_cons_self)).mono
    · intro _ τ hτ
      exact ih hτ (fun y hy => hxs y (List.mem_cons_of_mem _ hy))
        (fun y hy => hread y (List.mem_cons_of_mem _ hy))
    · exact fun e τ hτ => ⟨hτ.1, hτ.2.inSize⟩

theorem HandleCall.run_armed (h : Armed σ) (hx : x.Valid) (hread : x.isRead = false) :
    Sat x.run σ (fun _ τ => Armed τ) := by
  cases x with
  | write r behind => exact (sat_of_run (h.write_bare hx.2 behind)).mpr h
  | nextRecordSize => exact (sat_of_run h.nextRecordSize_bare).mpr h
  | read buffer bufferSize => cases hread
  | reopen junk =>
    have hlen : σ.reader.file.length = 24 := h.usable.length
    have hmagic : σ.reader.file.header.magic = kMagic := by
      rw [h.file]
      exact h.magic
    have hopen := openFile_eq junk.construct .read h.ideal (by rw [hlen]; norm_num) hmagic
    have hrun : openAgain junk.construct .read σ.reader =
        .ok true (openedState junk.construct σ.reader.file .read σ.reader.outcomes) := by
      unfold openAgain
      rw [hopen]
    have hbare := HandleCall.run_bare h.toBare (x := .reopen junk) trivial rfl
    have hwriter : { σ.writer with file := σ.reader.file } = σ.writer := by rw [h.file]
    have hshared : (HandleCall.reopen junk).run σ = .ok ()
        ⟨σ.writer, openedState junk.construct σ.reader.file .read σ.reader.outcomes⟩ := by
      rw [HandleCall.run, run_bind]
      unfold asReader
      rw [hrun]
      dsimp only [openedState]
      rw [hwriter]
      rfl
    rw [sat_of_run hshared]
    refine ⟨hbare.1 _ _ hshared, ?_, fun i => h.ideal (i+3), h.magic⟩
    exact ⟨by simp [openedState], by simp [openedState], hlen, hlen, by norm_num⟩

/-- A `Read` divides by the size of the area. -/
theorem read_armed (h : Armed σ) (buffer : Buffer) (bufferSize : ℕ) :
    Stops .divisionByZero (HandleCall.read buffer bufferSize).run σ := by
  have hwindow : Stops Fault.divisionByZero (readVarint σ.reader.self.readOffset) σ.reader := by
    have hmax : Sat bytesMax σ.reader (fun m t => m = 0 ∧ t = σ.reader) :=
      (sat_bytesMax h.usable).mpr ⟨rfl, rfl⟩
    -- the first reduction of `WrappingRead` is the one that faults
    have htransfer (n : ℕ) : Stops Fault.divisionByZero
        (wrappingRead σ.reader.self.readOffset uninitialized n) σ.reader := by
      unfold wrappingRead
      apply hmax.stops
      intro m t hm
      obtain ⟨rfl, rfl⟩ := hm
      have hzero : Stops Fault.divisionByZero (modulo σ.reader.self.readOffset 0) σ.reader :=
        ⟨σ.reader, rfl⟩
      exact hzero.bind
    unfold readVarint
    exact (htransfer Varint.kMaxSize).bind
  have hread : Stops Fault.divisionByZero (CircularLog.read buffer bufferSize) σ.reader := by
    rw [CircularLog.read, stops_of_run (get_run σ.reader), if_neg (by simp [h.usable.isClosed])]
    exact hwindow.bind
  obtain ⟨t, ht⟩ := hread
  have hshared : Stops Fault.divisionByZero (asReader (CircularLog.read buffer bufferSize)) σ := by
    refine ⟨⟨{ σ.writer with file := t.file }, t⟩, ?_⟩
    unfold asReader
    rw [ht]
  exact hshared.bind

theorem not_read_of_always (h : Armed σ) (hxs : ∀ x ∈ xs, x.Valid) (hall : AlwaysInSize 24 xs σ) :
    ∀ x ∈ xs, x.isRead = false := by
  -- every call before the first `Read` leads on to an `Armed` state
  induction xs generalizing σ with
  | nil => simp
  | cons x xs ih =>
    have hfirst : x.isRead = false := by
      cases x with
      | read buffer bufferSize =>
        obtain ⟨τ, hne, _⟩ := hall.2.of_stops (read_armed h buffer bufferSize)
        exact absurd rfl hne
      | _ => rfl
    obtain ⟨_, τ, hrun, hτ⟩ := HandleCall.run_armed h (hxs x List.mem_cons_self) hfirst
    have hrest := ih hτ (fun y hy => hxs y (List.mem_cons_of_mem _ hy)) (hall.2.1 _ τ hrun)
    intro y hy
    rcases List.mem_cons.mp hy with rfl | hy
    · exact hfirst
    · exact hrest y hy

end Shared

theorem AlwaysInSize.here {size : ℕ} {xs : List HandleCall} {σ : Shared}
    (h : AlwaysInSize size xs σ) : InSize size σ := by
  cases xs with
  | nil => exact h
  | cons x xs => exact h.1

theorem opened_held {M : ℕ} {self junk : Ringfile} {outcomes outcomes' : ℕ → Outcome} {s t : State}
    (hs : create self none (M+24) outcomes = .opened s)
    (ht : openFile junk (some s.file) .read outcomes' = .opened t) :
    Held M ⟨s, t⟩ ∧ s.file.header = ⟨kMagic, 0, 0, 0⟩ ∧ t.self.readOffset = 0 := by
  obtain ⟨_, hsize, rfl⟩ := create_opened hs
  obtain ⟨_, _, rfl⟩ := openFile_opened ht
  refine ⟨⟨createdState_writable self outcomes hsize, Or.inr ?_, rfl, ?_⟩, rfl, rfl⟩
  · exact ⟨by simp [openedState], by simp [openedState], rfl, rfl, hsize⟩
  · simp [createdState, openedState]

theorem opened_bare {self junk : Ringfile} {outcomes outcomes' : ℕ → Outcome} {s t : State}
    (hs : create self none 24 outcomes = .opened s)
    (ht : openFile junk (some s.file) .read outcomes' = .opened t) : Bare ⟨s, t⟩ := by
  obtain ⟨hheld, hheader, hcursor⟩ := opened_held (M := 0) hs ht
  refine ⟨hheld, ?_, Or.inr ?_⟩
  · dsimp only
    rw [hheader]
  · dsimp only
    rw [hheader, hcursor]

/-- A file keeps its size exactly when it was created with room behind the header. Below that
`bytes_max()` wraps around, and without an area at all a `Read` divides by zero. -/
theorem fixed_size_iff {size : ℕ} (hpos : 0 < size) {xs : List HandleCall}
    (hxs : ∀ x ∈ xs, x.Valid) :
    KeepsSize size xs ↔ 25 ≤ size ∨ (size = 24 ∧ ∀ x ∈ xs, x.isRead = false) := by
  constructor
  · intro hkeeps
    by_cases hlarge : 25 ≤ size
    · exact Or.inl hlarge
    -- one run in which no call fails is enough
    have hs := create_allDone blank hpos (show size < 2^63 by omega)
    have ht : openFile blank.construct (some (createdState blank size allDone).file) .read allDone =
        .opened (openedState blank.construct (createdState blank size allDone).file .read
          allDone) :=
      openFile_eq _ _ (fun _ => rfl) (by change size ≠ 0; omega) rfl
    have hall := hkeeps blank blank allDone allDone _ _ hs ht
    have hsize : size = 24 := by
      -- in a smaller file the subtraction wraps around
      have hmax := hall.here.writer
      change ((sub64 size headerSize : ℕ) : ℤ) = _ at hmax
      unfold sub64 headerSize at hmax
      omega
    subst hsize
    have hbare := opened_bare hs ht
    have husable : Usable 0 (openedState blank.construct (createdState blank 24 allDone).file .read
        allDone) :=
      ⟨by simp [openedState], by simp [openedState], rfl, rfl, by norm_num⟩
    exact Or.inr ⟨rfl, not_read_of_always ⟨hbare, husable, fun _ => rfl, rfl⟩ hxs hall⟩
  · intro hcond self junk outcomes outcomes' s t hs ht
    rcases hcond with hlarge | ⟨rfl, hread⟩
    · obtain ⟨M, rfl⟩ := Nat.exists_eq_add_of_le' (show 24 ≤ size by omega)
      exact always_of_held (opened_held hs ht).1 (by omega) hxs
    · exact always_of_bare (opened_bare hs ht) hxs hread

/-- Both records are accepted, and the second one makes the first one go. -/
theorem fixed_size_iff_evicting :
    KeepsSize 50 [.write [1, 2, 3] uninitialized, .nextRecordSize, .read uninitialized 3,
      .write (List.replicate 22 4) uninitialized, .reopen blank, .read uninitialized 22] :=
  (fixed_size_iff (by norm_num) (by simp [HandleCall.Valid])).mpr (Or.inl (by norm_num))

/-- `--size 10`: the area seems to be of `2^64-14` bytes, and the first record takes the file over
its size. -/
theorem tiny_file_grows :
    ∃ s, create blank none 10 allDone = .opened s ∧ s.self.bytesMax = 2^64-14 ∧
      s.file.length = 10 ∧
      resultOf (do
        let ok ← write (memory [1] uninitialized) 1
        return (ok, (← get).file.length)) s = some (true, 26) ∧
      ¬KeepsSize 10 [.write [1] uninitialized] := by
  refine ⟨_, rfl, by decide, rfl, by decide +kernel, ?_⟩
  intro hkeeps
  have hopen : openFile blank.construct (some (createdState blank 10 allDone).file) .read allDone =
      .opened (openedState blank.construct (createdState blank 10 allDone).file .read
        allDone) := rfl
  have hall := hkeeps blank blank allDone allDone _ _ rfl hopen
  have hmax : ((sub64 10 24 : ℕ) : ℤ) = 10-24 := hall.here.writer
  exact absurd hmax (by decide)

end CircularLog
