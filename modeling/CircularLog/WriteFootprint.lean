import CircularLog.PartialWrites
import CircularLog.ReadOnlyHandle

/-! The cells an attempt to add a record can change: those of its own frame, behind the end of the
records. This needs no more of the file than its size, so it also bounds what a reader that fell
behind can lose. -/
namespace CircularLog

/-- `g` differs from `f` in its two offsets and in the data cells of `R` only. -/
structure File.Marked (R : ℕ → Prop) (f g : File) : Prop where
  magic : g.header.magic = f.header.magic
  length : g.length = f.length
  data : ∀ p, ¬R p → g.data p = f.data p

/-- From `s` to `t` no cells but those of `R` were changed, by no single step, and the object can
still write and has its cursor where it was. -/
structure Footprint (M : ℕ) (R : ℕ → Prop) (s t : State) : Prop where
  writable : Writable M t
  cursor : t.self.readOffset = s.self.readOffset
  file : s.file.Marked R t.file
  steps : ∃ new, t.steps = new ++ s.steps ∧ ∀ x ∈ new, s.file.Marked R x.file

/-- The length of the record an attempt is to add. -/
def Attempt.length : Attempt → ℕ
  | .write r _ => r.length
  | .stream chunks _ => chunks.flatten.length
  | .abandoned n _ _ => n

/-- What its frame takes. -/
def Attempt.frameSize (a : Attempt) : ℕ := Varint.size a.length+a.length

section WriteFootprint
variable {M e : ℕ} {R : ℕ → Prop} {s t u : State}

theorem File.Marked.refl (R : ℕ → Prop) (f : File) : f.Marked R f := ⟨rfl, rfl, fun _ _ => rfl⟩

theorem File.Marked.trans {f g h : File} (hfg : f.Marked R g) (hgh : g.Marked R h) :
    f.Marked R h :=
  ⟨hgh.magic.trans hfg.magic, hgh.length.trans hfg.length,
    fun p hp => (hgh.data p hp).trans (hfg.data p hp)⟩

theorem File.Within.marked {f g : File} (h : f.Within R g) : f.Marked R g :=
  ⟨by rw [h.header], h.length, h.data⟩

theorem Footprint.refl (R : ℕ → Prop) (h : Writable M s) : Footprint M R s s :=
  ⟨h, rfl, .refl R _, [], rfl, by simp⟩

theorem Footprint.trans (h : Footprint M R s t) (h' : Footprint M R t u) : Footprint M R s u := by
  -- the steps of the second part start from what the first part left
  obtain ⟨new, hnew, hx⟩ := h.steps
  obtain ⟨new', hnew', hx'⟩ := h'.steps
  refine ⟨h'.writable, h'.cursor.trans h.cursor, h.file.trans h'.file, new' ++ new, ?_, ?_⟩
  · rw [hnew', hnew, List.append_assoc]
  · intro x hm
    rcases List.mem_append.mp hm with hm | hm
    · exact h.file.trans (hx' x hm)
    · exact hx x hm

theorem Moved.footprint (h : Moved M R s t) (hs : Writable M s) : Footprint M R s t := by
  obtain ⟨new, hnew, hx⟩ := h.steps
  refine ⟨h.writable hs, ?_, h.file.marked, new, hnew, fun x hm => (hx x hm).2.marked⟩
  rw [h.self]

/-- A store to one of the offsets. -/
theorem footprint_assigned (hs : Writable M s) (event : Event) {g : File}
    (hg : s.file.Marked R g) : Footprint M R s (s.assigned event g) := by
  refine ⟨hs.assigned event g hg.length, rfl, hg, [⟨event, g⟩], rfl, ?_⟩
  intro x hx
  rw [List.mem_singleton.mp hx]
  exact hg

/-- While the record is under way: only cells of `R` have changed since `s`, and the end offset has
not moved from `e`. -/
def Underway (M : ℕ) (R : ℕ → Prop) (s : State) (e : ℕ) (t : State) : Prop :=
  Footprint M R s t ∧ t.file.header.endOffset = e

theorem underway_indifferent : Indifferent (Underway M R s e) where
  called := by
    intro t event position h
    have hm := h.1.trans (u := t.called event t.file position)
      ⟨h.1.writable.congr rfl rfl rfl rfl, rfl, .refl R _, [⟨event, t.file⟩], rfl, by
        simp [File.Marked.refl]⟩
    exact ⟨hm, h.2⟩
  assigned := by
    intro t self h hfd hheader hsize hcursor
    have hw : Writable M { t with self := self } := h.1.writable.congr hfd hheader hsize rfl
    exact ⟨⟨hw, hcursor.trans h.1.cursor, h.1.file, h.1.steps⟩, h.2⟩

/-- What an end of `x` in either way needs, when `x` is known to end well. -/
theorem Sat.maintains {α : Type} {I : State → Prop} {x : Op α}
    (h : ∀ t, I t → Sat x t (fun _ u => I u)) : Maintains I x :=
  fun t ht => (h t ht).ends _

theorem advanceStart_underway (hM : 0 < M) (n : ℕ) :
    Maintains (Underway M R s e) (advanceStart n) := by
  apply Sat.maintains
  intro t h
  rw [sat_advanceStart h.1.writable hM]
  have hfirst := footprint_assigned (R := R) h.1.writable .advance
    (g := t.file.withStart (u64 (t.file.header.startOffset+n))) ⟨rfl, rfl, fun _ _ => rfl⟩
  have hsecond := footprint_assigned (R := R) hfirst.writable .reduce
    (g := t.file.withStart (u64 (t.file.header.startOffset+n)%M)) ⟨rfl, rfl, fun _ _ => rfl⟩
  exact ⟨h.1.trans (hfirst.trans hsecond), h.2⟩

theorem assignEnd_footprint (h : Footprint M R s t) (hM : 0 < M) (n : ℕ) :
    Sat (assignEnd n) t (fun _ u => Footprint M R s u) := by
  rw [sat_assignEnd h.writable hM]
  have hfirst := footprint_assigned (R := R) h.writable .advance (g := t.file.withEnd n)
    ⟨rfl, rfl, fun _ _ => rfl⟩
  have hsecond := footprint_assigned (R := R) hfirst.writable .reduce (g := t.file.withEnd (n%M))
    ⟨rfl, rfl, fun _ _ => rfl⟩
  exact h.trans (hfirst.trans hsecond)

theorem popRecord_underway (hM : 0 < M) : Maintains (Underway M R s e) popRecord := by
  apply mappedHeader_maintains.bind
  intro h
  apply (maintains_pure _).ite
  apply (readVarint_maintains underway_indifferent _).bind
  intro d
  cases d with
  | none => exact maintains_pure _
  | some d => exact (advanceStart_underway hM _).bind (fun _ => maintains_pure _)

theorem popUntilAvailable_underway (hM : 0 < M) (need fuel : ℕ) :
    Maintains (Underway M R s e) (popUntilAvailable need fuel) := by
  -- on the turns that are left
  induction fuel with
  | zero =>
    apply bytesAvailable_maintains.bind
    intro a
    exact (maintains_throw _).ite (maintains_pure _)
  | succ fuel ih =>
    apply bytesAvailable_maintains.bind
    intro a
    refine Maintains.ite ?_ (maintains_pure _)
    apply (popRecord_underway hM).bind
    intro ok
    apply (maintains_pure _).ite
    apply bytesAvailable_maintains.bind
    intro b
    exact (assert_maintains _).bind (fun _ => ih)

/-- A transfer into cells of `R`. -/
theorem wrappingWrite_underway (off : ℕ) (ptr : Buffer) {n : ℕ} (h1 : 1 ≤ n) (hn : n ≤ M)
    (hR : ∀ p, Covers M off n p → R p) :
    Maintains (Underway M R s e) (wrappingWrite off ptr n) := by
  apply Sat.maintains
  intro t h
  refine (wrappingWrite_spec h.1.writable off ptr h1 hn).mono ?_
  intro ok u hspec
  have hm := hspec.1.mono hR
  refine ⟨h.1.trans (hm.footprint h.1.writable), ?_⟩
  rw [hm.file.header]
  exact h.2

/-- A fault leaves a footprint as well. -/
theorem Maintains.underway {α : Type} {x : Op α} (hx : Maintains (Underway M R s e) x)
    (ht : Underway M R s e t) :
    Ends x t (fun _ u => Underway M R s e u) (fun _ u => Footprint M R s u) :=
  (hx t ht).mono (fun _ _ hu => hu) (fun _ _ hu => hu.1)

/-- The beginning that `Write` and `StreamingWriteStart` share stays in the cells of the frame,
which is known to fit when it succeeds. -/
theorem startRecord_underway (hM : 10 ≤ M) {n : ℕ} (hn : n < 2^63)
    (hR : ∀ p, Covers M e (Varint.size n+n) p → R p) (ht : Underway M R s e t) :
    Ends (startRecord n) t (fun r u => Underway M R s e u ∧
        ∀ k, r = some k → k = Varint.size n ∧ Varint.size n+n < M)
      (fun _ u => Footprint M R s u) := by
  have hv : n < 2^64 := by omega
  have hpos := Varint.size_pos hv
  have hle := Varint.size_le hv
  have hbyte : reached (Varint.byteSize n) t = .ok (Varint.size n) t :=
    run_of_sat ((sat_reached (Varint.byteSize_eq hv)).mpr ⟨rfl, rfl⟩)
  have hmax : bytesMax t = .ok M t :=
    run_of_sat ((sat_bytesMax ht.1.writable.usable).mpr ⟨rfl, rfl⟩)
  rw [startRecord, ends_of_run hbyte, ends_of_run hmax, ends_ite, u64_of_lt (by omega)]
  constructor
  · intro _
    exact ends_pure.mpr ⟨ht, by simp⟩
  · intro hsmall
    apply ((popUntilAvailable_underway (by omega) _ _).underway ht).bind
    intro ok u hu
    rw [ends_ite]
    refine ⟨fun _ => ends_pure.mpr ⟨hu, by simp⟩, fun _ => ?_⟩
    rw [ends_of_run (mappedHeader_run hu.1.writable.usable.header), hu.2]
    -- the length is the front of the frame
    apply ((wrappingWrite_underway e _ hpos (by omega)
      (fun p hp => hR p (hp.sub (k := 0) (by omega)))).underway hu).bind
    intro ok' v hv'
    rw [ends_ite]
    refine ⟨fun _ => ends_pure.mpr ⟨hv', by simp⟩, fun _ => ends_pure.mpr ⟨hv', ?_⟩⟩
    intro k hk
    cases hk
    exact ⟨rfl, by omega⟩

theorem write_footprint (hM : 10 ≤ M) (h : Writable M s) (he : s.file.header.endOffset < M)
    (ptr : Buffer) {n : ℕ} (h1 : 1 ≤ n) (hn : n < 2^63) :
    Ends (write ptr n) s
      (fun _ t => Footprint M (Covers M s.file.header.endOffset (Varint.size n+n)) s t)
      (fun _ t => Footprint M (Covers M s.file.header.endOffset (Varint.size n+n)) s t) := by
  have hb := h.bound
  apply (startRecord_underway hM hn (fun _ hp => hp) ⟨.refl _ h, rfl⟩).bind
  intro r t hr
  obtain ⟨ht, hsize⟩ := hr
  cases r with
  | none => exact ends_pure.mpr ht.1
  | some k =>
    obtain ⟨rfl, hfit⟩ := hsize k rfl
    dsimp only
    rw [ends_of_run (mappedHeader_run ht.1.writable.usable.header), ht.2, u64_of_lt (by omega)]
    -- the payload is the rest of it
    have hpayload := wrappingWrite_underway
      (R := Covers M s.file.header.endOffset (Varint.size n+n)) (s := s)
      (e := s.file.header.endOffset) (s.file.header.endOffset+Varint.size n) ptr h1 (by omega)
      (fun p hp => hp.sub (by omega))
    apply (hpayload.underway ht).bind
    intro ok u hu
    rw [ends_ite]
    refine ⟨fun _ => ends_pure.mpr hu.1, fun _ => ?_⟩
    rw [ends_of_run (mappedHeader_run hu.1.writable.usable.header)]
    apply (assignEnd_footprint hu.1 (by omega) _).ends_bind
    intro _ v hv
    exact ends_pure.mpr hv

/-- A session for `n` bytes is open and `sent` of them are written. -/
structure Sending (M : ℕ) (R : ℕ → Prop) (s : State) (e n sent : ℕ) (t : State) : Prop where
  underway : Underway M R s e t
  offset : t.self.streamingWriteOffset = e+Varint.size n+sent
  remaining : t.self.streamingWriteBytesRemaining = n-sent
  fits : Varint.size n+n < M

theorem streamingWriteStart_underway (hM : 10 ≤ M) {n : ℕ} (hn : n < 2^63) (he : e < M)
    (hR : ∀ p, Covers M e (Varint.size n+n) p → R p) (ht : Underway M R s e t) :
    Ends (streamingWriteStart n) t
      (fun ok u => Underway M R s e u ∧ (ok = true → Sending M R s e n 0 u))
      (fun _ u => Footprint M R s u) := by
  have hb := ht.1.writable.bound
  rw [streamingWriteStart, ends_of_run (get_run t)]
  apply ((assert_maintains _).underway ht).bind
  intro _ u hu
  apply (startRecord_underway hM hn hR hu).bind
  intro r v hr
  obtain ⟨hv, hsize⟩ := hr
  cases r with
  | none => exact ends_pure.mpr ⟨hv, by simp⟩
  | some k =>
    obtain ⟨rfl, hfit⟩ := hsize k rfl
    dsimp only
    rw [ends_of_run (mappedHeader_run hv.1.writable.usable.header), hv.2, u64_of_lt (by omega)]
    apply Sat.ends
    rw [sat_bind, setStreamingWrite, sat_modify, sat_pure]
    have hset := underway_indifferent.assigned { v.self with
      streamingWriteOffset := e+Varint.size n
      streamingWriteBytesRemaining := n } hv rfl rfl rfl rfl
    exact ⟨hset, fun _ => ⟨hset, rfl, rfl, hfit⟩⟩

theorem streamingWrite_sending {n sent m : ℕ} (he : e < M)
    (hR : ∀ p, Covers M e (Varint.size n+n) p → R p) (ht : Sending M R s e n sent t) (ptr : Buffer)
    (h1 : 1 ≤ m) (hm : sent+m ≤ n) :
    Ends (streamingWrite ptr m) t
      (fun ok u => Underway M R s e u ∧ (ok = true → Sending M R s e n (sent+m) u))
      (fun _ u => Footprint M R s u) := by
  have hb := ht.underway.1.writable.bound
  have hfit := ht.fits
  rw [streamingWrite, ends_of_run (get_run t)]
  dsimp only
  rw [ht.remaining, ht.offset]
  apply ((assert_maintains _).underway ht.underway).bind
  intro _ u hu
  -- a chunk goes behind what was sent before
  apply ((wrappingWrite_underway _ ptr h1 (by omega) (fun p hp => hR p (by
    rw [Nat.add_assoc] at hp
    exact hp.sub (by omega)))).underway hu).bind
  intro ok v hv
  rw [ends_ite]
  refine ⟨fun _ => ends_pure.mpr ⟨hv, by simp⟩, fun _ => ?_⟩
  apply Sat.ends
  rw [sat_bind, setStreamingWrite, sat_modify, sat_pure, u64_of_lt (by omega),
    sub64_of_le (by omega) (by omega)]
  have hset := underway_indifferent.assigned { v.self with
    streamingWriteOffset := e+Varint.size n+sent+m
    streamingWriteBytesRemaining := n-sent-m } hv rfl rfl rfl rfl
  exact ⟨hset, fun _ => ⟨hset, by dsimp only; omega, by dsimp only; omega, hfit⟩⟩

theorem streamAll_sending {n sent : ℕ} (he : e < M)
    (hR : ∀ p, Covers M e (Varint.size n+n) p → R p) (behind : Buffer)
    (chunks : List (List UInt8)) (hne : ∀ c ∈ chunks, c ≠ []) (ht : Sending M R s e n sent t)
    (hsum : sent+chunks.flatten.length ≤ n) :
    Ends (streamAll behind chunks) t (fun _ u => Underway M R s e u)
      (fun _ u => Footprint M R s u) := by
  -- on the chunks, with the bytes sent before each
  induction chunks generalizing t sent with
  | nil => exact ends_pure.mpr ht.underway
  | cons c chunks ih =>
    rw [List.flatten_cons, List.length_append] at hsum
    have hc : 1 ≤ c.length := List.length_pos_iff.mpr (hne c List.mem_cons_self)
    apply (streamingWrite_sending he hR ht (memory c behind) hc (by omega)).bind
    intro ok u hu
    rw [ends_ite]
    refine ⟨fun _ => ends_pure.mpr hu.1, fun hok => ?_⟩
    exact ih (fun d hd => hne d (List.mem_cons_of_mem _ hd)) (hu.2 (by simpa using hok)) (by omega)

theorem streamingWriteFinish_footprint (hM : 0 < M) (ht : Underway M R s e t) :
    Ends streamingWriteFinish t (fun _ u => Footprint M R s u) (fun _ u => Footprint M R s u) := by
  rw [streamingWriteFinish, ends_of_run (get_run t)]
  dsimp only
  apply ((assert_maintains _).underway ht).bind
  intro _ u hu
  apply (assignEnd_footprint hu.1 hM _).ends_bind
  intro _ v hv
  apply Sat.ends
  rw [sat_bind, setStreamingWrite, sat_modify, sat_pure]
  exact ⟨hv.writable.congr rfl rfl rfl rfl, hv.cursor, hv.file, hv.steps⟩

/-- Whatever the system answers, wherever it stops and whatever the file holds, an attempt changes
no cells but those of its frame. -/
theorem Attempt.footprint (hM : 10 ≤ M) (h : Writable M s) (he : s.file.header.endOffset < M)
    {a : Attempt} (ha : a.Valid) :
    Ends a.run s
      (fun _ t => Footprint M (Covers M s.file.header.endOffset a.frameSize) s t)
      (fun _ t => Footprint M (Covers M s.file.header.endOffset a.frameSize) s t) := by
  have hstart (R : ℕ → Prop) : Underway M R s s.file.header.endOffset s := ⟨.refl R h, rfl⟩
  cases a with
  | write r behind =>
    exact write_footprint hM h he _ (List.length_pos_iff.mpr ha.1) ha.2
  | stream chunks behind =>
    obtain ⟨hne, hlen⟩ := ha
    apply (streamingWriteStart_underway hM hlen he (fun _ hp => hp) (hstart _)).bind
    intro ok t ht
    rw [ends_ite]
    refine ⟨fun _ => ends_pure.mpr ht.1.1, fun hok => ?_⟩
    apply (streamAll_sending he (fun _ hp => hp) behind chunks hne (ht.2 (by simpa using hok))
      (by simp)).bind
    intro ok' u hu
    rw [ends_ite]
    exact ⟨fun _ => ends_pure.mpr hu.1, fun _ => streamingWriteFinish_footprint (by omega) hu⟩
  | abandoned n chunks behind =>
    obtain ⟨hne, hsum, hn⟩ := ha
    apply (streamingWriteStart_underway hM hn he (fun _ hp => hp) (hstart _)).bind
    intro ok t ht
    rw [ends_ite]
    refine ⟨fun _ => ends_pure.mpr ht.1.1, fun hok => ?_⟩
    apply (streamAll_sending he (fun _ hp => hp) behind chunks hne (ht.2 (by simpa using hok))
      (by simpa using hsum)).bind
    intro ok' u hu
    exact ends_pure.mpr hu.1

end WriteFootprint

end CircularLog
