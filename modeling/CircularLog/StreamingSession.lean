import CircularLog.RecordWrite

/-! Streaming sessions. The state between the calls of a session is one of the record write they
amount to, with the running offset not reduced. -/
namespace CircularLog

/-- One `StreamingWrite` for each chunk, stopping at the first that fails. -/
def streamAll (behind : Buffer) : List (List UInt8) → Op Bool
  | [] => return true
  | chunk :: chunks => do
    if !(← streamingWrite (memory chunk behind) chunk.length) then
      return false
    streamAll behind chunks

/-- A whole session for a record of `n` bytes. -/
def streamRecord (behind : Buffer) (n : ℕ) (chunks : List (List UInt8)) : Op Bool := do
  if !(← streamingWriteStart n) then
    return false
  if !(← streamAll behind chunks) then
    return false
  streamingWriteFinish

/-- A session for `n` bytes that started in `s` and has written `sent` so far. -/
structure Session (M : ℕ) (s t : State) (P K : List Record) (n : ℕ) (sent : List UInt8) :
    Prop where
  self : t.self = { s.self with
    error := t.self.error
    streamingWriteOffset := s.file.header.endOffset+Varint.size n+sent.length
    streamingWriteBytesRemaining := n-sent.length }
  writing : Writing M (Covers M s.file.header.endOffset (Varint.size n+n)) s t P K
  stored : Stored M t.file.data s.file.header.endOffset (Varint.encode n ++ sent)
  sent_le : sent.length ≤ n
  kept : K = keep frameSize (M-(Varint.size n+n)) (P ++ K)

/-- How the start of a session for `n` bytes ends. -/
inductive SessionStart (M n : ℕ) (s : State) (L : List Record) : Bool → State → Prop
  | refused (hbig : M < Varint.size n+n+1) : SessionStart M n s L false s
  | cut {t : State} {P K : List Record} (hL : L = P ++ K) (hcut : Cut M s t P K)
      (hfault : ¬Ideal s) : SessionStart M n s L false t
  | opened {t : State} {P K : List Record} (hsmall : Varint.size n+n < M) (hL : L = P ++ K)
      (hs : Session M s t P K n []) : SessionStart M n s L true t

section StreamingSession
variable {M n : ℕ} {s t : State} {P K L : List Record} {sent : List UInt8}

theorem Session.writable (hs : Session M s t P K n sent) (h : Writable M s) : Writable M t := by
  apply h.congr _ _ _ hs.writing.file.length
  all_goals rw [hs.self]

theorem Session.fits (hs : Session M s t P K n sent) (hn : Varint.size n+n < M) :
    used K+(Varint.size n+n) ≤ M := used_keep_le hn.le hs.kept

theorem streamingWriteStart_spec (h : Writable M s) (hM : 10 ≤ M) (hl : Layout M s.file L)
    (hopen : s.self.streamingWriteOffset = 0) (hn : Varint.size n+n+1 < 2^64) :
    Sat (streamingWriteStart n) s (SessionStart M n s L) := by
  have hb := h.bound
  have hlt := hl.end_lt
  rw [streamingWriteStart, sat_bind, sat_get, sat_bind, sat_assert hopen]
  apply (startRecord_spec h hl (Or.inl hM) hn).bind
  intro r t hstart
  cases hstart with
  | refused hbig => exact sat_pure.mpr (.refused hbig)
  | cut hL _ hcut hfault => exact sat_pure.mpr (.cut hL hcut hfault)
  | @started _ P K hsmall hL hself hK hw hst =>
    subst hL
    -- transfers do not touch the mapping
    have hheader : t.self.header ≠ .null := by
      rw [hself]
      exact h.usable.header
    dsimp only
    rw [sat_bind, sat_mappedHeader hheader, hw.endOffset, u64_of_lt (by omega), sat_bind,
      setStreamingWrite, sat_modify, sat_pure]
    refine .opened hsmall rfl ⟨?_, ⟨hw.file, hw.steps, hw.ideal⟩, by simpa using hst, by simp, hK⟩
    rw [hself]
    rfl

theorem streamingWrite_spec (h : Writable M s) (hl : Layout M s.file (P ++ K))
    (hs : Session M s t P K n sent) (hn : Varint.size n+n < M) (ptr : Buffer) {m : ℕ} (h1 : 1 ≤ m)
    (hm : sent.length+m ≤ n) :
    Sat (streamingWrite ptr m) t (fun ok u => (ok = false → Cut M s u P K) ∧
      (ok = true → Session M s u P K n (sent ++ contents ptr m)) ∧ (Ideal s → ok = true)) := by
  have hb := h.bound
  have hlt := hl.end_lt
  have hfit := hs.fits hn
  have hwt := hs.writable h
  -- the running offset points behind what was sent, the length included
  have hoff : t.self.streamingWriteOffset =
      s.file.header.endOffset+(Varint.encode n ++ sent).length := by
    rw [hs.self, List.length_append, Varint.encode_length, ← Nat.add_assoc]
  have hrem : t.self.streamingWriteBytesRemaining = n-sent.length := by rw [hs.self]
  have hlen : (Varint.encode n ++ sent).length = Varint.size n+sent.length := by simp
  rw [streamingWrite, sat_bind, sat_get, sat_bind, sat_assert (by omega), hoff, hrem]
  apply (wrappingWrite_spec hwt _ ptr h1 (by omega)).bind
  intro ok u hspec
  obtain ⟨hmv, hwrite, hi⟩ := hspec
  have hw := hs.writing.moved (hmv.mono (S := Covers M s.file.header.endOffset (Varint.size n+n))
    (fun p hp => hp.sub (by omega))) hl hfit
  rw [sat_unless]
  constructor
  · intro hok
    exact ⟨fun _ => hw.cut hl hfit, by simp,
      fun hd => absurd (hi (hs.writing.ideal hd)) (ne_true_of_eq_false hok)⟩
  · intro hok
    rw [sat_bind, setStreamingWrite, sat_modify, sat_pure, u64_of_lt (by omega),
      sub64_of_le (by omega) (by omega)]
    refine ⟨by simp, fun _ => ?_, fun _ => rfl⟩
    refine ⟨?_, ⟨hw.file, hw.steps, hw.ideal⟩, ?_, by simpa using hm, hs.kept⟩
    · dsimp only
      rw [hmv.self, hs.self]
      simp only [List.length_append, contents_length, Varint.encode_length, Nat.add_assoc,
        Nat.sub_sub]
    · rw [← List.append_assoc, stored_append]
      constructor
      · -- a chunk goes behind what was sent before
        apply hs.stored.congr
        intro p hp
        exact hmv.file.data p (hp.disjoint (by omega))
      · rw [stored_iff]
        intro i hin
        rw [contents_getElem]
        exact hwrite hok i (by simpa using hin)

theorem streamingWriteFinish_spec (h : Writable M s) (hl : Layout M s.file (P ++ K))
    (hs : Session M s t P K n sent) (hn : Varint.size n+n < M) (hall : sent.length = n) :
    Sat streamingWriteFinish t (fun ok u => ok = true ∧
      u.self = { s.self with
        error := u.self.error
        streamingWriteOffset := 0
        streamingWriteBytesRemaining := 0 } ∧
      Completed M s u P K (Varint.encode n ++ sent)) := by
  have hb := h.bound
  have hlt := hl.end_lt
  have hwt := hs.writable h
  have hlen : (Varint.encode n ++ sent).length = Varint.size n+n := by simp [hall]
  have hw := hs.writing
  rw [← hlen] at hw
  have hoff : t.self.streamingWriteOffset =
      s.file.header.endOffset+(Varint.encode n ++ sent).length := by
    rw [hs.self, List.length_append, Varint.encode_length, ← Nat.add_assoc]
  have hrem : t.self.streamingWriteBytesRemaining = 0 := by
    rw [hs.self, hall]
    exact Nat.sub_self n
  -- the running offset, reduced, is the end that `Write` would set
  have hc := hw.complete hs.stored
  rw [streamingWriteFinish, sat_bind, sat_get, sat_bind, sat_assert hrem, sat_bind,
    sat_assignEnd hwt (by omega), hoff, hrem, sat_bind, setStreamingWrite, sat_modify, sat_pure]
  refine ⟨rfl, ?_, hc.file, hc.steps, hc.ideal⟩
  dsimp only [State.assigned]
  rw [hs.self]

theorem streamAll_spec (h : Writable M s) (hl : Layout M s.file (P ++ K))
    (hn : Varint.size n+n < M) (behind : Buffer) (chunks : List (List UInt8))
    (hne : ∀ c ∈ chunks, c ≠ []) (hs : Session M s t P K n sent)
    (hm : sent.length+chunks.flatten.length ≤ n) :
    Sat (streamAll behind chunks) t (fun ok u => (ok = false → Cut M s u P K) ∧
      (ok = true → Session M s u P K n (sent ++ chunks.flatten)) ∧ (Ideal s → ok = true)) := by
  -- the session absorbs one chunk at a time
  induction chunks generalizing t sent with
  | nil => exact sat_pure.mpr ⟨by simp, fun _ => by simpa using hs, fun _ => rfl⟩
  | cons c chunks ih =>
    rw [List.flatten_cons, List.length_append] at hm
    have hc : 1 ≤ c.length := List.length_pos_iff.mpr (hne c List.mem_cons_self)
    apply (streamingWrite_spec h hl hs hn (memory c behind) hc (by omega)).bind
    intro ok u hspec
    obtain ⟨hfail, hdone, hi⟩ := hspec
    rw [sat_unless]
    constructor
    · -- the chunk failed, and the ones behind it are not tried
      intro hok
      exact ⟨fun _ => hfail hok, by simp, fun hd => absurd (hi hd) (ne_true_of_eq_false hok)⟩
    · intro hok
      have hs' := hdone hok
      rw [contents_memory] at hs'
      refine (ih (fun d hd => hne d (List.mem_cons_of_mem _ hd)) hs' ?_).mono ?_
      · rw [List.length_append]
        omega
      · intro ok' v hspec
        obtain ⟨hfail', hdone', hi'⟩ := hspec
        refine ⟨hfail', fun hok' => ?_, hi'⟩
        rw [List.flatten_cons, ← List.append_assoc]
        exact hdone' hok'

theorem streamRecord_spec (h : Writable M s) (hM : 10 ≤ M) (hl : Layout M s.file L)
    (hopen : s.self.streamingWriteOffset = 0) (behind : Buffer) (chunks : List (List UInt8))
    (hne : ∀ c ∈ chunks, c ≠ []) (hsum : chunks.flatten.length = n)
    (hn : Varint.size n+n+1 < 2^64) :
    Sat (streamRecord behind n chunks) s (fun ok t =>
      WriteResult M n s L (Varint.encode n ++ chunks.flatten) ok t ∧
        (ok = true → t.self = { s.self with
          error := t.self.error
          streamingWriteOffset := 0
          streamingWriteBytesRemaining := 0 })) := by
  apply (streamingWriteStart_spec h hM hl hopen hn).bind
  intro ok t hstart
  cases hstart with
  | refused hbig => exact sat_pure.mpr ⟨.refused hbig, by simp⟩
  | cut hL hcut hfault => exact sat_pure.mpr ⟨.cut hL hcut hfault, by simp⟩
  | @opened _ P K hsmall hL hs =>
    subst hL
    apply (streamAll_spec h hl hsmall behind chunks hne hs (by simp [hsum])).bind
    intro ok' u hspec
    obtain ⟨hfail, hdone, hi⟩ := hspec
    rw [sat_unless]
    constructor
    · -- a chunk failed, and the session is not finished
      intro hok'
      refine ⟨.cut rfl (hfail hok') ?_, by simp⟩
      intro hd
      exact absurd (hi hd) (ne_true_of_eq_false hok')
    · intro hok'
      have hsession := hdone hok'
      rw [List.nil_append] at hsession
      refine (streamingWriteFinish_spec h hl hsession hsmall hsum).mono ?_
      intro ok'' v hspec
      obtain ⟨hok'', hself, hc⟩ := hspec
      subst hok''
      exact ⟨.completed hsmall rfl hsession.kept hc, fun _ => hself⟩

end StreamingSession

end CircularLog
