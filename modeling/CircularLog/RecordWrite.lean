import CircularLog.Eviction

/-! What a plain `Write` does to the file, for every answer of the system. Until its last two stores
nothing but free cells is written, so a write that is cut short leaves a file that still holds a
suffix of the records. -/
namespace CircularLog

/-- The steps from `s` to `t` popped `P` off the records `P ++ K` and wrote free cells. -/
def PopSteps (M : ℕ) (s t : State) (P K : List Record) : Prop :=
  ∃ new, t.steps = new ++ s.steps ∧ (∀ x ∈ new, PopStep M s.file P K x) ∧
    ∀ A r B, P = A ++ r :: B →
      ⟨.advance, s.file.withStart ((s.file.header.startOffset+used A)%M+frameSize r)⟩ ∈ new

/-- Between `s` and `t` the records `P` were popped and cells of `R` were written. -/
structure Writing (M : ℕ) (R : ℕ → Prop) (s t : State) (P K : List Record) : Prop where
  file : (s.file.withStart ((s.file.header.startOffset+used P)%M)).Within R t.file
  steps : PopSteps M s t P K
  ideal : Ideal s → Ideal t

/-- A write that was cut short between `s` and `t`. -/
structure Cut (M : ℕ) (s t : State) (P K : List Record) : Prop where
  file : Pending M s.file P K t.file
  steps : ∃ new, t.steps = new ++ s.steps ∧ ∀ x ∈ new, PopStep M s.file P K x

/-- The file after a record's `bytes` were written behind the end of `f` and the end moved over
them, `P` having been popped. -/
structure Filled (M : ℕ) (f : File) (P : List Record) (bytes : List UInt8) (g : File) : Prop where
  header : g.header = { f.header with
    startOffset := (f.header.startOffset+used P)%M
    endOffset := (f.header.endOffset+bytes.length)%M }
  length : g.length = f.length
  outside : ∀ p, ¬Covers M f.header.endOffset bytes.length p → g.data p = f.data p
  stored : Stored M g.data f.header.endOffset bytes

/-- A write of `bytes` that ran to its end: the two stores that move the end are the last steps. -/
structure Completed (M : ℕ) (s t : State) (P K : List Record) (bytes : List UInt8) : Prop where
  file : Filled M s.file P bytes t.file
  steps : ∃ new, t.steps = ⟨.reduce, t.file⟩ ::
      ⟨.advance, t.file.withEnd (s.file.header.endOffset+bytes.length)⟩ :: (new ++ s.steps) ∧
    (∀ x ∈ new, PopStep M s.file P K x) ∧
    ∀ A r B, P = A ++ r :: B →
      ⟨.advance, s.file.withStart ((s.file.header.startOffset+used A)%M+frameSize r)⟩ ∈ new
  ideal : Ideal s → Ideal t

/-- How the beginning that `Write` and `StreamingWriteStart` share ends, for a record of `n` bytes
on a ring that holds `L`: with a refusal, with a call that failed, or with the length written. -/
inductive StartResult (M n : ℕ) (s : State) (L : List Record) : Option ℕ → State → Prop
  | refused (hbig : M < Varint.size n+n+1) : StartResult M n s L none s
  | cut {t : State} {P K : List Record} (hL : L = P ++ K)
      (hself : t.self = { s.self with error := t.self.error }) (hcut : Cut M s t P K)
      (hfault : ¬Ideal s) : StartResult M n s L none t
  | started {t : State} {P K : List Record} (hsmall : Varint.size n+n < M) (hL : L = P ++ K)
      (hself : t.self = { s.self with error := t.self.error })
      (hK : K = keep frameSize (M-(Varint.size n+n)) L)
      (hw : Writing M (Covers M s.file.header.endOffset (Varint.size n+n)) s t P K)
      (hst : Stored M t.file.data s.file.header.endOffset (Varint.encode n)) :
      StartResult M n s L (some (Varint.size n)) t

/-- How a write of a record of `n` bytes, `bytes` with its length, ends. -/
inductive WriteResult (M n : ℕ) (s : State) (L : List Record) (bytes : List UInt8) :
    Bool → State → Prop
  | refused (hbig : M < Varint.size n+n+1) : WriteResult M n s L bytes false s
  | cut {t : State} {P K : List Record} (hL : L = P ++ K) (hcut : Cut M s t P K)
      (hfault : ¬Ideal s) : WriteResult M n s L bytes false t
  | completed {t : State} {P K : List Record} (hsmall : Varint.size n+n < M) (hL : L = P ++ K)
      (hK : K = keep frameSize (M-(Varint.size n+n)) L) (hc : Completed M s t P K bytes) :
      WriteResult M n s L bytes true t

/-- What a write leaves of `L` and its own record. A record that fills the free space exactly makes
the offsets equal, and nothing is left. -/
def afterWrite (M : ℕ) (L : List Record) (r : Record) : List Record :=
  let K := keep frameSize (M-frameSize r) L
  if used K+frameSize r = M then [] else K ++ [r]

section RecordWrite
variable {M : ℕ} {s t u : State} {f g : File} {P K L : List Record}

/-- The cells behind the end are none of those that hold records. -/
theorem Layout.free (hl : Layout M f (P ++ K)) {need : ℕ} (hfit : used K+need ≤ M) {p : ℕ}
    (hp : Covers M (f.header.startOffset+used P) (used K) p) :
    ¬Covers M f.header.endOffset need p := by
  rw [hl.end_eq, covers_mod, used_append, ← Nat.add_assoc]
  exact hp.disjoint hfit

theorem Evicted.writing (h : Evicted M s t P K) (R : ℕ → Prop) : Writing M R s t P K := by
  refine ⟨?_, h.steps, h.ideal⟩
  rw [h.file]
  exact .refl _ _

theorem Writing.endOffset {R : ℕ → Prop} (h : Writing M R s t P K) :
    t.file.header.endOffset = s.file.header.endOffset := by
  rw [h.file.header]
  rfl

theorem Evicted.cut (h : Evicted M s t P K) : Cut M s t P K := by
  obtain ⟨new, hnew, hx, _⟩ := h.steps
  refine ⟨?_, new, hnew, hx⟩
  rw [h.file]
  exact pending_withStart M s.file P K

theorem Writing.pending {need : ℕ} (h : Writing M (Covers M s.file.header.endOffset need) s t P K)
    (hl : Layout M s.file (P ++ K)) (hfit : used K+need ≤ M) : Pending M s.file P K t.file :=
  ⟨h.file.header, h.file.length, fun _ hp => h.file.data _ (hl.free hfit hp)⟩

theorem Writing.cut {need : ℕ} (h : Writing M (Covers M s.file.header.endOffset need) s t P K)
    (hl : Layout M s.file (P ++ K)) (hfit : used K+need ≤ M) : Cut M s t P K := by
  obtain ⟨new, hnew, hx, _⟩ := h.steps
  exact ⟨h.pending hl hfit, new, hnew, hx⟩

theorem Writing.moved {need : ℕ}
    (h : Writing M (Covers M s.file.header.endOffset need) s t P K)
    (hu : Moved M (Covers M s.file.header.endOffset need) t u)
    (hl : Layout M s.file (P ++ K)) (hfit : used K+need ≤ M) :
    Writing M (Covers M s.file.header.endOffset need) s u P K := by
  have hp := h.pending hl hfit
  obtain ⟨new, hnew, hx, hraw⟩ := h.steps
  obtain ⟨calls, hcalls, hxc⟩ := hu.steps
  refine ⟨h.file.trans hu.file, ⟨calls ++ new, ?_, ?_, ?_⟩, fun hi => hu.ideal (h.ideal hi)⟩
  · rw [hcalls, hnew, List.append_assoc]
  · intro x hm
    rcases List.mem_append.mp hm with hm | hm
    · -- a new step leaves the records that are left alone, since it writes free cells
      obtain ⟨hev, hw⟩ := hxc x hm
      refine ⟨P, [], (List.append_nil P).symm, Or.inl ⟨?_, ?_, ?_, ?_⟩⟩
      · intro he
        rw [he] at hev
        exact hev
      · rw [hw.header, hp.header]
      · rw [hw.length, hp.length]
      · intro p hc
        rw [hw.data p (hl.free hfit hc), hp.live p hc]
    · exact hx x hm
  · intro A r B hAB
    exact List.mem_append_right _ (hraw A r B hAB)

theorem Filled.unique {bytes : List UInt8} {g' : File} (h : Filled M f P bytes g)
    (h' : Filled M f P bytes g') : g = g' := by
  -- each cell was either written or left as it was in `f`
  have hd : g.data = g'.data := by
    funext p
    by_cases hp : Covers M f.header.endOffset bytes.length p
    · obtain ⟨i, hi, rfl⟩ := hp
      rw [stored_iff.mp h.stored i hi, stored_iff.mp h'.stored i hi]
    · rw [h.outside p hp, h'.outside p hp]
  have hh := h.header.trans h'.header.symm
  have hl := h.length.trans h'.length.symm
  cases g
  cases g'
  cases hd
  cases hh
  cases hl
  rfl

/-- The records seen from any offset on, when the frame written behind the end leaves them alone. -/
theorem Filled.layoutFrom {r : Record} {U : List Record} {offset : ℕ} (h : Filled M f P (frame r) g)
    (hl : Layout M (f.withStart offset) U) (hfit : used U+frameSize r ≤ M) :
    Layout M (g.withStart offset) (if used U+frameSize r = M then [] else U ++ [r]) := by
  have hout := h.outside
  have hst := h.stored
  rw [frame_length] at hout
  -- the cells of the frame are free, so the records are in `g` as well, under the header of `f`
  have hmid : Layout M { g with header := (f.withStart offset).header } U := by
    refine Layout.congr hl ?_ ?_
    · rfl
    intro p hp
    apply hout p
    apply Layout.free (P := []) (K := U) hl hfit
    rwa [used_nil, Nat.add_zero]
  have hg : g.withStart offset =
      ({ g with header := (f.withStart offset).header } : File).withEnd
        ((f.header.endOffset+frameSize r)%M) := by
    have hh := h.header
    rw [frame_length] at hh
    cases g
    cases hh
    rfl
  rw [hg]
  split_ifs with hfull
  · exact hmid.withEnd_full hfull
  · exact hmid.withEnd (by omega) hst

theorem Filled.layout {r : Record} (h : Filled M f P (frame r) g) (hl : Layout M f (P ++ K))
    (hr : frameSize r ≤ M) (hK : K = keep frameSize (M-frameSize r) (P ++ K)) :
    Layout M g (afterWrite M (P ++ K) r) := by
  have hfit : used K+frameSize r ≤ M := used_keep_le hr hK
  have hnew := h.layoutFrom hl.withStart hfit
  have hg : g.withStart ((f.header.startOffset+used P)%M) = g := by
    have hh := h.header
    cases g
    cases hh
    rfl
  have hafter : afterWrite M (P ++ K) r = if used K+frameSize r = M then [] else K ++ [r] := by
    unfold afterWrite
    rw [← hK]
  rw [hafter]
  rwa [hg] at hnew

theorem startRecord_spec {n : ℕ} (h : Writable M s) (hl : Layout M s.file L)
    (hM : 10 ≤ M ∨ used L+(Varint.size n+n) ≤ M) (hn : Varint.size n+n+1 < 2^64) :
    Sat (startRecord n) s (StartResult M n s L) := by
  have hb := h.bound
  have hv : n < 2^64 := by omega
  have hsize := Varint.size_pos hv
  rw [startRecord, sat_bind, sat_reached (Varint.byteSize_eq hv), sat_bind, sat_bytesMax h.usable,
    u64_of_lt hn, u64_of_lt (by omega : Varint.size n+n < 2^64), sat_ite]
  constructor
  · -- too big for the buffer
    intro hbig
    rw [sat_pure]
    exact .refused hbig
  · intro hsmall
    apply (popUntilAvailable_spec (by omega) (Varint.size n+n) h hl hM (by omega)).bind
    intro ok t hspec
    obtain ⟨P, K, hL, hev, hkeep, hi⟩ := hspec
    subst hL
    rw [sat_unless]
    constructor
    · -- a pop failed
      intro hok
      exact .cut rfl hev.self hev.cut (fun hd => absurd (hi hd) (ne_true_of_eq_false hok))
    · intro hok
      have hK := hkeep hok
      have hfit : used K+(Varint.size n+n) ≤ M := used_keep_le (by omega) hK
      have hwt := hev.writable h
      -- evicting does not move the end
      have hend := (hev.writing fun _ => False).endOffset
      rw [sat_bind, sat_mappedHeader hwt.usable.header, hend]
      apply (wrappingWrite_spec hwt _ _ hsize (by omega)).bind
      intro ok' u hspec
      obtain ⟨hm, hwrite, hi'⟩ := hspec
      have hm := hm.mono (S := Covers M s.file.header.endOffset (Varint.size n+n))
        (fun p hp => hp.sub (k := 0) (by omega))
      have hself : u.self = { s.self with error := u.self.error } := by rw [hm.self, hev.self]
      have hw := (hev.writing _).moved hm hl hfit
      rw [sat_unless]
      constructor
      · -- the length was not written, or a part of it only
        intro hok'
        exact .cut rfl hself (hw.cut hl hfit)
          (fun hd => absurd (hi' (hev.ideal hd)) (ne_true_of_eq_false hok'))
      · intro hok'
        rw [sat_pure]
        have hst : Stored M u.file.data s.file.header.endOffset (Varint.encode n) := by
          rw [stored_iff]
          intro i hlt
          rw [hwrite hok' i (by simpa using hlt)]
          exact Varint.write_eq_encode hv _ i hlt
        exact .started (by omega) rfl hself hK hw hst

theorem Writing.complete {bytes : List UInt8}
    (h : Writing M (Covers M s.file.header.endOffset bytes.length) s u P K)
    (hst : Stored M u.file.data s.file.header.endOffset bytes) :
    Completed M s ((u.assigned .advance
      (u.file.withEnd (s.file.header.endOffset+bytes.length))).assigned .reduce
      (u.file.withEnd ((s.file.header.endOffset+bytes.length)%M))) P K bytes := by
  obtain ⟨new, hnew, hx, hraw⟩ := h.steps
  refine ⟨⟨?_, h.file.length, h.file.data, hst⟩, ⟨new, ?_, hx, hraw⟩, h.ideal⟩
  · -- the end is stored twice, and the second store is the one that stays
    dsimp only [State.assigned, File.withEnd]
    rw [h.file.header]
    rfl
  · dsimp only [State.assigned]
    rw [hnew]
    rfl

/-- `Write` of `n` bytes, where the size check does not wrap around. -/
theorem write_spec {n : ℕ} (h : Writable M s) (hl : Layout M s.file L)
    (hM : 10 ≤ M ∨ used L+(Varint.size n+n) ≤ M) (ptr : Buffer) (h1 : 1 ≤ n)
    (hn : Varint.size n+n+1 < 2^64) :
    Sat (write ptr n) s (fun ok t =>
      WriteResult M n s L (Varint.encode n ++ contents ptr n) ok t ∧
        t.self = { s.self with error := t.self.error }) := by
  have hb := h.bound
  have hlt := hl.end_lt
  apply (startRecord_spec h hl hM hn).bind
  intro r t hstart
  cases hstart with
  | refused hbig => exact sat_pure.mpr ⟨.refused hbig, rfl⟩
  | cut hL hself hcut hfault => exact sat_pure.mpr ⟨.cut hL hcut hfault, hself⟩
  | @started _ P K hsmall hL hself hK hw hst =>
    subst hL
    have hfit : used K+(Varint.size n+n) ≤ M := used_keep_le hsmall.le hK
    have hwt : Writable M t := h.of_self hself hw.file.length
    have hend := hw.endOffset
    dsimp only
    rw [sat_bind, sat_mappedHeader hwt.usable.header, hend, u64_of_lt (by omega)]
    apply (wrappingWrite_spec hwt _ ptr h1 (by omega)).bind
    intro ok u hspec
    obtain ⟨hm, hwrite, hi⟩ := hspec
    have hmw := hm.mono (S := Covers M s.file.header.endOffset (Varint.size n+n))
      (fun p hp => hp.sub (by omega))
    have hw' := hw.moved hmw hl hfit
    have hself' : u.self = { s.self with error := u.self.error } := by rw [hm.self, hself]
    rw [sat_unless]
    constructor
    · -- the payload was not written, or a part of it only; the end has not moved
      intro hok
      refine ⟨.cut rfl (hw'.cut hl hfit) ?_, hself'⟩
      intro hd
      exact absurd (hi (hw.ideal hd)) (ne_true_of_eq_false hok)
    · intro hok
      have hwu := hm.writable hwt
      have hend' : u.file.header.endOffset = s.file.header.endOffset := by rw [hm.file.header, hend]
      have hlen : (Varint.encode n ++ contents ptr n).length = Varint.size n+n := by simp
      have hbytes : Stored M u.file.data s.file.header.endOffset
          (Varint.encode n ++ contents ptr n) := by
        rw [stored_append]
        constructor
        · -- the payload starts behind the header
          apply hst.congr
          intro p hp
          apply hm.file.data p
          rw [Varint.encode_length] at hp
          exact hp.disjoint (by omega)
        · -- and is what the pointer holds
          rw [stored_iff]
          intro i hin
          rw [contents_getElem, Varint.encode_length]
          exact hwrite hok i (by simpa using hin)
      rw [← hlen] at hw'
      rw [sat_bind, sat_mappedHeader hwu.usable.header, sat_bind, sat_assignEnd hwu (by omega),
        sat_pure, hend', u64_of_lt (by omega : Varint.size n+n < 2^64), u64_of_lt (by omega),
        ← hlen]
      exact ⟨.completed hsmall rfl hK (hw'.complete hbytes), hself'⟩

end RecordWrite

end CircularLog
