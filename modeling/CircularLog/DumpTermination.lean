import CircularLog.Orbit
import CircularLog.ReadBack
import CircularLog.UncheckedReads

/-! The loop of `Command::Read` on a file about which nothing is known but its magic number. The
cursor moves by lengths found in the file, and the loop compares it with an offset found there. -/
namespace CircularLog

/-- Where the loop goes on after a turn at cursor `c`, if the turn is a complete one. -/
def nextCursor (stringMaxSize M : ℕ) (f : File) (c : ℕ) : Option ℕ :=
  if c = f.header.endOffset then none
  else match Varint.read (window M f c) with
  | none => none
  | some (n, v) =>
    if stringMaxSize < v ∨ Undeliverable M (u64 (c+n)) v then none
    else some (cursorBehind M c n v)

/-- The loop ends at cursor `c`: `NextRecordSize` returns false, or a length is found for which
there is no string or which `Read` fails to read. -/
def EndsAt (stringMaxSize M : ℕ) (f : File) (c : ℕ) : Prop :=
  c = f.header.endOffset ∨ ∃ n v, Varint.read (window M f c) = some (n, v) ∧
    (stringMaxSize < v ∨ Undeliverable M (u64 (c+n)) v)

/-- The loop comes to an end within `turns` turns, with a result or with the exception of
`resize`. -/
def Ended (stringMaxSize turns : ℕ) (s : State) : Prop :=
  SatOr .lengthError (readLoop stringMaxSize turns) s (fun _ _ => True)

/-- A reader of `f` with its cursor at `c`. -/
structure ReaderAt (M : ℕ) (f : File) (c : ℕ) (s : State) : Prop where
  usable : Usable M s
  ideal : Ideal s
  file : s.file = f
  cursor : s.self.readOffset = c

section DumpTermination
variable {stringMaxSize M c c' : ℕ} {s t : State} {f : File}

theorem ReaderAt.moved (h : ReaderAt M f c s) (hm : Moved M (fun _ => False) s t)
    (hf : t.file = s.file) : ReaderAt M f c t := by
  refine ⟨hm.usable h.usable, hm.ideal h.ideal, hf.trans h.file, ?_⟩
  rw [hm.self]
  exact h.cursor

theorem nextCursor_some (h : nextCursor stringMaxSize M f c = some c') : c ≠ f.header.endOffset ∧
    ∃ n v, Varint.read (window M f c) = some (n, v) ∧ v ≤ stringMaxSize ∧
      ¬Undeliverable M (u64 (c+n)) v ∧ c' = cursorBehind M c n v := by
  unfold nextCursor at h
  split_ifs at h with hend
  cases hd : Varint.read (window M f c) with
  | none =>
    rw [hd] at h
    cases h
  | some d =>
    rw [hd] at h
    dsimp only at h
    split_ifs at h with hstop
    cases h
    rw [not_or] at hstop
    exact ⟨hend, d.1, d.2, rfl, by omega, hstop.2, rfl⟩

/-- Each cursor behind the first lies in the area. -/
theorem nextCursor_lt (hM : 0 < M) (h : nextCursor stringMaxSize M f c = some c') : c' < M := by
  obtain ⟨_, n, v, _, _, _, rfl⟩ := nextCursor_some h
  exact Nat.mod_lt _ hM

theorem EndsAt.stops (h : EndsAt stringMaxSize M f c) : nextCursor stringMaxSize M f c = none := by
  unfold nextCursor
  rcases h with hend | ⟨n, v, hd, hstop⟩
  · rw [if_pos hend]
  · split_ifs
    · rfl
    · rw [hd]
      dsimp only
      rw [if_pos hstop]

/-- The ways a turn can go. -/
theorem turn_cases (stringMaxSize M : ℕ) (f : File) (c : ℕ) :
    EndsAt stringMaxSize M f c ∨ (∃ c', nextCursor stringMaxSize M f c = some c') ∨
      (c ≠ f.header.endOffset ∧ Varint.read (window M f c) = none) := by
  by_cases hend : c = f.header.endOffset
  · exact Or.inl (Or.inl hend)
  cases hd : Varint.read (window M f c) with
  | none => exact Or.inr (Or.inr ⟨hend, rfl⟩)
  | some d =>
    obtain ⟨n, v⟩ := d
    by_cases hstop : stringMaxSize < v ∨ Undeliverable M (u64 (c+n)) v
    · exact Or.inl (Or.inr ⟨n, v, hd, hstop⟩)
    · refine Or.inr (Or.inl ⟨cursorBehind M c n v, ?_⟩)
      rw [nextCursor, if_neg hend, hd]
      dsimp only
      rw [if_neg hstop]

theorem ended_of_endsAt (hM : 10 ≤ M) (h : ReaderAt M f c s)
    (hend : EndsAt stringMaxSize M f c) (turns : ℕ) : Ended stringMaxSize (turns+1) s := by
  unfold Ended
  rw [readLoop]
  -- `NextRecordSize` returns false at `end_offset`, whatever is stored there
  by_cases he : c = f.header.endOffset
  · have hat : s.self.readOffset = s.file.header.endOffset := by rw [h.cursor, h.file, he]
    apply ((nextRecordSize_end h.usable hat).or _).bind
    intro r t hspec
    obtain ⟨rfl, _⟩ := hspec
    exact (sat_pure.mpr trivial).or _
  obtain ⟨n, v, hd, hstop⟩ := hend.resolve_left he
  have hne : s.self.readOffset ≠ s.file.header.endOffset := by rwa [h.cursor, h.file]
  have hds : Varint.read (window M s.file s.self.readOffset) = some (n, v) := by
    rwa [h.cursor, h.file]
  apply ((nextRecordSize_decoded h.usable h.ideal hM hne hds).or _).bind
  intro r t hspec
  obtain ⟨rfl, hm, hf⟩ := hspec
  have ht := h.moved hm hf
  have hdt : Varint.read (window M t.file t.self.readOffset) = some (n, v) := by
    rwa [ht.cursor, ht.file]
  dsimp only
  -- `resize` throws
  by_cases hlong : stringMaxSize < v
  · rw [if_pos hlong]
    exact Or.inl ⟨t, rfl⟩
  rw [if_neg hlong]
  apply ((read_decoded ht.usable ht.ideal hM hdt (fun _ => 0) v).or _).bind
  intro w u hspec
  obtain ⟨ok, record⟩ := w
  obtain ⟨hok, _⟩ := hspec
  -- the transfer of the payload is the one that fails
  have hno : ¬(v ≤ v ∧ ¬Undeliverable M (u64 (t.self.readOffset+n)) v) := by
    rw [ht.cursor]
    exact fun hgo => hgo.2 (hstop.resolve_left hlong)
  rw [decide_eq_false hno] at hok
  change ok = false at hok
  subst hok
  exact (sat_pure.mpr trivial).or _

/-- A length without a last byte makes `Varint::Read` run off its end. -/
theorem not_ended_undecoded (hM : 10 ≤ M) (h : ReaderAt M f c s) (hne : c ≠ f.header.endOffset)
    (hd : Varint.read (window M f c) = none) (turns : ℕ) : ¬Ended stringMaxSize (turns+1) s := by
  have hne' : s.self.readOffset ≠ s.file.header.endOffset := by rwa [h.cursor, h.file]
  have hds : Varint.read (window M s.file s.self.readOffset) = none := by rwa [h.cursor, h.file]
  have hstop := nextRecordSize_undecoded h.usable h.ideal hM hne' hds
  unfold Ended
  rw [readLoop]
  exact hstop.bind.not_satOr (by decide)

/-- A complete turn takes one record and leaves the reader at the next cursor. -/
theorem readLoop_next (hM : 10 ≤ M) (h : ReaderAt M f c s)
    (hc : nextCursor stringMaxSize M f c = some c') :
    ∃ r t, ReaderAt M f c' t ∧ ∀ turns, readLoop stringMaxSize (turns+1) s =
      (readLoop stringMaxSize turns >>= fun w => pure (r :: w.1, w.2)) t := by
  obtain ⟨hne, n, v, hd, hmax, hgo, rfl⟩ := nextCursor_some hc
  have hne' : s.self.readOffset ≠ s.file.header.endOffset := by rwa [h.cursor, h.file]
  have hds : Varint.read (window M s.file s.self.readOffset) = some (n, v) := by
    rwa [h.cursor, h.file]
  obtain ⟨size, t, hsize, rfl, hm, hf⟩ := nextRecordSize_decoded h.usable h.ideal hM hne' hds
  have ht := h.moved hm hf
  have hdt : Varint.read (window M t.file t.self.readOffset) = some (n, v) := by
    rwa [ht.cursor, ht.file]
  -- the buffer is as long as the size just reported
  obtain ⟨⟨ok, record⟩, u, hread, hok, hfu, hi, hself⟩ :=
    read_decoded ht.usable ht.ideal hM hdt (fun _ => 0) v
  have hyes : v ≤ v ∧ ¬Undeliverable M (u64 (t.self.readOffset+n)) v := by
    rw [ht.cursor]
    exact ⟨le_rfl, hgo⟩
  rw [decide_eq_true hyes] at hok
  change ok = true at hok
  subst hok
  refine ⟨contents record v, u, ⟨?_, hi, hfu.trans ht.file, ?_⟩, fun turns => ?_⟩
  · apply ht.usable.congr
    · rw [hself]
    · rw [hself]
    · rw [hself]
    · rw [hfu]
  · rw [hself]
    change cursorBehind M t.self.readOffset n v = _
    rw [ht.cursor]
  · rw [readLoop, run_bind, hsize]
    dsimp only
    rw [if_neg (by omega), run_bind, hread]
    rfl

theorem ended_next (hM : 10 ≤ M) (h : ReaderAt M f c s)
    (hc : nextCursor stringMaxSize M f c = some c') :
    ∃ t, ReaderAt M f c' t ∧
      ∀ turns, Ended stringMaxSize (turns+1) s ↔ Ended stringMaxSize turns t := by
  obtain ⟨r, t, ht, hloop⟩ := readLoop_next hM h hc
  refine ⟨t, ht, fun turns => ?_⟩
  unfold Ended
  rw [satOr_congr (hloop turns)]
  exact satOr_map

/-- A walk that ends nowhere, over lengths that all decode, takes every turn there is. -/
theorem readLoop_forever (hM : 10 ≤ M) (h : ReaderAt M f c s)
    (hwalk : ∀ k d, walk (nextCursor stringMaxSize M f) k c = some d →
      ¬EndsAt stringMaxSize M f d ∧ Varint.read (window M f d) ≠ none) (turns : ℕ) :
    Stops .outOfFuel (readLoop stringMaxSize turns) s := by
  induction turns generalizing c s with
  | zero => exact ⟨s, rfl⟩
  | succ turns ih =>
    obtain ⟨hend, hdecodes⟩ := hwalk 0 c rfl
    rcases turn_cases stringMaxSize M f c with he | ⟨c', hc⟩ | ⟨_, hd⟩
    · exact absurd he hend
    · obtain ⟨r, t, ht, hloop⟩ := readLoop_next hM h hc
      have hrest := ih ht (fun k d hd => hwalk (k+1) d (by rwa [walk_succ hc]))
      unfold Stops
      rw [hloop turns]
      exact stops_map.mpr hrest
    · exact absurd hd hdecodes

/-- The loop ends within `turns` turns when fewer steps of the cursor lead to a place where it
ends. -/
theorem ended_iff (hM : 10 ≤ M) (turns : ℕ) (h : ReaderAt M f c s) :
    Ended stringMaxSize turns s ↔ ∃ k < turns, ∃ d,
      walk (nextCursor stringMaxSize M f) k c = some d ∧ EndsAt stringMaxSize M f d := by
  -- on the turns: a complete one is one step of the walk
  induction turns generalizing c s with
  | zero =>
    constructor
    · intro hended
      have hstop : Stops .outOfFuel (readLoop stringMaxSize 0) s := ⟨s, rfl⟩
      exact absurd hended (hstop.not_satOr (by decide))
    · intro hwalk
      obtain ⟨k, hk, _⟩ := hwalk
      omega
  | succ turns ih =>
    rcases turn_cases stringMaxSize M f c with hend | ⟨c', hc⟩ | ⟨hne, hd⟩
    · constructor
      · exact fun _ => ⟨0, by omega, c, rfl, hend⟩
      · exact fun _ => ended_of_endsAt hM h hend turns
    · obtain ⟨t, ht, hnext⟩ := ended_next hM h hc
      rw [hnext, ih ht]
      constructor
      · intro hwalk
        obtain ⟨k, hk, d, hd, hend⟩ := hwalk
        exact ⟨k+1, by omega, d, by rwa [walk_succ hc], hend⟩
      · intro hwalk
        obtain ⟨k, hk, d, hd, hend⟩ := hwalk
        cases k with
        | zero =>
          -- a cursor at which the loop ends has no next one
          cases hd
          rw [hend.stops] at hc
          cases hc
        | succ k =>
          rw [walk_succ hc] at hd
          exact ⟨k, by omega, d, hd, hend⟩
    · constructor
      · exact fun hended => absurd hended (not_ended_undecoded hM h hne hd turns)
      · intro hwalk
        obtain ⟨k, _, d, hdk, hend⟩ := hwalk
        have hnone : nextCursor stringMaxSize M f c = none := by rw [nextCursor, if_neg hne, hd]
        cases k with
        | zero =>
          cases hdk
          rcases hend with he | ⟨n, v, hdn, _⟩
          · exact absurd he hne
          · rw [hd] at hdn
            cases hdn
        | succ k =>
          rw [walk, hnone] at hdk
          cases hdk

end DumpTermination

/-- The chain of frames from `start_offset` comes to a place where the loop ends. -/
def ChainEnds (stringMaxSize M : ℕ) (f : File) : Prop :=
  ∃ k c, walk (nextCursor stringMaxSize M f) k f.header.startOffset = some c ∧
    EndsAt stringMaxSize M f c

/-- Every length on the chain, up to `end_offset`, has a last byte. -/
def ChainDecodes (stringMaxSize M : ℕ) (f : File) : Prop :=
  ∀ k c, walk (nextCursor stringMaxSize M f) k f.header.startOffset = some c →
    c ≠ f.header.endOffset → Varint.read (window M f c) ≠ none

/-- Where the chain of frames ends, so does the loop of `Command::Read`, with `bytes_max` complete
turns at most. Where it does not although every length on it decodes, the loop goes on forever. -/
theorem dump_ends_iff {stringMaxSize M : ℕ} (hM : 10 ≤ M) {f : File} (hlen : f.length = M+24)
    (hb : M+24 < 2^63) {junk : Ringfile} {s : State}
    (hs : openFile junk.construct (some f) .read allDone = .opened s) :
    (ChainEnds stringMaxSize M f → ∃ k ≤ M, Ended stringMaxSize (k+1) s) ∧
      (f.header.endOffset < M → ChainDecodes stringMaxSize M f → ¬ChainEnds stringMaxSize M f →
        ∀ turns, Stops .outOfFuel (readLoop stringMaxSize turns) s) := by
  have hreader : ReaderAt M f f.header.startOffset s := by
    obtain ⟨_, _, rfl⟩ := openFile_opened hs
    exact ⟨⟨by simp [openedState], by simp [openedState], hlen, hlen, hb⟩, fun _ => rfl, rfl, rfl⟩
  constructor
  · intro hchain
    obtain ⟨k, c, hwalk, hend⟩ := hchain
    have hhalts : HaltsAfter (nextCursor stringMaxSize M f) k f.header.startOffset c :=
      ⟨hwalk, hend.stops⟩
    -- a walk that halts comes to no cursor twice, and all but the first lie in the area
    have hk : k ≤ (Finset.range M).card := hhalts.le_card
      (fun x y hxy => Finset.mem_range.mpr (nextCursor_lt (by omega) hxy))
    rw [Finset.card_range] at hk
    exact ⟨k, hk, (ended_iff hM (k+1) hreader).mpr ⟨k, by omega, c, hwalk, hend⟩⟩
  · intro _ hdecodes hnever
    apply readLoop_forever hM hreader
    intro k d hwalk
    have hend : ¬EndsAt stringMaxSize M f d := fun he => hnever ⟨k, d, hwalk, he⟩
    exact ⟨hend, hdecodes k d hwalk (fun he => hend (Or.inl he))⟩

/-- A file of ten bytes of data, each of them 1, with the given offsets. -/
def File.ones (start end_ : ℕ) : File := ⟨⟨kMagic, 0, start, end_⟩, fun _ => 1, 34⟩

/-- In such a file every record seems to be one byte long. -/
theorem ones_turn (start end_ c : ℕ) :
    Varint.read (window 10 (File.ones start end_) c) = some (1, 1) ∧
      ¬Undeliverable 10 (u64 (c+1)) 1 := by
  constructor
  · change Varint.read (fun _ => 1) = some (1, 1)
    decide
  · have hread := transfer_delivered (show 0 < 10 by norm_num) (by norm_num) (u64 (c+1)) le_rfl
      (by norm_num)
    rw [transferResult_allDone (by norm_num) (by norm_num) _ (by norm_num)] at hread
    exact of_decide_eq_true (Prod.mk.inj hread).1

/-- The cursor moves by two, so it stays even. -/
theorem ones_walk_even {stringMaxSize start end_ k c d : ℕ} (hc : c%2 = 0)
    (h : walk (nextCursor stringMaxSize 10 (File.ones start end_)) k c = some d) : d%2 = 0 := by
  induction k generalizing c with
  | zero =>
    cases h
    exact hc
  | succ k ih =>
    rw [walk] at h
    obtain ⟨c', hnext, hrest⟩ := Option.bind_eq_some_iff.mp h
    obtain ⟨_, n, v, hd, _, _, rfl⟩ := nextCursor_some hnext
    rw [(ones_turn start end_ c).1] at hd
    cases hd
    refine ih ?_ hrest
    unfold cursorBehind u64
    omega

/-- With the start on an even offset and the end on an odd one, the chain goes past the end. -/
theorem ones_not_chainEnds {stringMaxSize : ℕ} (hstring : 1 ≤ stringMaxSize) :
    ¬ChainEnds stringMaxSize 10 (File.ones 0 1) := by
  intro hchain
  obtain ⟨k, d, hwalk, hend⟩ := hchain
  have heven := ones_walk_even (Nat.zero_mod 2) hwalk
  obtain ⟨hone, hgo⟩ := ones_turn 0 1 d
  rcases hend with hat | ⟨n, v, hd, hstop⟩
  · change d = 1 at hat
    omega
  · -- every record on the way can be read
    rw [hone] at hd
    cases hd
    rcases hstop with hlong | hstop
    · omega
    · exact hgo hstop

theorem ones_chainDecodes (stringMaxSize start end_ : ℕ) :
    ChainDecodes stringMaxSize 10 (File.ones start end_) := by
  intro k c _ _
  rw [(ones_turn start end_ c).1]
  exact Option.some_ne_none _

theorem dump_ends_iff_ones :
    (∃ s, openFile blank.construct (some (File.ones 0 6)) .read allDone = .opened s ∧
      ∃ k ≤ 10, Ended (2^62-1) (k+1) s) ∧
    ∃ s, openFile blank.construct (some (File.ones 0 1)) .read allDone = .opened s ∧
      ∀ turns, Stops .outOfFuel (readLoop (2^62-1) turns) s := by
  have hchain : ChainEnds (2^62-1) 10 (File.ones 0 6) := ⟨3, 6, rfl, Or.inl rfl⟩
  constructor
  · exact ⟨_, rfl, (dump_ends_iff (by norm_num) rfl (by norm_num) rfl).1 hchain⟩
  · exact ⟨_, rfl, (dump_ends_iff (by norm_num) rfl (by norm_num) rfl).2 (by decide)
      (ones_chainDecodes _ 0 1) (ones_not_chainEnds (by norm_num))⟩

/-- Wherever a string may hold one byte, the loop never ends on this file. -/
theorem ones_never_ends :
    ∃ s, openFile blank.construct (some (File.ones 0 1)) .read allDone = .opened s ∧
      ∀ stringMaxSize, 1 ≤ stringMaxSize → ∀ turns, ¬Ended stringMaxSize turns s := by
  refine ⟨openedState blank.construct (File.ones 0 1) .read allDone, rfl, ?_⟩
  intro stringMaxSize hstring turns hended
  have hreader : ReaderAt 10 (File.ones 0 1) 0
      (openedState blank.construct (File.ones 0 1) .read allDone) :=
    ⟨⟨by simp [openedState], by simp [openedState], rfl, rfl, by norm_num⟩, fun _ => rfl, rfl, rfl⟩
  obtain ⟨k, _, d, hwalk, hend⟩ := (ended_iff (by norm_num) turns hreader).mp hended
  exact ones_not_chainEnds hstring ⟨k, d, hwalk, hend⟩

end CircularLog
