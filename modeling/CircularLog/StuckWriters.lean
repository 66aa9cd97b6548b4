import CircularLog.MendedRuns

/-! What an end offset that was left unreduced costs. The loop that makes room cannot evict the
record that goes over the end of the area: with the start behind the end by a lap nothing is
available, and the assertion stops the writer. -/
namespace CircularLog

section StuckWriters
variable {M need : ℕ} {s t : State} {f : File} {r q : Record} {L : List Record} {a : Attempt}

/-- A pop looks at the length of the first frame only, wherever the others are. -/
theorem popRecord_front (hw : Writable M s) (hi : Ideal s) (hM : 10 ≤ M)
    (hne : s.file.header.startOffset ≠ s.file.header.endOffset) (hr : r.length < 2^64)
    (hst : Stored M s.file.data s.file.header.startOffset (Varint.encode r.length))
    (hb : s.file.header.startOffset+frameSize r < 2^64) :
    ∃ t, popRecord s = .ok true t ∧ Writable M t ∧ Ideal t ∧
      t.file = s.file.withStart ((s.file.header.startOffset+frameSize r)%M) := by
  suffices hsat : Sat popRecord s (fun ok t => ok = true ∧ Writable M t ∧ Ideal t ∧
      t.file = s.file.withStart ((s.file.header.startOffset+frameSize r)%M)) by
    obtain ⟨ok, t, ht, rfl, hrest⟩ := hsat
    exact ⟨t, ht, hrest⟩
  have hsum : u64 (Varint.size r.length+r.length) = frameSize r := u64_of_lt (by
    change frameSize r < 2^64
    omega)
  rw [popRecord, sat_bind, sat_mappedHeader hw.usable.header, if_neg hne]
  apply (readVarint_spec hw.usable hM hr hst).bind
  intro v u hspec
  obtain ⟨hm, hu, _, hv⟩ := hspec
  rw [hv hi]
  dsimp only
  have hwu := hm.writable hw
  rw [hsum, sat_bind, sat_advanceStart hwu (by omega), sat_pure, hu, u64_of_lt hb]
  refine ⟨rfl, (hwu.assigned _ _ ?_).assigned _ _ rfl, hm.ideal hi, rfl⟩
  dsimp only [File.withStart]
  rw [hu]

/-- One turn of the loop from here trips the assertion. -/
theorem popUntilAvailable_trips {before after : ℕ} (hbefore : bytesAvailable s = .ok before s)
    (hshort : before < need) (hpop : popRecord s = .ok true t)
    (hafter : bytesAvailable t = .ok after t) (hless : after ≤ before) (fuel : ℕ) :
    Stops .assertion (popUntilAvailable need (fuel+1)) s := by
  rw [popUntilAvailable, stops_of_run hbefore, if_pos hshort, stops_of_run hpop]
  -- the pop is done, and the loop asks whether there is more room than before
  change Stops .assertion (bytesAvailable >>= fun a => assert (before < a) >>= fun _ =>
    popUntilAvailable need fuel) t
  rw [stops_of_run hafter]
  apply Stops.bind
  rw [assert, if_neg (by omega)]
  exact ⟨t, rfl⟩

/-- With the end a lap ahead of the start nothing is available. -/
theorem bytesAvailable_lap (hw : Writable M s)
    (hlap : s.file.header.endOffset = s.file.header.startOffset+M)
    (hs : s.file.header.startOffset < M) : bytesAvailable s = .ok 0 s := by
  have hb := hw.bound
  apply run_of_sat
  have hused : sub64 s.file.header.endOffset s.file.header.startOffset = M := by
    rw [hlap, sub64_of_le (by omega) (by omega)]
    omega
  rw [bytesAvailable, sat_bind, bytesUsed, sat_bind, sat_mappedHeader hw.usable.header,
    if_pos (by omega), sat_pure, sat_bind, sat_bytesMax hw.usable, sat_pure, hused,
    sub64_of_le (by omega) le_rfl]
  exact ⟨Nat.sub_self M, rfl⟩

/-- The records before the last one are evicted, the last one is not. -/
theorem popUntilAvailable_stuck (hw : Writable M s) (hi : Ideal s) (hM : 10 ≤ M)
    (hl : Layout M f (L ++ [r])) (hlast : f.header.startOffset+used L < M)
    (hover : f.header.endOffset < f.header.startOffset)
    (hs : s.file = f.withEnd (f.header.endOffset+M)) (hbig : M < need+frameSize r)
    (fuel : ℕ) (hfuel : L.length < fuel) :
    Stops .assertion (popUntilAvailable need fuel) s := by
  have hb := hw.bound
  obtain ⟨fuel, rfl⟩ : ∃ n, fuel = n+1 := ⟨fuel-1, by omega⟩
  -- on the records in front of the last one
  induction L generalizing f s fuel with
  | nil =>
    rw [List.nil_append] at hl
    have hstart := hl.start_lt
    have hfits := hl.fits
    have hend := hl.end_eq
    rw [used_cons, used_nil, Nat.add_zero] at hfits hend
    have htorn := (Torn.end_ hover hstart).bytesAvailable_run hw.usable hl hs
    rw [used_cons, used_nil, Nat.add_zero] at htorn
    have hpop := popRecord_front (r := r) hw hi hM (by rw [hs]; dsimp only [File.withEnd]; omega)
      (hl.record_lt (by omega)) (by rw [hs]; exact hl.head.1)
      (by rw [hs]; dsimp only [File.withEnd]; omega)
    obtain ⟨t, ht, hwt, _, hfile⟩ := hpop
    rw [hs] at hfile
    dsimp only [File.withEnd] at hfile
    -- the start has come to where the end would be
    rw [← hend] at hfile
    have hlap := bytesAvailable_lap hwt (by rw [hfile]; rfl) (by rw [hfile]; exact hl.end_lt)
    exact popUntilAvailable_trips htorn (by omega) ht hlap (Nat.zero_le _) fuel
  | cons q L ih =>
    rw [List.cons_append] at hl
    have hstart := hl.start_lt
    have hfits := hl.fits
    rw [used_cons, used_append, used_cons, used_nil, Nat.add_zero] at hfits
    rw [used_cons] at hlast
    have hq := frameSize_pos (r := q) (by omega)
    have hmod := Nat.mod_eq_of_lt (show f.header.startOffset+frameSize q < M by omega)
    have htorn := (Torn.end_ hover hstart).bytesAvailable_run hw.usable hl hs
    have hpop := popRecord_front (r := q) hw hi hM (by rw [hs]; dsimp only [File.withEnd]; omega)
      (hl.record_lt (by omega)) (by rw [hs]; exact hl.head.1)
      (by rw [hs]; dsimp only [File.withEnd]; omega)
    obtain ⟨t, ht, hwt, hit, hfile⟩ := hpop
    rw [hs] at hfile
    dsimp only [File.withEnd] at hfile
    rw [hmod] at hfile
    have hl' : Layout M (f.withStart (f.header.startOffset+frameSize q)) (L ++ [r]) := by
      have hrest := Layout.withStart (P := [q]) (K := L ++ [r]) hl
      rwa [used_cons, used_nil, Nat.add_zero, hmod] at hrest
    have hover' : f.header.endOffset < f.header.startOffset+frameSize q := by omega
    have hin : f.header.startOffset+frameSize q < M := by omega
    have hlater := (Torn.end_ (h := (f.withStart (f.header.startOffset+frameSize q)).header) hover'
      hin).bytesAvailable_run hwt.usable hl' hfile
    -- an earlier record goes as it should, and the loop is not done
    have hmore : M-used (q :: (L ++ [r])) < M-used (L ++ [r]) := by
      rw [used_cons, used_append, used_cons, used_nil, Nat.add_zero]
      omega
    have hshort : M-used (q :: (L ++ [r])) < need := by
      rw [used_cons, used_append, used_cons, used_nil, Nat.add_zero]
      omega
    rw [List.length_cons] at hfuel
    obtain ⟨fuel, rfl⟩ : ∃ n, fuel = n+1 := ⟨fuel-1, by omega⟩
    rw [popUntilAvailable, stops_of_run htorn, if_pos hshort, stops_of_run ht]
    change Stops .assertion (bytesAvailable >>= fun n =>
      assert (M-used (q :: (L ++ [r])) < n) >>= fun _ => popUntilAvailable need (fuel+1)) t
    rw [stops_of_run hlater, stops_of_run (assert_run hmore t)]
    apply ih hwt hit hl' _ hover' hfile fuel (by omega)
    dsimp only [File.withStart]
    omega

theorem startRecord_stuck {n : ℕ} (hw : Writable M s) (hi : Ideal s) (hM : 10 ≤ M)
    (hl : Layout M f (L ++ [r])) (hlast : f.header.startOffset+used L < M)
    (hover : f.header.endOffset < f.header.startOffset)
    (hs : s.file = f.withEnd (f.header.endOffset+M)) (hsmall : Varint.size n+n < M)
    (hbig : M < Varint.size n+n+frameSize r) : Stops .assertion (startRecord n) s := by
  have hb := hw.bound
  have hv : n < 2^64 := by omega
  have hfits := hl.fits
  rw [used_append, used_cons, used_nil, Nat.add_zero] at hfits
  have hlength := length_le_used (L := L) (by omega)
  rw [startRecord, stops_of_run (reached_run (Varint.byteSize_eq hv) s),
    stops_of_run (bytesMax_run hw.usable), u64_of_lt (by omega), if_neg (by omega),
    u64_of_lt (by omega : Varint.size n+n < 2^64)]
  apply Stops.bind
  exact popUntilAvailable_stuck hw hi hM hl hlast hover hs hbig _ (by omega)

end StuckWriters

/-- A process has died between the two stores that moved the end over the last record, which goes
over the end of the area. No attempt that has to evict that record gets beyond the assertion,
although no call fails: not a plain write, and not a session. -/
theorem torn_end_stops_writers {M : ℕ} (hM : 10 ≤ M) {f : File} {L : List Record} {r : Record}
    (hl : Layout M f (L ++ [r])) (hlast : f.header.startOffset+used L < M)
    (hover : f.header.endOffset < f.header.startOffset) {s : State}
    (hw : Writable M s) (hi : Ideal s) (hclosed : s.self.streamingWriteOffset = 0)
    (hs : s.file = f.withEnd (f.header.endOffset+M)) {a : Attempt} (hsmall : a.frameSize < M)
    (hbig : M < a.frameSize+frameSize r) : Stops .assertion a.run s := by
  have hstart : Stops .assertion (startRecord a.length) s :=
    startRecord_stuck hw hi hM hl hlast hover hs hsmall hbig
  have hsession : Stops .assertion (streamingWriteStart a.length) s := by
    rw [streamingWriteStart, stops_of_run (get_run s), stops_of_run (assert_run hclosed s)]
    exact hstart.bind
  cases a with
  | write r behind => exact hstart.bind
  | stream chunks behind => exact hsession.bind
  | abandoned n chunks behind => exact hsession.bind

theorem torn_end_stops_writers_two :
    ∃ s, openFile blank.construct (some ((File.holding 10 6 [[1, 2, 3, 4, 5]]).withEnd 12)) .append
        allDone = .opened s ∧
      Stops .assertion (Attempt.write [6, 7, 8, 9, 10] uninitialized).run s := by
  have hf : WellFormed 10 (File.holding 10 6 [[1, 2, 3, 4, 5]]) [[1, 2, 3, 4, 5]] :=
    wellFormed_holding (by norm_num) (by decide) (by norm_num) (by simp)
  refine ⟨openedState blank.construct _ .append allDone, openFile_eq _ _ (fun _ => rfl) (by decide)
    (by decide), ?_⟩
  apply torn_end_stops_writers (L := []) (r := [1, 2, 3, 4, 5]) (by norm_num) hf.layout
  · decide
  · decide
  · exact ⟨rfl, rfl, rfl, rfl, by norm_num⟩
  · exact fun _ => rfl
  · rfl
  · rfl
  · decide
  · decide

end CircularLog
