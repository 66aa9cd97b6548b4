import CircularLog.FileFormat
import CircularLog.TornOffsets

/-! Processes that die anywhere, between the two stores to an offset too. What they leave holds the
last of the records written, an offset may be a lap ahead, and whoever writes next reduces it. -/
namespace CircularLog

/-- The file after the reductions that are missing. -/
def File.settle (M : ℕ) (f : File) : File :=
  (f.withStart (f.header.startOffset%M)).withEnd (f.header.endOffset%M)

/-- Whatever records the file holds, the attempt is spared going over the end of the area where an
offset has done so already. -/
def Attempt.Sparing (M : ℕ) (f : File) (a : Attempt) : Prop :=
  ∀ L, Layout M (f.settle M) L → Spared M (f.settle M).header f.header a.frameSize L

/-- Nor does a process die when its first store to the end leaves it a whole lap ahead of the start:
the area is full then, and the second store would have emptied it. -/
def Move.Mends {ι : Type} [DecidableEq ι] (M : ℕ) (σ : Processes ι) : Move ι → Prop
  | .adds _ a => a.Sparing M σ.file
  | .dies i a n => a.Sparing M σ.file ∧ (σ.move (.dies i a n)).file.header.endOffset ≠
      (σ.move (.dies i a n)).file.header.startOffset+M
  | _ => True

def Mends {ι : Type} [DecidableEq ι] (M : ℕ) : List (Move ι) → Processes ι → Prop
  | [], _ => True
  | m :: ms, σ => m.Mends M σ ∧ Mends M ms (σ.move m)

/-- But for an unreduced offset, `g` holds a suffix of `L` as long as its end is `e`, and of `L` and
`r` once it has moved. -/
def Recovers (M e : ℕ) (r : Record) (L : List Record) (f g : File) : Prop :=
  ∃ k K, k.length = f.length ∧ k.header.magic = f.header.magic ∧ g = k.withHeader g.header ∧
    Torn M k.header g.header ∧ Layout M k K ∧
    ((g.header.endOffset = e ∧ K <:+ L) ∨ (g.header.endOffset ≠ e ∧ K <:+ L ++ [r]))

section Recovery
variable {M e e' : ℕ} {s t : State} {f g : File} {h h' : Header} {r : Record} {L P K : List Record}
  {a : Attempt}

/-- Reducing the offsets gives the file that was meant. -/
theorem Torn.settle (hl : Layout M f L) (ht : Torn M f.header g.header)
    (hg : g = f.withHeader g.header) : g.settle M = f := by
  have hs := Nat.mod_eq_of_lt hl.start_lt
  have he := Nat.mod_eq_of_lt hl.end_lt
  have hreduced : ({ g.header with
      startOffset := g.header.startOffset%M
      endOffset := g.header.endOffset%M } : Header) = f.header := by
    generalize g.header = h' at ht
    cases ht with
    | settled => simp [hs, he]
    | start _ _ => simp [hs, he]
    | end_ _ _ => simp [hs, he]
  calc
    g.settle M = f.withHeader { g.header with
        startOffset := g.header.startOffset%M
        endOffset := g.header.endOffset%M } := by
      conv_lhs => rw [hg]
      rfl
    _ = f := by rw [hreduced]; rfl

/-- A file whose offsets are in range is what it was meant to be. -/
theorem Remains.recovers (h : Remains M a f L g) (hs : g.header.startOffset < M)
    (he : g.header.endOffset < M) :
    ∃ K, Layout M g K ∧ ((g.header.endOffset = f.header.endOffset ∧ K <:+ L) ∨
      (g.header.endOffset ≠ f.header.endOffset ∧ K <:+ L ++ [a.record])) := by
  rcases h.decodes hs he with ⟨hend, K, hK, hl⟩ | ⟨hend, ⟨K, hK, hl⟩, _⟩
  · exact ⟨K, hl, Or.inl ⟨hend, hK⟩⟩
  · exact ⟨K, hl, Or.inr ⟨hend, hK⟩⟩

/-- The first store of a pop that goes over the end of the area. -/
theorem torn_start (hl : Layout M f (P ++ r :: K))
    (hraw : M ≤ (f.header.startOffset+used P)%M+frameSize r) :
    ∃ k, Layout M k K ∧ k.length = f.length ∧ k.header.magic = f.header.magic ∧
      k.header.endOffset = f.header.endOffset ∧
      f.withStart ((f.header.startOffset+used P)%M+frameSize r) =
        k.withHeader { k.header with startOffset := k.header.startOffset+M } ∧
      k.header.startOffset ≤ k.header.endOffset ∧ k.header.endOffset < M := by
  have hpopped := hl.withStart
  have hs := hpopped.start_lt
  have hfits := hpopped.fits
  rw [used_cons] at hfits
  have hk := Layout.withStart (P := [r]) (K := K) hpopped
  have hend := hpopped.end_cases
  dsimp only [File.withStart] at hs hend hk
  rw [used_cons] at hend
  rw [used_cons, used_nil, Nat.add_zero] at hk
  -- the frame goes over the end of the area, and the records behind it begin before the end
  rcases add_mod_cases hs (show frameSize r ≤ M by omega) with ⟨hlt, _⟩ | ⟨_, hmod⟩
  · omega
  rw [hmod] at hk
  refine ⟨_, hk, rfl, rfl, rfl, ?_, ?_, hl.end_lt⟩
  · simp only [File.withStart, File.withHeader]
    rw [Nat.sub_add_cancel hraw]
  · dsimp only
    omega

/-- The first store of a write that goes over the end of the area, unless it fills it. -/
theorem torn_end {bytes : List UInt8} (hl : Layout M f (P ++ K)) (hc : Filled M f P bytes g)
    (hfit : used K+bytes.length ≤ M) (hraw : M ≤ f.header.endOffset+bytes.length)
    (hfull : f.header.endOffset+bytes.length ≠ g.header.startOffset+M) (hb : bytes.length ≤ M) :
    f.header.endOffset+bytes.length = g.header.endOffset+M ∧
      g.header.endOffset < g.header.startOffset ∧ g.header.startOffset < M := by
  have hpopped := hl.withStart
  have hs := hpopped.start_lt
  have hend := hpopped.end_cases
  -- the second store takes a lap off, and what it leaves does not reach the start
  have hstart : g.header.startOffset = (f.header.startOffset+used P)%M := by rw [hc.header]
  have hend' : g.header.endOffset = (f.header.endOffset+bytes.length)%M := by rw [hc.header]
  dsimp only [File.withStart] at hs hend
  rcases add_mod_cases hl.end_lt hb with ⟨hlt, _⟩ | ⟨_, hmod⟩
  · omega
  · omega

/-- What a process leaves on a settled file when it dies after a step of an attempt. -/
theorem AttemptResult.recovers_step {ok : Bool} (h : AttemptResult M s L a ok t) (hb : M+24 < 2^63)
    (hl : Layout M s.file L) (hs : s.steps = []) {x : Step} (hx : x ∈ t.steps)
    (hr : Remains M a s.file L x.file)
    (hfull : x.file.header.endOffset ≠ x.file.header.startOffset+M) :
    Recovers M s.file.header.endOffset a.record L s.file x.file := by
  by_cases hin : x.file.header.startOffset < M ∧ x.file.header.endOffset < M
  · -- with both offsets in range the file is what `Remains` says
    obtain ⟨K, hK, hcases⟩ := hr.recovers hin.1 hin.2
    exact ⟨x.file, K, hr.marked.length, hr.marked.magic, rfl, .settled, hK, hcases⟩
  -- a step of a pop
  have hpop {P K : List Record} (hL : L = P ++ K) (hstep : PopStep M s.file P K x) :
      Recovers M s.file.header.endOffset a.record L s.file x.file := by
    subst hL
    obtain ⟨A, B, rfl, ⟨_, hp⟩ | ⟨_, q, C, rfl, hfile⟩⟩ := hstep
    · rw [List.append_assoc] at hl
      have hlx := hp.layout hl
      exact absurd ⟨hlx.start_lt, hlx.end_lt⟩ hin
    · have hraw : M ≤ (s.file.header.startOffset+used A)%M+frameSize q := by
        rw [hfile] at hin
        by_contra hlt
        exact hin ⟨by simpa [File.withStart] using hlt, hl.end_lt⟩
      rw [show A ++ q :: C ++ K = A ++ q :: (C ++ K) by simp] at hl ⊢
      obtain ⟨k, hk, hlen, hmagic, hend, heq, hle, hlt⟩ := torn_start hl hraw
      rw [hfile, heq]
      refine ⟨k, C ++ K, hlen, hmagic, rfl, .start hle hlt, hk, Or.inl ⟨hend, ?_⟩⟩
      exact ⟨A ++ [q], by simp⟩
  cases h with
  | refused _ =>
    rw [hs] at hx
    cases hx
  | cut _ hL hcut =>
    obtain ⟨new, hnew, hall⟩ := hcut.steps
    rw [hnew, hs, List.append_nil] at hx
    exact hpop hL (hall x hx)
  | @completed _ P K _ hsmall hL hK hc =>
    subst hL
    obtain ⟨new, hnew, hall, _⟩ := hc.steps
    have hlt := hc.file.layout hl hsmall.le hK
    rw [hnew, hs, List.append_nil] at hx
    rcases List.mem_cons.mp hx with rfl | hx
    · exact absurd ⟨hlt.start_lt, hlt.end_lt⟩ hin
    rcases List.mem_cons.mp hx with rfl | hx
    · -- the first store to the end
      have hpos := frameSize_pos (r := a.record) (by omega)
      have hfit : used K+(frame a.record).length ≤ M := by
        rw [frame_length]
        exact used_keep_le hsmall.le hK
      have hraw : M ≤ s.file.header.endOffset+(frame a.record).length := by
        by_contra hno
        exact hin ⟨hlt.start_lt, by simpa [File.withEnd] using hno⟩
      have hsmall' : (frame a.record).length ≤ M := by
        rw [frame_length]
        exact hsmall.le
      obtain ⟨hlap, hbehind, hstart⟩ := torn_end hl hc.file hfit hraw hfull hsmall'
      refine ⟨t.file, _, hc.file.length, ?_, ?_, ?_, hlt, Or.inr ⟨?_, afterWrite_suffix M _ _⟩⟩
      · rw [hc.file.header]
      · rfl
      · dsimp only [File.withEnd]
        rw [hlap]
        exact .end_ hbehind hstart
      · dsimp only [File.withEnd]
        rw [frame_length]
        omega
    · exact hpop rfl (hall x hx)

/-- How many records are there is counted from the end that was found. -/
theorem Tracked.counted {x y : File} (hT : Tracked M e e' x y) {K : List Record}
    (hx : (x.header.endOffset = e ∧ K <:+ L) ∨ (x.header.endOffset ≠ e ∧ K <:+ L ++ [r])) :
    (y.header.endOffset = e' ∧ K <:+ L) ∨ (y.header.endOffset ≠ e' ∧ K <:+ L ++ [r]) := by
  rcases hx with ⟨hsame, hK⟩ | ⟨hmoved, hK⟩
  · exact Or.inl ⟨hT.2.2.mpr hsame, hK⟩
  · exact Or.inr ⟨fun hy => hmoved (hT.2.2.mp hy), hK⟩

/-- What is found where the run on the settled file would have left its offsets in range. -/
theorem Tracked.recovers_settled {x y : File} (hT : Tracked M f.header.endOffset e' x y)
    (ht : Torn M x.header y.header) (hr : Remains M a f L x) (hs : x.header.startOffset < M)
    (he : x.header.endOffset < M) : Recovers M e' a.record L f y := by
  obtain ⟨K, hK, hcases⟩ := hr.recovers hs he
  exact ⟨x, K, hr.marked.length, hr.marked.magic, hT.1, ht, hK, hT.counted hcases⟩

/-- What is found after a step, wherever the run on the settled file would have been. -/
theorem Tracked.recovers {x y : File} (hT : Tracked M f.header.endOffset e' x y)
    (hfull : y.header.endOffset ≠ y.header.startOffset+M) (hr : Remains M a f L x)
    (hx : x.header.endOffset ≠ x.header.startOffset+M →
      Recovers M f.header.endOffset a.record L f x) : Recovers M e' a.record L f y := by
  have ht := hT.2.1 hfull
  have hmeant := hT.recovers_settled ht hr
  generalize hy : y.header = h' at ht
  cases ht with
  | settled =>
    -- then the run on the settled file would have come to the very same file
    have hxy : y = x := by
      rw [hT.1, hy]
      rfl
    subst hxy
    obtain ⟨k, K, hlen, hmagic, hk, htk, hlk, hcases⟩ := hx hfull
    exact ⟨k, K, hlen, hmagic, hk, htk, hlk, hT.counted hcases⟩
  -- with an offset a lap ahead the others are in range
  | start hle hlt => exact hmeant (by omega) hlt
  | end_ hlt hM => exact hmeant hM (by omega)

theorem mem_forall₂ {α β : Type} {R : α → β → Prop} {as : List α} {bs : List β}
    (h : List.Forall₂ R as bs) {b : β} (hb : b ∈ bs) : ∃ a ∈ as, R a b := by
  induction h with
  | nil => cases hb
  | cons hR _ ih =>
    rcases List.mem_cons.mp hb with rfl | hb
    · exact ⟨_, List.mem_cons_self, hR⟩
    · obtain ⟨a, ha, hRa⟩ := ih hb
      exact ⟨a, List.mem_cons_of_mem _ ha, hRa⟩

/-- An attempt that returned, from `s` to `t`, where the end was `e`. -/
structure Mended (M e : ℕ) (a : Attempt) (L : List Record) (f : File) (ok : Bool) (t : State) :
    Prop where
  attached : Attached M t
  file : Recovers M e a.record L f t.file
  ok : ok = true ↔ t.file.header.endOffset ≠ e
  steps : ∀ y ∈ t.steps, y.file.header.endOffset ≠ y.file.header.startOffset+M →
    Recovers M e a.record L f y.file

theorem recovers_refl (hl : Layout M f L) (ht : Torn M f.header g.header)
    (hg : g = f.withHeader g.header) : Recovers M g.header.endOffset a.record L f g :=
  ⟨f, L, rfl, rfl, hg, ht, hl, Or.inl ⟨rfl, List.suffix_rfl⟩⟩

/-- An attempt by any process on a file with an unreduced offset. -/
theorem Attached.attempt_torn (hs : Attached M s) (hM : 10 ≤ M) (hb : M+24 < 2^63)
    (hlen : f.length = M+24) (hl : Layout M f L) (ht : Torn M f.header g.header)
    (hg : g = f.withHeader g.header) (ha : a.Valid)
    (hspared : Spared M f.header g.header a.frameSize L) :
    Ends a.run (s.on g) (Mended M g.header.endOffset a L f)
      (fun _ t => t.file = g ∧ ∀ y ∈ t.steps, y.file = g) := by
  have hrefl := recovers_refl (a := a) hl ht hg
  rcases hs.mode with ⟨hfd, hheader⟩ | ⟨hfd, hheader⟩
  · -- a handle that can write does what it would do on the settled file
    have hw : Writable M (s.on f) := ⟨hfd, hheader, hs.size, hlen, hb⟩
    have hR : Shadows M f.header.endOffset g.header.endOffset 0 (s.on f) (s.on g) :=
      ⟨f.header, g.header, ⟨rfl, hg, rfl, rfl, rfl, .nil⟩, ht, rfl, rfl⟩
    have htwin := a.run_twin hw hM hl ha hR hspared
    have hsettled := (a.run_result hM hw hl ha).and (a.footprint hM hw hl.end_lt ha)
    apply (htwin.ends hsettled).mono
    · intro ok t hspec
      obtain ⟨_, s', ⟨rfl, hmatched⟩, hresult, hfoot⟩ := hspec
      obtain ⟨hremains, ⟨K, hK⟩, hok⟩ := hresult.remains hb hl hfoot.file
      refine ⟨?_, ?_, ?_, ?_⟩
      · have hattached := hfoot.writable.attached
        refine ⟨?_, ?_⟩
        · rw [hmatched.self]
          exact hattached.size
        · rw [hmatched.self]
          exact hattached.mode
      · exact hmatched.file.recovers_settled hmatched.torn hremains hK.start_lt hK.end_lt
      · rw [hok]
        exact not_congr hmatched.file.2.2.symm
      · intro y hy hfull
        obtain ⟨x, hx, hT⟩ := mem_forall₂ hmatched.steps hy
        obtain ⟨new, hnew, hxs⟩ := hfoot.steps
        have hr := hresult.remains_step hb hl rfl hx (hxs x (by simpa [hnew] using hx)) hfoot.file
        exact hT.recovers hfull hr (hresult.recovers_step hb hl rfl hx hr)
    · intro e t hspec
      obtain ⟨s', rfl, _⟩ := hspec
      exact ⟨rfl, by simp⟩
  · -- one that cannot write leaves the file alone
    have hbarred := unchanged_barred (s := s.on g) hfd hheader
    apply (a.run_barred hbarred ⟨.refl _, rfl⟩).mono
    · intro ok t hspec
      obtain ⟨rfl, hsame, _⟩ := hspec
      have hfile : t.file = g := hsame.file
      refine ⟨hsame.attached ⟨hs.size, hs.mode⟩, ?_, ?_, ?_⟩
      · rw [hfile]
        exact hrefl
      · rw [hfile]
        simp
      · intro y hy _
        rw [(hsame.steps y hy).resolve_left (by simp)]
        exact hrefl
    · intro _ t hspec
      exact ⟨hspec.1.file, fun y hy => (hspec.1.steps y hy).resolve_left (by simp)⟩

theorem sparing_of_settled (hs : f.header.startOffset < M) (he : f.header.endOffset < M) :
    a.Sparing M f :=
  fun _ _ => ⟨fun hM => by omega, fun hM => by omega⟩

/-- Nothing has to be evicted for a frame that fits between the end and the start. -/
theorem sparing_of_room (hs : f.header.startOffset < M)
    (hsettled : (f.settle M).header.startOffset < M)
    (hroom : ((f.settle M).header.endOffset+(M-(f.settle M).header.startOffset))%M+
      a.frameSize ≤ M) :
    a.Sparing M f := by
  intro L hl
  rw [hl.distance] at hroom
  have hkeep : keep frameSize (M-a.frameSize) L = L := by
    apply keep_of_le
    change used L ≤ M-a.frameSize
    omega
  refine ⟨fun _ => ?_, fun hM => by omega⟩
  rw [hkeep]
  omega

/-- A reader that starts a lap ahead reads the same records: the first one brings its cursor back
into the area. -/
theorem WellFormed.readBack_lap (hM : 10 ≤ M) (hw : WellFormed M f (r :: L))
    (hle : f.header.startOffset ≤ f.header.endOffset)
    (hg : g = f.withHeader { f.header with startOffset := f.header.startOffset+M })
    (junk : Ringfile) : CircularLog.readBack junk g = some (r :: L) := by
  have hb := hw.bound
  have hl := hw.layout
  have hs := hl.start_lt
  have hfits := hl.fits
  have hlen := length_le_used (L := r :: L) (by omega)
  have hcases := hl.end_cases
  have hrecord := hl.record_lt (by omega)
  have hsize : frameSize r = Varint.size r.length+r.length := rfl
  obtain ⟨hvarint, hbytes⟩ := hl.head
  rw [used_cons] at hfits hcases hlen
  have hglen : g.length = M+24 := by
    rw [hg]
    exact hw.length
  have hdata : g.data = f.data := by rw [hg]; rfl
  have hstart : g.header.startOffset = f.header.startOffset+M := by rw [hg]; rfl
  have hend : g.header.endOffset = f.header.endOffset := by rw [hg]; rfl
  have hopened : openFile junk.construct (some g) .read allDone =
      .opened (openedState junk.construct g .read allDone) := by
    apply openFile_eq junk.construct .read (fun _ => rfl) (by omega)
    rw [hg]
    exact hw.magic
  have hreader : ReaderAt M g (f.header.startOffset+M)
      (openedState junk.construct g .read allDone) :=
    ⟨⟨by simp [openedState], by simp [openedState], hglen, hglen, hb⟩, fun _ => rfl, rfl, hstart⟩
  -- a lap ahead the same cells are met
  have hlap (i : ℕ) : (f.header.startOffset+M+i)%M = (f.header.startOffset+i)%M := by
    rw [show f.header.startOffset+M+i = f.header.startOffset+i+M by omega, Nat.add_mod_right]
  have hd : Varint.read (window M g (f.header.startOffset+M)) =
      some (Varint.size r.length, r.length) := by
    rw [← hvarint.decodes hrecord]
    congr 1
    funext i
    rw [window, hdata, hlap]
  have hslice : slice M g.data (f.header.startOffset+M+Varint.size r.length) r.length = r := by
    rw [← slice_mod, hlap, slice_mod, hdata]
    exact hbytes
  -- after the first turn the cursor is where it would have been
  have hturn : Sat (readLoop g.length (g.length+1)) (openedState junk.construct g .read allDone)
      (fun v _ => v = (r :: L, true)) := by
    rw [readLoop]
    apply (nextRecordSize_decoded (n := Varint.size r.length) (v := r.length) hreader.usable
      hreader.ideal hM ?_ ?_).bind
    · intro v t hspec
      obtain ⟨rfl, hm, hf⟩ := hspec
      dsimp only
      rw [if_neg (by omega)]
      apply (read_whole_decoded hM (hreader.moved hm hf) (by omega) hd (by omega)
        (hw.nonempty r List.mem_cons_self) hslice _).bind
      intro v u hspec
      obtain ⟨ok, record⟩ := v
      obtain ⟨hok, hcontents, hu⟩ := hspec
      rw [sat_unless]
      refine ⟨fun hno => absurd hok (ne_true_of_eq_false hno), fun _ => ?_⟩
      have hunread : Unread M u L := by
        refine ⟨hu.usable, ?_⟩
        have hrest := Layout.withStart (P := [r]) (K := L) hl
        rw [used_cons, used_nil, Nat.add_zero] at hrest
        rw [hu.file, hu.cursor, hlap, hg]
        exact hrest
      have hreadable : ∀ A q B, L = A ++ q :: B →
          Readable M ((u.self.readOffset+used A)%M) q := by
        intro A q B hL
        exact Or.inl (hw.nonempty q (by simp [hL]))
      have hstring : ∀ q ∈ L, q.length ≤ g.length := by
        intro q hq
        have hq' := hunread.layout.length_lt hq
        omega
      apply (readLoop_spec hstring hM hunread hu.ideal hreadable g.length ?_).bind
      · intro v w hspec
        rw [hspec.1, sat_pure, hcontents]
      · rw [List.length_cons] at hlen
        omega
    · rw [hreader.cursor, hreader.file, hend]
      omega
    · rw [hreader.cursor, hreader.file]
      exact hd
  obtain ⟨v, t, hrun, rfl⟩ := hturn
  rw [CircularLog.readBack, hopened]
  dsimp only
  rw [hrun]

end Recovery

/-- An unreduced offset apart, the processes are `Sound`. -/
def TornSound {ι : Type} (M : ℕ) (σ : Processes ι) : Prop :=
  ∃ f, σ.file = f.withHeader σ.file.header ∧ Torn M f.header σ.file.header ∧
    Sound M { σ with file := f }

section MendedRuns
variable {ι : Type} [DecidableEq ι] {M : ℕ} {σ τ : Processes ι} {i : ι} {a : Attempt}

omit [DecidableEq ι] in
theorem TornSound.length (h : TornSound M σ) : σ.file.length = M+24 := by
  obtain ⟨f, hf, _, hs⟩ := h
  rw [hf]
  exact hs.length

theorem TornSound.idle (h : TornSound M σ) {m : Move ι} (hm : m.attempt = none) :
    TornSound M (σ.move m) := by
  have hlen := h.length
  obtain ⟨f, hf, ht, hs⟩ := h
  obtain ⟨i, s', hfile, hhandle, hwritten, hs'⟩ := Processes.move_idle hm hlen hs.attached
  refine ⟨f, ?_, ?_, hs.leave (τ := { σ.move m with file := f }) i hs' rfl hhandle hwritten⟩
  · rw [hfile]
    exact hf
  · rw [hfile]
    exact ht

/-- Process `i` has left off an attempt. -/
theorem TornSound.tried {f : File} {L : List Record} {s' : Option State} {g : File} {r : Record}
    (hs : Sound M { σ with file := f }) (hL : L <:+ σ.written)
    (hg : Recovers M σ.file.header.endOffset r L f g)
    (hs' : ∀ t, s' = some t → Attached M t) : TornSound M (σ.tried i s' g r) := by
  obtain ⟨k, K, hlen, hmagic, hk, ht, hlk, hcases⟩ := hg
  refine ⟨k, hk, ht, ?_⟩
  refine hs.update (τ := { σ.tried i s' g r with file := k }) (i := i) ?_ ?_ hlen hmagic
    ⟨K, ?_, hlk⟩
  · intro j hj
    exact Function.update_of_ne hj _ _
  · intro t ht
    have ht' : Function.update σ.handle i s' i = some t := ht
    rw [Function.update_self] at ht'
    exact hs' t ht'
  · dsimp only [Processes.tried, Processes.leave]
    rcases hcases with ⟨hsame, hK⟩ | ⟨hmoved, hK⟩
    · rw [if_pos hsame]
      exact hK.trans hL
    · rw [if_neg hmoved]
      exact hK.trans (List.suffix_append_self_iff.mpr hL)

theorem TornSound.attempt (h : TornSound M σ) (hM : 10 ≤ M) (ha : a.Valid) {m : Move ι}
    (hm : m = .adds i a ∨ ∃ n, m = .dies i a n) (hmends : m.Mends M σ) :
    TornSound M (σ.move m) := by
  obtain ⟨f, hf, ht, hs⟩ := id h
  obtain ⟨L, hL, hl⟩ := hs.layout
  have hsettle : σ.file.settle M = f := ht.settle hl hf
  -- the condition on the attempt speaks of the settled file, which is `f`
  have hspared : Spared M f.header σ.file.header a.frameSize L := by
    have hsparing : a.Sparing M σ.file := by
      rcases hm with rfl | ⟨n, rfl⟩
      · exact hmends
      · exact hmends.1
    have := hsparing L
    rw [hsettle] at this
    exact this hl
  have hrefl := recovers_refl (a := a) hl ht hf
  have hstay : σ.tried i none σ.file a.record = σ.leave i none σ.file := by
    simp [Processes.tried, Processes.leave]
  have hgone : TornSound M (σ.leave i none σ.file) := by
    rw [← hstay]
    exact TornSound.tried hs hL hrefl (by simp)
  cases hi : σ.handle i with
  | none =>
    have hsame : σ.move m = σ := by
      rcases hm with rfl | ⟨n, rfl⟩
      · simp [Processes.move, Processes.call_none hi]
      · simp [Processes.move, hi]
    rw [hsame]
    exact h
  | some s =>
    have hspec := (hs.attached i s hi).attempt_torn hM hs.bound hs.length hl ht hf ha hspared
    rcases hm with rfl | ⟨n, rfl⟩
    · rcases Processes.call_of_ends hi (hspec.mono (fun _ _ hq => hq) (fun _ _ he => he.1)) with
        ⟨ok, t, hcall, hmended⟩ | ⟨t, hcall, hfile⟩
      · have hmove : σ.move (.adds i a) = σ.tried i (some t) t.file a.record := by
          rw [Processes.move, hcall]
          cases ok with
          | true =>
            have hend := hmended.ok.mp rfl
            simp [Processes.tried, Processes.leave, hend]
          | false =>
            have hend : t.file.header.endOffset = σ.file.header.endOffset :=
              not_ne_iff.mp (fun hne => Bool.false_ne_true (hmended.ok.mpr hne))
            simp [Processes.tried, Processes.leave, hend]
        rw [hmove]
        refine TornSound.tried hs hL hmended.file ?_
        intro u hu
        cases hu
        exact hmended.attached
      · have hmove : σ.move (.adds i a) = σ.leave i none σ.file := by
          rw [Processes.move, hcall, hfile]
          rfl
        rw [hmove]
        exact hgone
    · have hmove : σ.move (.dies i a n) =
          σ.tried i none (fileAfter a.run (s.on σ.file) n) a.record := by
        rw [Processes.move, hi]
      -- the file may be full after the last of its steps, which is left out
      have hfull := hmends.2
      rw [hmove] at hfull ⊢
      refine TornSound.tried hs hL ?_ (by simp)
      refine fileAfter_of_ends (Q := fun g => g.header.endOffset ≠ g.header.startOffset+M →
        Recovers M σ.file.header.endOffset a.record L f g) n (fun _ => hrefl) ?_ hfull
      apply hspec.mono (fun _ _ hq => hq.steps)
      intro _ t he y hy _
      rw [he.2 y hy]
      exact hrefl

/-- What one move preserves. -/
theorem TornSound.move (h : TornSound M σ) (hM : 10 ≤ M) {m : Move ι} (hm : m.Valid)
    (hmends : m.Mends M σ) : TornSound M (σ.move m) := by
  cases m with
  | opens i mode junk outcomes => exact h.idle rfl
  | exits i => exact h.idle rfl
  | adds i a => exact h.attempt hM hm (Or.inl rfl) hmends
  | dies i a n => exact h.attempt hM hm (Or.inr ⟨n, rfl⟩) hmends
  | polls i => exact h.idle rfl

theorem TornSound.run (h : TornSound M σ) (hM : 10 ≤ M) {ms : List (Move ι)}
    (hms : ∀ m ∈ ms, m.Valid) (hmends : Mends M ms σ) : TornSound M (σ.run ms) := by
  -- on the moves, from any processes that are `TornSound`
  induction ms generalizing σ with
  | nil => exact h
  | cons m ms ih =>
    obtain ⟨hm, hrest⟩ := hmends
    exact ih (h.move hM (hms m List.mem_cons_self) hm)
      (fun m' hm' => hms m' (List.mem_cons_of_mem _ hm')) hrest

end MendedRuns

/-- The second process dies when the record that goes over the end of the area has moved the end and
not reduced it. The third one writes behind it. -/
def tornRun : List (Move ℕ) :=
  [.adds 0 (.write [1, 2, 3, 4, 5] uninitialized), .opens 1 .append blank allDone,
    .dies 1 (.write [6, 7, 8, 9, 10] uninitialized) 11, .opens 2 .append blank allDone,
    .adds 2 (.write [11] uninitialized)]

end CircularLog
