import CircularLog.EvictionLoop
import CircularLog.ShadowRuns

/-! A process that dies between the two stores to an offset leaves it unreduced. Writing to the file
goes on as if the offset had been reduced, and reduces it, unless a frame goes over the end of the
area once more at the other end of the records. -/
namespace CircularLog

/-- `h'` is `h`, or `h` with one of the offsets a lap ahead: the start when the records do not go
over the end of the area, or the end when they do. Either way the counters come out right. -/
inductive Torn (M : ℕ) (h : Header) : Header → Prop
  | settled : Torn M h h
  | start (hle : h.startOffset ≤ h.endOffset) (hlt : h.endOffset < M) :
      Torn M h { h with startOffset := h.startOffset+M }
  | end_ (hlt : h.endOffset < h.startOffset) (hM : h.startOffset < M) :
      Torn M h { h with endOffset := h.endOffset+M }

/-- `g` is what is found where a run on a settled file would have left `f`; the end has moved from
`e'` when it would have moved from `e`. An unreduced end that is a lap ahead of the start is left
out: the area is full then. -/
def Tracked (M e e' : ℕ) (f g : File) : Prop :=
  g = f.withHeader g.header ∧
    (g.header.endOffset ≠ g.header.startOffset+M → Torn M f.header g.header) ∧
    (g.header.endOffset = e' ↔ f.header.endOffset = e)

/-- The second process is where the first one would be on the settled file, and the end has not
moved. -/
def Shadows (M e e' k : ℕ) (s t : State) : Prop :=
  ∃ h h', Alike (Tracked M e e') h h' k s t ∧ Torn M h h' ∧ h.endOffset = e ∧ h'.endOffset = e'

/-- What `need` bytes may take when the header is `h'` for `h`: behind an unreduced end the evicted
frames do not reach the end of the area, and where the start is unreduced and nothing is evicted,
neither does the new frame. -/
def Spared (M : ℕ) (h h' : Header) (need : ℕ) (L : List Record) : Prop :=
  (M ≤ h'.endOffset → h.startOffset+(used L-used (keep frameSize (M-need) L)) < M) ∧
    (M ≤ h'.startOffset → keep frameSize (M-need) L = L → h.endOffset+need < M)

/-- And `n` bytes behind the end leave the headers so when the end moves over them. -/
def Roomy (M e e' n k : ℕ) (s t : State) : Prop :=
  ∃ h h', Alike (Tracked M e e') h h' k s t ∧ Torn M h h' ∧ h.endOffset = e ∧ h'.endOffset = e' ∧
    (M ≤ h'.startOffset → e+n < M) ∧ (e < h.startOffset → h.startOffset < M ∧ e+n ≤ h.startOffset)

/-- The second process has done what the first did, and the files were related all the time. -/
structure Matched (M e e' : ℕ) (s t : State) : Prop where
  file : Tracked M e e' s.file t.file
  torn : Torn M s.file.header t.file.header
  steps : List.Forall₂ (fun x y => Tracked M e e' x.file y.file) s.steps t.steps
  self : t.self = { s.self with streamingWriteOffset := t.self.streamingWriteOffset }

section Offsets
variable {M : ℕ} {s : State}

theorem modulo_mod (a b : ℕ) : modulo (a%b) b = modulo a b := by
  unfold modulo
  rw [Nat.mod_mod]

theorem bytesMax_run (h : Usable M s) : bytesMax s = .ok M s := by
  rw [bytesMax, run_bind, get_run]
  dsimp only
  rw [h.bytesMax_eq]
  rfl

/-- Both transfers reduce the offset before they use it. -/
theorem wrappingRead_mod (h : Usable M s) {off off' : ℕ} (ho : off'%M = off%M) (ptr : Buffer)
    (n : ℕ) : wrappingRead off' ptr n s = wrappingRead off ptr n s := by
  unfold wrappingRead
  apply bind_eq_of_run (bytesMax_run h)
  rw [← modulo_mod off', ho, modulo_mod]

theorem wrappingWrite_mod (h : Usable M s) {off off' : ℕ} (ho : off'%M = off%M) (ptr : Buffer)
    (n : ℕ) : wrappingWrite off' ptr n s = wrappingWrite off ptr n s := by
  unfold wrappingWrite
  apply bind_eq_of_run (bytesMax_run h)
  rw [← modulo_mod off', ho, modulo_mod]

theorem readVarint_mod (h : Usable M s) {off off' : ℕ} (ho : off'%M = off%M) :
    readVarint off' s = readVarint off s := by
  unfold readVarint
  exact bind_eq_of_eq (wrappingRead_mod h ho _ _)

end Offsets

section TornOffsets
variable {M e e' k need : ℕ} {s t : State} {h h' : Header} {r : Record} {L P K : List Record}

theorem Torn.tracked (ht : Torn M h h') {f : File} (hf : f.header = h) (he : h.endOffset = e)
    (he' : h'.endOffset = e') : Tracked M e e' f (f.withHeader h') := by
  subst hf he he'
  exact ⟨rfl, fun _ => ht, iff_of_true rfl rfl⟩

theorem Torn.pairs (ht : Torn M h h') : Pairs (Tracked M h.endOffset h'.endOffset) h h' :=
  fun _ hf => ht.tracked hf rfl rfl

theorem Alike.stores {g g' : Header} (hA : Alike (Tracked M e e') h h' k s t) (hT : Torn M g g')
    (he : g.endOffset = e) (he' : g'.endOffset = e') (event : Event) :
    Alike (Tracked M e e') g g' k (s.assigned event (s.file.withHeader g))
      (t.assigned event (t.file.withHeader g')) :=
  hA.stored event g g' (hT.tracked (f := s.file.withHeader g) rfl he he')

theorem Alike.writable {S : File → File → Prop} (hR : Alike S h h' k s t) (hs : Writable M s) :
    Writable M t := by
  refine ⟨?_, ?_, ?_, ?_, hs.bound⟩
  · rw [hR.self]
    exact hs.fd
  · rw [hR.self]
    exact hs.header
  · rw [hR.self]
    exact hs.size
  · rw [hR.file]
    exact hs.length

theorem Shadows.end_ (hR : Shadows M e e' k s t) : t.file.header.endOffset = e' := by
  obtain ⟨h, h', hA, _, _, he'⟩ := hR
  rw [hA.file]
  exact he'

theorem Shadows.end_left (hR : Shadows M e e' k s t) : s.file.header.endOffset = e := by
  obtain ⟨h, h', hA, _, he, _⟩ := hR
  rw [hA.header]
  exact he

theorem Torn.end_cases (ht : Torn M h h') : h'.endOffset = h.endOffset ∨
    (h'.endOffset = h.endOffset+M ∧ h.endOffset < h.startOffset ∧ h.startOffset < M) := by
  cases ht with
  | settled => exact Or.inl rfl
  | start _ _ => exact Or.inl rfl
  | end_ hlt hM => exact Or.inr ⟨rfl, hlt, hM⟩

theorem Shadows.end_le (hR : Shadows M e e' k s t) : e ≤ e' := by
  obtain ⟨h, h', _, ht, rfl, rfl⟩ := hR
  rcases ht.end_cases with hend | ⟨hend, _⟩ <;> omega

theorem Shadows.end_mod (hR : Shadows M e e' k s t) : e'%M = e%M := by
  obtain ⟨h, h', _, ht, rfl, rfl⟩ := hR
  rcases ht.end_cases with hend | ⟨hend, _⟩ <;> simp [hend]

theorem Shadows.writable (hR : Shadows M e e' k s t) (hs : Writable M s) : Writable M t := by
  obtain ⟨h, h', hA, _⟩ := hR
  exact hA.writable hs

/-- The two stores that move the start. A start that was a lap ahead is reduced by the second. -/
theorem Torn.advance (ht : Torn M h h') {n : ℕ}
    (hle : h.startOffset ≤ h.endOffset → h.startOffset+n ≤ h.endOffset)
    (hin : M ≤ h'.endOffset → h.startOffset+n < M) :
    Torn M { h with startOffset := h.startOffset+n } { h' with startOffset := h'.startOffset+n } ∧
      Torn M { h with startOffset := (h.startOffset+n)%M }
        { h' with startOffset := (h'.startOffset+n)%M } := by
  cases ht with
  | settled => exact ⟨.settled, .settled⟩
  | start hse hlt =>
    have hn := hle hse
    -- a lap ahead after the first store, and no more after the second
    constructor
    · have hraw : h.startOffset+M+n = h.startOffset+n+M := by omega
      dsimp only
      rw [hraw]
      exact .start hn hlt
    · have hmod : (h.startOffset+M+n)%M = (h.startOffset+n)%M := by
        rw [show h.startOffset+M+n = h.startOffset+n+M by omega, Nat.add_mod_right]
      dsimp only
      rw [hmod]
      exact .settled
  | end_ hlt hM =>
    -- the start may not go over the end of the area here: the counters would be wrong by a lap
    have hn : h.startOffset+n < M := hin (by dsimp only; omega)
    have hlt' : h.endOffset < h.startOffset+n := by omega
    constructor
    · exact .end_ hlt' hn
    · dsimp only
      rw [Nat.mod_eq_of_lt hn]
      exact .end_ hlt' hn

/-- The two stores that move the end. An end that was a lap ahead is reduced by the second. -/
theorem Torn.moveEnd (ht : Torn M h h') {n : ℕ} (hin : M ≤ h'.startOffset → h.endOffset+n < M)
    (hfree : h.endOffset < h.startOffset → h.endOffset+n ≤ h.startOffset) :
    (h'.endOffset+n ≠ h'.startOffset+M →
      Torn M { h with endOffset := h.endOffset+n } { h' with endOffset := h'.endOffset+n }) ∧
      Torn M { h with endOffset := (h.endOffset+n)%M }
        { h' with endOffset := (h'.endOffset+n)%M } := by
  cases ht with
  | settled => exact ⟨fun _ => .settled, .settled⟩
  | start hse hlt =>
    -- nor may the end, while the start is a lap ahead
    have hn : h.endOffset+n < M := hin (by dsimp only; omega)
    have hle : h.startOffset ≤ h.endOffset+n := by omega
    refine ⟨fun _ => .start hle hn, ?_⟩
    dsimp only
    rw [Nat.mod_eq_of_lt hn]
    exact .start hle hn
  | end_ hlt hM =>
    have hn := hfree hlt
    have hraw : h.endOffset+M+n = h.endOffset+n+M := by omega
    dsimp only
    constructor
    · intro hfull
      rw [hraw] at hfull ⊢
      exact .end_ (show h.endOffset+n < h.startOffset by omega) hM
    · rw [hraw, Nat.add_mod_right]
      exact .settled

/-- With an offset a lap ahead the bytes in use are counted right. -/
theorem Torn.bytesUsed_run {f : File} (hw : Usable M t) (hl : Layout M f L)
    (ht : Torn M f.header h') (hf : t.file = f.withHeader h') : bytesUsed t = .ok (used L) t := by
  apply run_of_sat
  have hb := hw.bound
  have hs := hl.start_lt
  have hfits := hl.fits
  have hend := hl.end_cases
  cases ht with
  | settled =>
    have hsame : t.file = f := hf
    rw [sat_bytesUsed hw (hsame ▸ hl)]
    exact ⟨rfl, rfl⟩
  | start hle hlt =>
    have hstart : t.file.header.startOffset = f.header.startOffset+M := by rw [hf]; rfl
    have hend' : t.file.header.endOffset = f.header.endOffset := by rw [hf]; rfl
    -- the start is ahead of the end by what is not in use
    have hfree : sub64 t.file.header.startOffset t.file.header.endOffset = M-used L := by
      rw [hstart, hend', sub64_of_le (by omega) (by omega)]
      omega
    rw [bytesUsed, sat_bind, sat_mappedHeader hw.header, if_neg (by omega), sat_bind,
      sat_bytesMax hw, sat_pure, hfree, sub64_of_le (by omega) (by omega)]
    exact ⟨by omega, rfl⟩
  | end_ hlt hM =>
    have hstart : t.file.header.startOffset = f.header.startOffset := by rw [hf]; rfl
    have hend' : t.file.header.endOffset = f.header.endOffset+M := by rw [hf]; rfl
    -- the end is ahead of the start by what is in use
    rw [bytesUsed, sat_bind, sat_mappedHeader hw.header, if_pos (by omega), sat_pure,
      sub64_of_le (by omega) (by omega)]
    exact ⟨by omega, rfl⟩

theorem Torn.bytesAvailable_run {f : File} (hw : Usable M t) (hl : Layout M f L)
    (ht : Torn M f.header h') (hf : t.file = f.withHeader h') :
    bytesAvailable t = .ok (M-used L) t := by
  apply run_of_sat
  have hb := hw.bound
  have hfits := hl.fits
  rw [bytesAvailable, sat_bind, sat_of_run (ht.bytesUsed_run hw hl hf), sat_bind, sat_bytesMax hw,
    sat_pure, sub64_of_le (by omega) hfits.le]
  exact ⟨rfl, rfl⟩

theorem advanceStart_run (hw : Writable M s) (hM : 0 < M) (hh : s.file.header = h) {n : ℕ}
    (hn : h.startOffset+n < 2^64) :
    advanceStart n s = .ok ()
      ((s.assigned .advance (s.file.withHeader { h with startOffset := h.startOffset+n })).assigned
        .reduce (s.file.withHeader { h with startOffset := (h.startOffset+n)%M })) := by
  subst hh
  apply run_of_sat
  rw [sat_advanceStart hw hM, u64_of_lt hn]
  exact ⟨rfl, rfl⟩

theorem assignEnd_run (hw : Writable M s) (hM : 0 < M) (hh : s.file.header = h) (n : ℕ) :
    assignEnd n s = .ok ()
      ((s.assigned .advance (s.file.withHeader { h with endOffset := n })).assigned
        .reduce (s.file.withHeader { h with endOffset := n%M })) := by
  subst hh
  apply run_of_sat
  rw [sat_assignEnd hw hM]
  exact ⟨rfl, rfl⟩

/-- A pop on the unreduced header is the pop on the reduced one. -/
theorem popRecord_twin {E : State → State → Prop} (hw : Writable M s) (hM : 10 ≤ M)
    (hl : Layout M s.file (r :: L)) (hR : Shadows M e e' k s t)
    (hin : M ≤ e' → s.file.header.startOffset+frameSize r < M) :
    Twin popRecord popRecord s t (fun a b s' t' => b = a ∧ Shadows M e e' k s' t' ∧
      (a = true → t'.file.header.startOffset < M)) E := by
  obtain ⟨_, h', hA, ht, rfl, rfl⟩ := hR
  obtain rfl := hA.header
  have hb := hw.bound
  have hs := hl.start_lt
  have hend := hl.end_lt
  have hf := hl.fits
  have hcases := hl.end_cases
  rw [used_cons] at hf hcases
  have hw' := hA.writable hw
  have hheader' : t.file.header = h' := by rw [hA.file]; rfl
  have hne : s.file.header.startOffset ≠ s.file.header.endOffset := by
    intro he
    cases (hl.start_eq_end_iff (by omega)).mp he
  have hsum : u64 (Varint.size r.length+r.length) = frameSize r := u64_of_lt (by
    change frameSize r < 2^64
    omega)
  -- the first frame is read from the same cells
  have hshift : h'.startOffset%M = s.file.header.startOffset%M ∧
      h'.startOffset ≠ h'.endOffset ∧ h'.startOffset+frameSize r < 2^64 := by
    cases ht with
    | settled => exact ⟨rfl, hne, by omega⟩
    | start hle hlt => exact ⟨Nat.add_mod_right _ _, by dsimp only; omega, by dsimp only; omega⟩
    | end_ hlt hM => exact ⟨rfl, by dsimp only; omega, by dsimp only; omega⟩
  obtain ⟨hmod, hne', hbound⟩ := hshift
  unfold popRecord
  rw [twin_of_run (mappedHeader_run hw.usable.header) (mappedHeader_run hw'.usable.header),
    hheader', if_neg hne, if_neg hne']
  have hread := (readVarint_inStep ht.pairs s.file.header.startOffset s t hA).congr_right
    (readVarint_mod hw'.usable hmod)
  apply (hread.and_left (readVarint_spec hw.usable hM (hl.record_lt (by omega)) hl.head.1)).bind
  intro a b u v hq
  obtain ⟨⟨rfl, hAu⟩, hm, huf, hv, _⟩ := hq
  rcases hv with rfl | rfl
  · -- the length could not be read
    rw [twin_pure]
    exact ⟨rfl, ⟨_, h', hAu, ht, rfl, rfl⟩, by simp⟩
  · dsimp only
    have hwu := hm.writable hw
    have hwv := hAu.writable hwu
    have hvheader : v.file.header = h' := by rw [hAu.file]; rfl
    have huheader : u.file.header = s.file.header := by rw [huf]
    -- the two stores keep the headers a lap apart, or bring them together
    obtain ⟨hraw, hreduced⟩ := ht.advance (n := frameSize r) (by omega) hin
    have hstores := (hAu.stores hraw rfl rfl .advance).stores hreduced rfl rfl .reduce
    have hrun := advanceStart_run hwu (by omega) huheader (n := frameSize r) (by omega)
    have hrun' := advanceStart_run hwv (by omega) hvheader hbound
    rw [hsum, twin_of_run hrun hrun', twin_pure]
    exact ⟨rfl, ⟨_, _, hstores, hreduced, rfl, rfl⟩, fun _ => Nat.mod_lt _ (by omega)⟩

theorem Shadows.bytesAvailable_run (hR : Shadows M e e' k s t) (hw : Writable M s)
    (hl : Layout M s.file L) : bytesAvailable t = .ok (M-used L) t := by
  obtain ⟨_, h', hA, ht, _⟩ := hR
  obtain rfl := hA.header
  exact ht.bytesAvailable_run (hA.writable hw).usable hl hA.file

theorem assert_run {c : Prop} [Decidable c] (hc : c) (s : State) : assert c s = .ok () s := by
  rw [assert, if_pos hc]
  rfl

theorem reached_run {α : Type} {x : Option α} {a : α} (hx : x = some a) (s : State) :
    reached x s = .ok a s := by
  subst hx
  rfl

/-- The loop evicts the same records. When it ends well, the start is unreduced only if it was so
before and nothing was evicted. -/
theorem popUntilAvailable_twin {E : State → State → Prop} (hneed : need < M) (fuel : ℕ)
    (hw : Writable M s) (hM : 10 ≤ M) (hl : Layout M s.file L) (hfuel : need ≤ M-used L+fuel)
    (hR : Shadows M e e' k s t)
    (hin : M ≤ e' → s.file.header.startOffset+(used L-used (keep frameSize (M-need) L)) < M) :
    Twin (popUntilAvailable need fuel) (popUntilAvailable need fuel) s t (fun a b s' t' => b = a ∧
      Shadows M e e' k s' t' ∧ (a = true → M ≤ t'.file.header.startOffset →
        M ≤ t.file.header.startOffset ∧ keep frameSize (M-need) L = L)) E := by
  have hb := hw.bound
  have henough {L : List Record} (hfit : need ≤ M-used L) (hlt : used L < M) :
      keep frameSize (M-need) L = L := by
    apply keep_of_le
    change used L ≤ M-need
    omega
  -- on the turns that are left
  induction fuel generalizing s t L with
  | zero =>
    rw [popUntilAvailable, twin_of_run (bytesAvailable_eq hw.usable hl)
      (hR.bytesAvailable_run hw hl), if_neg (by omega), twin_pure]
    exact ⟨rfl, hR, fun _ hstart => ⟨hstart, henough (by omega) hl.fits⟩⟩
  | succ fuel ih =>
    -- both processes count the same bytes, so they pop together or not at all
    rw [popUntilAvailable, twin_of_run (bytesAvailable_eq hw.usable hl)
      (hR.bytesAvailable_run hw hl)]
    by_cases hfit : need ≤ M-used L
    · rw [if_neg (by omega), twin_pure]
      exact ⟨rfl, hR, fun _ hstart => ⟨hstart, henough hfit hl.fits⟩⟩
    rw [if_pos (by omega)]
    cases L with
    | nil =>
      rw [used_nil] at hfit
      omega
    | cons r L =>
      have hf := hl.fits
      rw [used_cons] at hf hfit hfuel
      have hr := frameSize_pos (r := r) (by omega)
      have hkeep : keep frameSize (M-need) (r :: L) = keep frameSize (M-need) L := by
        apply keep_cons_of_lt
        change M-need < used (r :: L)
        rw [used_cons]
        omega
      have hkept : used (keep frameSize (M-need) L) ≤ used L :=
        weight_suffix_le frameSize (keep_suffix frameSize (M-need) L)
      rw [hkeep, used_cons] at hin
      have hpop := popRecord_twin (E := E) hw hM hl hR (fun hM' => by have := hin hM'; omega)
      apply (hpop.and_left (F := E) (popRecord_spec hw hM hl)).bind
      intro _ ok u v hq
      obtain ⟨⟨rfl, hRu, hstart⟩, w, hm, hwf, _, hdone, _⟩ := hq
      rw [twin_unless]
      constructor
      · intro hok
        exact ⟨rfl, hRu, by simp⟩
      · intro hok
        have hu := hdone hok
        have hwu : Writable M u := by
          rw [hu]
          refine ((hm.writable hw).assigned _ _ ?_).assigned _ _ rfl
          dsimp only [File.withStart]
          rw [hwf]
        have hlu : Layout M u.file L := by
          rw [hu]
          simpa [State.assigned] using hl.withStart (P := [r]) (K := L)
        have hmore : M-used (r :: L) < M-used L := by
          rw [used_cons]
          omega
        rw [twin_of_run (bytesAvailable_eq hwu.usable hlu) (hRu.bytesAvailable_run hwu hlu),
          twin_of_run (assert_run hmore u) (assert_run hmore v)]
        refine (ih hwu hlu (by omega) hRu ?_).mono ?_ (fun _ _ hE => hE)
        · intro hM'
          have hsum := hin hM'
          rw [hu]
          dsimp only [State.assigned, File.withStart]
          rw [Nat.mod_eq_of_lt (by omega)]
          omega
        · intro c d s' t' hspec
          obtain ⟨hd, hR', hlast⟩ := hspec
          refine ⟨hd, hR', fun hc hM' => ?_⟩
          -- the pop has reduced the start
          have hv := (hlast hc hM').1
          have hv' := hstart hok
          omega

theorem Roomy.shadows {n : ℕ} (hR : Roomy M e e' n k s t) : Shadows M e e' k s t := by
  obtain ⟨h, h', hA, ht, he, he', _⟩ := hR
  exact ⟨h, h', hA, ht, he, he'⟩

/-- Transfers leave the headers alone, and may start a lap later. -/
theorem Roomy.wrappingWrite {n off off' : ℕ} (hR : Roomy M e e' n k s t) (hw : Writable M s)
    (ho : off'%M = off%M) (ptr : Buffer) (m : ℕ) :
    Twin (wrappingWrite off ptr m) (wrappingWrite off' ptr m) s t
      (fun a b s' t' => b = a ∧ Roomy M e e' n k s' t') (fun _ _ => True) := by
  obtain ⟨h, h', hA, ht, rfl, rfl, hroom⟩ := hR
  have hrun := wrappingWrite_inStep ht.pairs off ptr m s t hA
  apply (hrun.congr_right (wrappingWrite_mod (hA.writable hw).usable ho ptr m)).mono
  · exact fun _ _ _ _ hq => ⟨hq.1, h, h', hq.2, ht, rfl, rfl, hroom⟩
  · exact fun _ _ _ => trivial

/-- The end the second process sees is the same place in the area, and adding `n` to it does not
overflow. -/
theorem Roomy.ends {n : ℕ} (hR : Roomy M e e' n k s t) (hM : M+24 < 2^63) (he : e < M)
    (hn : n ≤ M) {m : ℕ} (hm : m ≤ n) :
    u64 (e'+m) = e'+m ∧ u64 (e'+m)%M = u64 (e+m)%M := by
  obtain ⟨h, h', _, ht, rfl, rfl, _, hroom⟩ := hR
  rcases ht.end_cases with hend | ⟨hend, hlt, hstart⟩
  · rw [hend]
    exact ⟨u64_of_lt (by omega), rfl⟩
  · -- a lap ahead, the end is still far from overflowing
    have hle := (hroom hlt).2
    rw [hend, u64_of_lt (by omega), u64_of_lt (by omega)]
    refine ⟨rfl, ?_⟩
    rw [show h.endOffset+M+m = h.endOffset+m+M by omega, Nat.add_mod_right]

/-- What is written first is written alike, in the place where it would be. -/
theorem startRecord_twin {n : ℕ} (hw : Writable M s) (hM : 10 ≤ M) (hl : Layout M s.file L)
    (hn : Varint.size n+n+1 < 2^64) (hR : Shadows M e e' k s t)
    (hspared : Spared M s.file.header t.file.header (Varint.size n+n) L) :
    Twin (startRecord n) (startRecord n) s t (fun a b s' t' => b = a ∧
      (a = none → Shadows M e e' k s' t') ∧
      (a ≠ none → Roomy M e e' (Varint.size n+n) k s' t')) (fun _ _ => True) := by
  have hb := hw.bound
  have hv : n < 2^64 := by omega
  have hsize := Varint.size_pos hv
  have hw' := hR.writable hw
  have he' : t.file.header.endOffset = e' := hR.end_
  unfold startRecord
  rw [twin_of_run (reached_run (Varint.byteSize_eq hv) s) (reached_run (Varint.byteSize_eq hv) t),
    twin_of_run (bytesMax_run hw.usable) (bytesMax_run hw'.usable), u64_of_lt hn,
    u64_of_lt (by omega : Varint.size n+n < 2^64)]
  by_cases hbig : M < Varint.size n+n+1
  · rw [if_pos hbig, twin_pure]
    exact ⟨rfl, fun _ => hR, by simp⟩
  rw [if_neg hbig]
  rw [Spared, he'] at hspared
  have hpop := popUntilAvailable_twin (E := fun _ _ => True) (show Varint.size n+n < M by omega)
    (Varint.size n+n) hw hM hl (by omega) hR hspared.1
  apply (hpop.and_left (popUntilAvailable_spec (by omega) _ hw hl (Or.inl hM) (by omega))).bind
  intro _ ok u v hq
  obtain ⟨⟨rfl, hRu, hlast⟩, P, K, hL, hev, hkeep, _⟩ := hq
  rw [twin_unless]
  constructor
  · intro hok
    exact ⟨rfl, fun _ => hRu, by simp⟩
  intro hok
  have hwu := hev.writable hw
  have hwv := hRu.writable hwu
  have hlu : Layout M u.file K := by
    rw [hev.file]
    subst hL
    exact hl.withStart
  have hroom : Roomy M e e' (Varint.size n+n) k u v := by
    have hfit : used K+(Varint.size n+n) ≤ M := used_keep_le (by omega) (hkeep hok)
    have hend := hR.end_left
    obtain ⟨_, g', hA, ht, rfl, rfl⟩ := hRu
    obtain rfl := hA.header
    have hvheader : v.file.header = g' := by rw [hA.file]; rfl
    refine ⟨_, g', hA, ht, rfl, rfl, ?_, ?_⟩
    · -- an unreduced start has outlived the loop, so nothing was evicted
      intro hM'
      rw [← hvheader] at hM'
      obtain ⟨hM'', hall⟩ := hlast hok hM'
      rw [← hend]
      exact hspared.2 hM'' hall
    · -- what is free lies between the end and the start
      intro hlt
      have hu := hlu.start_lt
      rcases hlu.end_cases with ⟨_, hcase⟩ | ⟨_, hcase⟩
      · omega
      · exact ⟨hu, by omega⟩
  rw [twin_of_run (mappedHeader_run hwu.usable.header) (mappedHeader_run hwv.usable.header)]
  apply (hroom.wrappingWrite hwu ?_ _ _).bind
  · intro _ ok' u' v' hq
    obtain ⟨rfl, hR'⟩ := hq
    rw [twin_unless]
    constructor
    · intro _
      exact ⟨rfl, fun _ => hR'.shadows, by simp⟩
    · intro _
      rw [twin_pure]
      exact ⟨rfl, by simp, fun _ => hR'⟩
  · rw [hRu.end_, hRu.end_left]
    exact hRu.end_mod

theorem Shadows.matched (hR : Shadows M e e' k s t) : Matched M e e' s t := by
  obtain ⟨h, h', hA, ht, rfl, rfl⟩ := hR
  refine ⟨?_, ?_, hA.steps, ?_⟩
  · rw [hA.file]
    exact ht.tracked hA.header rfl rfl
  · rw [hA.file, hA.header]
    exact ht
  · rw [hA.self]

theorem Roomy.session {n : ℕ} (hR : Roomy M e e' n k s t) :
    t.self.streamingWriteOffset = s.self.streamingWriteOffset+k ∧
      t.self.streamingWriteBytesRemaining = s.self.streamingWriteBytesRemaining ∧
      (e'-e)%M = 0 := by
  obtain ⟨h, h', hA, ht, rfl, rfl, _⟩ := hR
  refine ⟨by rw [hA.self], by rw [hA.self], ?_⟩
  rcases ht.end_cases with hend | ⟨hend, _⟩ <;> simp [hend]

/-- The end moves by `n`, and by a lap less where it was a lap ahead. -/
theorem assignEnd_twin {E : State → State → Prop} {n m m' : ℕ} (hw : Writable M s)
    (hR : Roomy M e e' n k s t) (he : e < M) (h1 : 1 ≤ n) (hn : n < M) (hm : m = e+n)
    (hm' : m' = e'+n) :
    Twin (assignEnd m) (assignEnd m') s t (fun _ _ s' t' => Matched M e e' s' t') E := by
  obtain ⟨h, h', hA, ht, rfl, rfl, hin, hfree⟩ := hR
  subst hm hm'
  have hw' := hA.writable hw
  have hheader' : t.file.header = h' := by rw [hA.file]; rfl
  obtain ⟨hraw, hreduced⟩ := ht.moveEnd hin (fun hlt => (hfree hlt).2)
  have hfirst := hA.stored .advance { h with endOffset := h.endOffset+n }
    { h' with endOffset := h'.endOffset+n } ⟨rfl, hraw, by
      dsimp only [File.withHeader]
      omega⟩
  -- the end comes to a new place in both files, since the frame is shorter than the area
  have hmoved : (h'.endOffset+n)%M = h'.endOffset ↔ (h.endOffset+n)%M = h.endOffset := by
    have hlt := Nat.mod_lt (h'.endOffset+n) (show M > 0 by omega)
    rcases add_mod_cases he hn.le with ⟨_, hc⟩ | ⟨_, hc⟩ <;>
      rcases ht.end_cases with hend | ⟨hend, _⟩ <;> rw [hend] at hlt ⊢ <;> omega
  have hreducedFiles : Tracked M h.endOffset h'.endOffset
      (s.file.withHeader { h with endOffset := (h.endOffset+n)%M })
      (s.file.withHeader { h' with endOffset := (h'.endOffset+n)%M }) :=
    ⟨rfl, fun _ => hreduced, hmoved⟩
  have hsecond := hfirst.stored .reduce { h with endOffset := (h.endOffset+n)%M }
    { h' with endOffset := (h'.endOffset+n)%M } hreducedFiles
  rw [twin_of_ok (assignEnd_run hw (by omega) hA.header _)
    (assignEnd_run hw' (by omega) hheader' _)]
  refine ⟨?_, hreduced, hsecond.steps, ?_⟩
  · rw [hA.file]
    exact hreducedFiles
  · dsimp only [State.assigned]
    rw [hA.self]

theorem write_twin {E : State → State → Prop} {n : ℕ} (hw : Writable M s) (hM : 10 ≤ M)
    (hl : Layout M s.file L) (ptr : Buffer) (h1 : 1 ≤ n) (hn : Varint.size n+n+1 < 2^64)
    (hR : Shadows M e e' k s t)
    (hspared : Spared M s.file.header t.file.header (Varint.size n+n) L) :
    Twin (write ptr n) (write ptr n) s t (fun a b s' t' => b = a ∧ Matched M e e' s' t') E := by
  have hb := hw.bound
  have he : e < M := by
    rw [← hR.end_left]
    exact hl.end_lt
  unfold write
  apply ((startRecord_twin hw hM hl hn hR hspared).and_left
    (startRecord_spec hw hl (Or.inl hM) hn)).bind
  intro _ r u v hq
  obtain ⟨⟨rfl, hnone, hsome⟩, hstart⟩ := hq
  cases hstart with
  | refused hbig => exact twin_pure.mpr ⟨rfl, (hnone rfl).matched⟩
  | cut hL hself hcut _ => exact twin_pure.mpr ⟨rfl, (hnone rfl).matched⟩
  | @started _ P K hsmall hL hself hK hwr hst =>
    have hR' := hsome (by simp)
    have hwu : Writable M u := hw.of_self hself hwr.file.length
    have hwv := hR'.shadows.writable hwu
    obtain ⟨hsum, hmod⟩ := hR'.ends hb he hsmall.le (show Varint.size n ≤ Varint.size n+n by omega)
    dsimp only
    rw [twin_of_run (mappedHeader_run hwu.usable.header) (mappedHeader_run hwv.usable.header),
      hR'.shadows.end_, hR'.shadows.end_left]
    apply ((hR'.wrappingWrite hwu hmod ptr n).and_left
      (wrappingWrite_spec hwu _ ptr h1 (by omega))).bind
    intro _ ok u' v' hq
    obtain ⟨⟨rfl, hRu⟩, hm, _⟩ := hq
    rw [twin_unless]
    constructor
    · intro _
      exact ⟨rfl, hRu.shadows.matched⟩
    · intro _
      have hwu' := hm.writable hwu
      have hwv' := hRu.shadows.writable hwu'
      obtain ⟨hall, _⟩ := hRu.ends hb he hsmall.le le_rfl
      rw [twin_of_run (mappedHeader_run hwu'.usable.header) (mappedHeader_run hwv'.usable.header),
        hRu.shadows.end_, hRu.shadows.end_left, u64_of_lt (by omega : Varint.size n+n < 2^64)]
      have hend := assignEnd_twin (E := E) hwu' hRu he (by omega) hsmall (u64_of_lt (by omega)) hall
      exact hend.bind (fun _ _ _ _ hmatched => twin_pure.mpr ⟨rfl, hmatched⟩)

/-- The running offset of a session may be assigned anew when it stays as far ahead. -/
theorem Roomy.setStreamingWrite {E : State → State → Prop} {n d o o' m : ℕ}
    (hR : Roomy M e e' n k s t) (ho : o' = o+d) :
    Twin (CircularLog.setStreamingWrite o m) (CircularLog.setStreamingWrite o' m) s t
      (fun _ _ s' t' => Roomy M e e' n d s' t') E := by
  obtain ⟨h, h', hA, hrest⟩ := hR
  subst ho
  rw [CircularLog.setStreamingWrite, CircularLog.setStreamingWrite, twin_modify]
  refine ⟨h, h', ⟨hA.header, hA.file, ?_, hA.position, hA.outcomes, hA.steps⟩, hrest⟩
  dsimp only
  rw [hA.self]

theorem Shadows.streamingWriteOffset (hR : Shadows M e e' 0 s t) :
    t.self.streamingWriteOffset = s.self.streamingWriteOffset := by
  obtain ⟨_, _, hA, _⟩ := hR
  rw [hA.self]
  rfl

/-- Where a session is open on the handle, both processes stop. -/
theorem streamingWriteStart_twin_open {α : Type} {n : ℕ} {f : Bool → Op α}
    {Q : α → α → State → State → Prop} (hopen : s.self.streamingWriteOffset ≠ 0)
    (hR : Shadows M e e' 0 s t) :
    Twin (streamingWriteStart n >>= f) (streamingWriteStart n >>= f) s t Q (fun _ u => u = t) := by
  refine Twin.bind (R := fun _ _ _ _ => False) ?_ (fun _ _ _ _ hno => hno.elim)
  rw [streamingWriteStart, twin_get, hR.streamingWriteOffset, assert, if_neg hopen]
  exact (twin_throw (E := fun _ u => u = t) rfl).bind (R := fun _ _ _ _ => False)
    (fun _ _ _ _ hno => hno.elim)

theorem streamingWriteStart_twin {n : ℕ} (hw : Writable M s)
    (hM : 10 ≤ M) (hl : Layout M s.file L) (hopen : s.self.streamingWriteOffset = 0)
    (hn : Varint.size n+n+1 < 2^64) (hR : Shadows M e e' 0 s t)
    (hspared : Spared M s.file.header t.file.header (Varint.size n+n) L) :
    Twin (streamingWriteStart n) (streamingWriteStart n) s t (fun a b s' t' => b = a ∧
      (a = false → Matched M e e' s' t') ∧
      (a = true → Roomy M e e' (Varint.size n+n) (e'-e) s' t')) (fun _ _ => True) := by
  have hb := hw.bound
  have he : e < M := by
    rw [← hR.end_left]
    exact hl.end_lt
  rw [streamingWriteStart, twin_get, hR.streamingWriteOffset]
  rw [twin_of_run (assert_run hopen s) (assert_run hopen t)]
  apply ((startRecord_twin hw hM hl hn hR hspared).and_left
    (startRecord_spec hw hl (Or.inl hM) hn)).bind
  intro _ r u v hq
  obtain ⟨⟨rfl, hnone, hsome⟩, hstart⟩ := hq
  cases hstart with
  | refused hbig => exact twin_pure.mpr ⟨rfl, fun _ => (hnone rfl).matched, by simp⟩
  | cut hL hself hcut _ => exact twin_pure.mpr ⟨rfl, fun _ => (hnone rfl).matched, by simp⟩
  | @started _ P K hsmall hL hself hK hwr hst =>
    have hR' := hsome (by simp)
    have hwu : Writable M u := hw.of_self hself hwr.file.length
    have hwv := hR'.shadows.writable hwu
    obtain ⟨hsum, _⟩ := hR'.ends hb he hsmall.le (show Varint.size n ≤ Varint.size n+n by omega)
    have hle : e ≤ e' := hR'.shadows.end_le
    dsimp only
    rw [twin_of_run (mappedHeader_run hwu.usable.header) (mappedHeader_run hwv.usable.header),
      hR'.shadows.end_, hR'.shadows.end_left, hsum, u64_of_lt (by omega)]
    apply (hR'.setStreamingWrite (d := e'-e) (by omega)).bind
    intro _ _ u' v' hset
    exact twin_pure.mpr ⟨rfl, by simp, fun _ => hset⟩

theorem streamingWrite_twin {n m : ℕ} {u v : State} {sent : List UInt8} (hw : Writable M s)
    (hl : Layout M s.file (P ++ K)) (hs : Session M s u P K n sent) (hn : Varint.size n+n < M)
    (he : s.file.header.endOffset = e) (hR : Roomy M e e' (Varint.size n+n) (e'-e) u v)
    (ptr : Buffer) (h1 : 1 ≤ m) (hm : sent.length+m ≤ n) :
    Twin (streamingWrite ptr m) (streamingWrite ptr m) u v (fun a b u' v' => b = a ∧
      Roomy M e e' (Varint.size n+n) (e'-e) u' v') (fun _ _ => True) := by
  have hb := hw.bound
  have hlt := hl.end_lt
  have hwu := hs.writable hw
  have hle := hR.shadows.end_le
  obtain ⟨hoff, hrem, hmod⟩ := hR.session
  have hoff' : u.self.streamingWriteOffset = e+(Varint.size n+sent.length) := by
    rw [hs.self, he, Nat.add_assoc]
  have hrem' : u.self.streamingWriteBytesRemaining = n-sent.length := by rw [hs.self]
  have hmod' : (u.self.streamingWriteOffset+(e'-e))%M = u.self.streamingWriteOffset%M := by
    rw [Nat.add_mod, hmod, Nat.add_zero, Nat.mod_mod]
  rw [streamingWrite, twin_get]
  dsimp only
  rw [hoff, hrem]
  have hassert : m ≤ u.self.streamingWriteBytesRemaining := by omega
  rw [twin_of_run (assert_run hassert u) (assert_run hassert v)]
  apply ((hR.wrappingWrite hwu hmod' ptr m).and_left
    (wrappingWrite_spec hwu _ ptr h1 (by omega))).bind
  intro _ ok u' v' hq
  obtain ⟨⟨rfl, hR'⟩, hmv, _⟩ := hq
  rw [twin_unless]
  constructor
  · intro _
    exact ⟨rfl, hR'⟩
  · intro _
    obtain ⟨hall, _⟩ := hR.ends hb (by omega) hn.le
      (show Varint.size n+sent.length+m ≤ Varint.size n+n by omega)
    -- the running offset stays ahead by as much as the end is
    have hsum : u64 (u.self.streamingWriteOffset+(e'-e)+m) =
        u64 (u.self.streamingWriteOffset+m)+(e'-e) := by
      rw [show u.self.streamingWriteOffset+(e'-e)+m = e'+(Varint.size n+sent.length+m) by omega,
        hall, u64_of_lt (by omega)]
      omega
    apply (hR'.setStreamingWrite hsum).bind
    intro _ _ u'' v'' hset
    exact twin_pure.mpr ⟨rfl, hset⟩

theorem streamAll_twin {n : ℕ} {u v : State} {sent : List UInt8} (hw : Writable M s)
    (hl : Layout M s.file (P ++ K)) (hs : Session M s u P K n sent) (hn : Varint.size n+n < M)
    (he : s.file.header.endOffset = e) (hR : Roomy M e e' (Varint.size n+n) (e'-e) u v)
    (behind : Buffer) (chunks : List (List UInt8)) (hne : ∀ c ∈ chunks, c ≠ [])
    (hm : sent.length+chunks.flatten.length ≤ n) :
    Twin (streamAll behind chunks) (streamAll behind chunks) u v (fun a b u' v' => b = a ∧
      Roomy M e e' (Varint.size n+n) (e'-e) u' v') (fun _ _ => True) := by
  -- on the chunks, with the bytes sent before each
  induction chunks generalizing u v sent with
  | nil => exact twin_pure.mpr ⟨rfl, hR⟩
  | cons c chunks ih =>
    rw [List.flatten_cons, List.length_append] at hm
    have hc : 1 ≤ c.length := List.length_pos_iff.mpr (hne c List.mem_cons_self)
    apply ((streamingWrite_twin hw hl hs hn he hR (memory c behind) hc (by omega)).and_left
      (streamingWrite_spec hw hl hs hn (memory c behind) hc (by omega))).bind
    intro _ ok u' v' hq
    obtain ⟨⟨rfl, hR'⟩, _, hdone, _⟩ := hq
    rw [twin_unless]
    constructor
    · intro _
      exact ⟨rfl, hR'⟩
    · intro hok
      have hs' := hdone hok
      rw [contents_memory] at hs'
      apply ih hs' hR' (fun d hd => hne d (List.mem_cons_of_mem _ hd))
      rw [List.length_append]
      omega

theorem streamingWriteFinish_twin {E : State → State → Prop} {n : ℕ} {u v : State}
    {sent : List UInt8} (hw : Writable M s) (hl : Layout M s.file (P ++ K))
    (hs : Session M s u P K n sent) (hn : Varint.size n+n < M) (h1 : 1 ≤ Varint.size n+n)
    (he : s.file.header.endOffset = e) (hall : sent.length = n)
    (hR : Roomy M e e' (Varint.size n+n) (e'-e) u v) :
    Twin streamingWriteFinish streamingWriteFinish u v (fun a b u' v' => b = a ∧
      Matched M e e' u' v') E := by
  have hlt := hl.end_lt
  have hwu := hs.writable hw
  have hle := hR.shadows.end_le
  obtain ⟨hoff, hrem, _⟩ := hR.session
  have hoff' : u.self.streamingWriteOffset = e+(Varint.size n+n) := by
    rw [hs.self, he, hall, Nat.add_assoc]
  have hrem' : u.self.streamingWriteBytesRemaining = 0 := by
    rw [hs.self, hall]
    exact Nat.sub_self n
  rw [streamingWriteFinish, twin_get]
  dsimp only
  rw [hoff, hrem, twin_of_run (assert_run hrem' u) (assert_run hrem' v)]
  apply (assignEnd_twin hwu hR (by omega) h1 hn hoff' (by omega)).bind
  intro _ _ u' v' hq
  refine Twin.bind (R := fun _ _ s' t' => Matched M e e' s' t') (E := E) ?_
    (fun _ _ _ _ hmatched => twin_pure.mpr ⟨rfl, hmatched⟩)
  rw [setStreamingWrite, twin_modify]
  refine ⟨hq.file, hq.torn, hq.steps, ?_⟩
  dsimp only
  rw [hq.self]

/-- A session up to its last call, whichever that is. -/
theorem session_twin {n : ℕ} (hw : Writable M s) (hM : 10 ≤ M) (hl : Layout M s.file L)
    (hn : Varint.size n+n+1 < 2^64) (hR : Shadows M e e' 0 s t)
    (hspared : Spared M s.file.header t.file.header (Varint.size n+n) L) (behind : Buffer)
    {chunks : List (List UInt8)} (hne : ∀ c ∈ chunks, c ≠ []) (hm : chunks.flatten.length ≤ n)
    {f : Bool → Op Bool} (hf : ∀ P K ok u v, L = P ++ K → Varint.size n+n < M →
      Roomy M e e' (Varint.size n+n) (e'-e) u v →
      (ok = true → Session M s u P K n chunks.flatten) →
      Twin (f ok) (f ok) u v (fun a b s' t' => b = a ∧ Matched M e e' s' t') (fun _ u => u = t)) :
    Twin (streamingWriteStart n >>= fun ok =>
        if !ok then pure false else streamAll behind chunks >>= f)
      (streamingWriteStart n >>= fun ok =>
        if !ok then pure false else streamAll behind chunks >>= f) s t
      (fun a b s' t' => b = a ∧ Matched M e e' s' t') (fun _ u => u = t) := by
  by_cases hopen : s.self.streamingWriteOffset = 0
  swap
  · -- neither process gets beyond the first call
    exact streamingWriteStart_twin_open hopen hR
  apply ((streamingWriteStart_twin hw hM hl hopen hn hR hspared).and_left
    (streamingWriteStart_spec hw hM hl hopen hn)).bind
  intro _ ok u v hq
  obtain ⟨⟨rfl, hfalse, htrue⟩, hstart⟩ := hq
  rw [twin_unless]
  refine ⟨fun hok => ⟨rfl, hfalse hok⟩, fun hok => ?_⟩
  cases hstart with
  | refused _ => cases hok
  | cut _ _ _ => cases hok
  | opened hsmall hL hsession =>
    subst hL
    have hall : ([] : List UInt8).length+chunks.flatten.length ≤ n := by
      rwa [List.length_nil, Nat.zero_add]
    have he := hR.end_left
    apply ((streamAll_twin hw hl hsession hsmall he (htrue hok) behind chunks hne hall).and_left
      (streamAll_spec hw hl hsmall behind chunks hne hsession hall)).bind
    intro _ ok' u' v' hq
    obtain ⟨⟨rfl, hR'⟩, _, hdone, _⟩ := hq
    exact hf _ _ _ u' v' rfl hsmall hR' hdone

/-- An attempt on the unreduced header is the attempt on the reduced one. -/
theorem Attempt.run_twin {a : Attempt} (hw : Writable M s) (hM : 10 ≤ M) (hl : Layout M s.file L)
    (ha : a.Valid) (hR : Shadows M e e' 0 s t)
    (hspared : Spared M s.file.header t.file.header a.frameSize L) :
    Twin a.run a.run s t (fun a b s' t' => b = a ∧ Matched M e e' s' t')
      (fun _ u => u = t) := by
  have hlen := a.length_lt ha
  have hle := Varint.size_le (show a.length < 2^64 by omega)
  have hn : Varint.size a.length+a.length+1 < 2^64 := by omega
  cases a with
  | write r behind =>
    exact write_twin hw hM hl _ (List.length_pos_iff.mpr ha.1) hn hR hspared
  | stream chunks behind =>
    apply session_twin hw hM hl hn hR hspared behind ha.1 le_rfl
    intro P K ok u v hL hsmall hRu hdone
    subst hL
    have hpos := Varint.size_pos (show (stream chunks behind).length < 2^64 by omega)
    rw [twin_unless]
    refine ⟨fun _ => ⟨rfl, hRu.shadows.matched⟩, fun hok => ?_⟩
    exact streamingWriteFinish_twin hw hl (hdone hok) hsmall (by omega) hR.end_left rfl hRu
  | abandoned n chunks behind =>
    -- the last call is never made
    apply session_twin hw hM hl hn hR hspared behind ha.1 ha.2.1
    intro _ _ ok u v _ _ hRu _
    exact twin_pure.mpr ⟨rfl, hRu.shadows.matched⟩

end TornOffsets

end CircularLog
