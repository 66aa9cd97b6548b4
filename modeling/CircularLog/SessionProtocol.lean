import CircularLog.Histories

/-! The four write-side calls in any order. `StreamingWriteStart` asserts that no session is open
and `StreamingWrite` that the record has room left, but `Write` does not look at the session and
`StreamingWriteFinish` does not ask whether there is one. -/
namespace CircularLog

inductive WriteCall
  | write (r : Record) (behind : Buffer)
  | start (n : ℕ)
  | chunk (data : List UInt8) (behind : Buffer)
  | finish

def WriteCall.run : WriteCall → Op Bool
  | .write r behind => CircularLog.write (memory r behind) r.length
  | .start n => streamingWriteStart n
  | .chunk data behind => streamingWrite (memory data behind) data.length
  | .finish => streamingWriteFinish

/-- Make the calls until one returns false. -/
def runWriteCalls : List WriteCall → Op Bool
  | [] => return true
  | c :: cs => do
    if !(← c.run) then
      return false
    runWriteCalls cs

def WriteCall.Valid : WriteCall → Prop
  | .write r _ => r ≠ [] ∧ r.length < 2^63
  | .start n => n < 2^64
  | .chunk data _ => data ≠ []
  | .finish => True

/-- What the assertions leave out: a plain write needs that no session is open, a finish that one
is, and the size a session starts with must not make the size check wrap around. -/
def WriteCall.Guard (s : State) : WriteCall → Prop
  | .write _ _ => s.self.streamingWriteOffset = 0
  | .start n => Varint.size n+n+1 < 2^64
  | .chunk _ _ => True
  | .finish => s.self.streamingWriteOffset ≠ 0

/-- Every call of the run meets its guard when it is made. -/
def Guarded : List WriteCall → State → Prop
  | [], _ => True
  | c :: cs, s => c.Guard s ∧ ∀ t, c.run s = .ok true t → Guarded cs t

/-- The records completed and the bytes of the open session after a call that returned true. -/
def WriteCall.after :
    List Record × Option (List UInt8) → WriteCall → List Record × Option (List UInt8)
  | (V, sent), .write r _ => (V ++ [r], sent)
  | (V, _), .start _ => (V, some [])
  | (V, sent), .chunk data _ => (V, sent.map (· ++ data))
  | (V, some sent), .finish => (V ++ [sent], none)
  | (V, none), .finish => (V, none)

/-- The records completed by calls that all returned true, after those of `V`. -/
def completed (V : List Record) (cs : List WriteCall) : List Record :=
  (cs.foldl WriteCall.after (V, none)).1

/-- Where the handle stands between the calls: `V` are the records completed, and a session is
either closed or has sent some bytes. -/
inductive Phase (M : ℕ) : List Record × Option (List UInt8) → State → Prop
  | closed {s : State} {V L : List Record} (h : Ready M s L) (hL : L <:+ V)
      (hrem : s.self.streamingWriteBytesRemaining = 0) : Phase M (V, none) s
  | opened {s t : State} {V P K : List Record} {n : ℕ} {sent : List UInt8}
      (h : Ready M s (P ++ K)) (hL : P ++ K <:+ V) (hs : Session M s t P K n sent)
      (hn : Varint.size n+n < M) : Phase M (V, some sent) t

section SessionProtocol
variable {M : ℕ} {s t : State} {p : List Record × Option (List UInt8)}

theorem assert_stops {α : Type} {c : Prop} [Decidable c] (hc : ¬c) (x : Unit → Op α)
    (Q : α → State → Prop) : SatOr .assertion (assert c >>= x) s Q := by
  refine Or.inl ⟨s, ?_⟩
  rw [run_bind, assert, if_neg hc]
  rfl

theorem satOr_get_bind {α : Type} {x : State → Op α} {Q : α → State → Prop} :
    SatOr .assertion (get >>= x) s Q ↔ SatOr .assertion (x s) s Q := Iff.rfl

theorem Phase.layout (h : Phase M p s) : ∃ K, K <:+ p.1 ∧ Layout M s.file K := by
  cases h with
  | closed h hL hrem => exact ⟨_, hL, h.layout⟩
  | opened h hL hs hn =>
    have hpending := hs.writing.pending h.layout (hs.fits hn)
    exact ⟨_, List.IsSuffix.trans ⟨_, rfl⟩ hL, hpending.layout h.layout⟩

theorem Session.offset_ne_zero {P K : List Record} {n : ℕ} {sent : List UInt8}
    (hs : Session M s t P K n sent) (hb : n < 2^64) : t.self.streamingWriteOffset ≠ 0 := by
  have hsize := Varint.size_pos hb
  rw [hs.self]
  dsimp only
  omega

theorem WriteCall.run_spec (hM : 10 ≤ M) (h : Phase M p t) {c : WriteCall} (hc : c.Valid)
    (hg : c.Guard t) :
    SatOr .assertion c.run t (fun ok u => ok = true → Phase M (WriteCall.after p c) u) := by
  -- a call that is not stopped leads from one phase to a phase
  cases h with
  | closed h hL hrem =>
    cases c with
    | write r behind =>
      apply Sat.or
      have hs := Varint.size_le (show r.length < 2^64 by have := hc.2; omega)
      refine (write_ready h hM behind hc.1 hc.2).mono ?_
      intro ok u hspec hok
      obtain ⟨hwrite, hself⟩ := hspec
      cases hwrite with
      | refused hbig => cases hok
      | written _ _ _ _ hu =>
        refine .closed hu (afterWrite_history hL r) ?_
        rw [hself]
        exact hrem
    | start n =>
      apply Sat.or
      refine (streamingWriteStart_spec h.writable hM h.layout h.closed hg).mono ?_
      intro ok u hstart hok
      cases hstart with
      | refused hbig => cases hok
      | cut _ _ _ => cases hok
      | opened hsmall hPK hs =>
        subst hPK
        exact .opened h hL hs hsmall
    | chunk data behind =>
      -- no bytes remain, so the assertion of `StreamingWrite` fails
      have hlen := List.length_pos_iff.mpr hc
      rw [WriteCall.run, streamingWrite, satOr_get_bind]
      apply assert_stops
      omega
    -- the guard excludes a finish without a session
    | finish => exact absurd h.closed hg
  | @opened s _ V P K n sent h hL hs hn =>
    have hb := h.writable.bound
    have hoffset := hs.offset_ne_zero (by omega)
    have hremaining : t.self.streamingWriteBytesRemaining = n-sent.length := by rw [hs.self]
    have hsent := hs.sent_le
    cases c with
    -- the guard excludes a plain write here, and the assertion a second start
    | write r behind => exact absurd hg hoffset
    | start m =>
      rw [WriteCall.run, streamingWriteStart, satOr_get_bind]
      exact assert_stops hoffset _ _
    | chunk data behind =>
      by_cases hfit : sent.length+data.length ≤ n
      · apply Sat.or
        refine (streamingWrite_spec h.writable h.layout hs hn (memory data behind)
          (List.length_pos_iff.mpr hc) hfit).mono ?_
        intro ok u hchunk hok
        have hmore := hchunk.2.1 hok
        rw [contents_memory] at hmore
        exact .opened h hL hmore hn
      · -- more bytes than announced
        rw [WriteCall.run, streamingWrite, satOr_get_bind]
        apply assert_stops
        omega
    | finish =>
      by_cases hall : sent.length = n
      · apply Sat.or
        refine (streamingWriteFinish_spec h.writable h.layout hs hn hall).mono ?_
        intro ok u hfinish _
        obtain ⟨_, hself, hcompleted⟩ := hfinish
        subst hall
        have hready : Ready M u (afterWrite M (P ++ K) sent) := by
          apply Completed.ready hcompleted h hn hs.kept
          all_goals rw [hself]
        refine .closed hready (afterWrite_history hL sent) ?_
        rw [hself]
      · -- bytes are missing
        rw [WriteCall.run, streamingWriteFinish, satOr_get_bind]
        apply assert_stops
        omega

theorem runWriteCalls_spec (hM : 10 ≤ M) (cs : List WriteCall) (hcs : ∀ c ∈ cs, c.Valid)
    (h : Phase M p s) (hg : Guarded cs s) :
    SatOr .assertion (runWriteCalls cs) s (fun ok t => ok = true →
      Phase M (cs.foldl WriteCall.after p) t) := by
  -- on the calls, each from the phase that the last one left
  induction cs generalizing s p with
  | nil =>
    apply Sat.or
    exact sat_pure.mpr (fun _ => h)
  | cons c cs ih =>
    obtain ⟨hfirst, hrest⟩ := hg
    have hstep := c.run_spec hM h (hcs c List.mem_cons_self) hfirst
    rcases hstep with ⟨t, ht⟩ | ⟨ok, t, ht, hphase⟩
    · refine Or.inl ⟨t, ?_⟩
      rw [runWriteCalls, run_bind, ht]
    · have hrun : SatOr .assertion c.run s (fun a u => a = ok ∧ u = t) :=
        Or.inr ((sat_of_run ht).mpr ⟨rfl, rfl⟩)
      rw [runWriteCalls]
      apply hrun.bind
      intro a u hau
      obtain ⟨ha, hu⟩ := hau
      subst ha hu
      cases a with
      | false =>
        apply Sat.or
        exact sat_pure.mpr (fun hno => Bool.noConfusion hno)
      | true =>
        exact ih (fun d hd => hcs d (List.mem_cons_of_mem _ hd)) (hphase rfl) (hrest u ht)

theorem Guarded.append_left {cs ds : List WriteCall} (h : Guarded (cs ++ ds) s) : Guarded cs s := by
  induction cs generalizing s with
  | nil => trivial
  | cons c cs ih => exact ⟨h.1, fun t ht => ih (h.2 t ht)⟩

/-- What the guards ask of the order of the calls: a plain write outside a session, a finish inside
one. -/
def WriteCall.InOrder : Option (List UInt8) → WriteCall → Prop
  | sent, .write _ _ => sent = none
  | _, .start n => Varint.size n+n+1 < 2^64
  | _, .chunk _ _ => True
  | sent, .finish => sent ≠ none

def InOrder : List Record × Option (List UInt8) → List WriteCall → Prop
  | _, [] => True
  | p, c :: cs => c.InOrder p.2 ∧ InOrder (WriteCall.after p c) cs

theorem Phase.guarded (hM : 10 ≤ M) (cs : List WriteCall) (hcs : ∀ c ∈ cs, c.Valid)
    (h : Phase M p s) (ho : InOrder p cs) : Guarded cs s := by
  induction cs generalizing s p with
  | nil => trivial
  | cons c cs ih =>
    obtain ⟨hfirst, hrest⟩ := ho
    -- the phase says whether a session is open
    have hg : c.Guard s := by
      cases h with
      | closed h hL hrem =>
        cases c with
        | write r behind => exact h.closed
        | start n => exact hfirst
        | chunk data behind => trivial
        | finish => exact absurd rfl hfirst
      | opened h hL hs hn =>
        have hb := h.writable.bound
        cases c with
        | write r behind => cases hfirst
        | start n => exact hfirst
        | chunk data behind => trivial
        | finish => exact hs.offset_ne_zero (by omega)
    refine ⟨hg, fun t ht => ?_⟩
    apply ih (fun d hd => hcs d (List.mem_cons_of_mem _ hd)) _ hrest
    rcases c.run_spec hM h (hcs c List.mem_cons_self) hg with hstop | hrun
    · obtain ⟨u, hu⟩ := hstop
      rw [ht] at hu
      cases hu
    · exact (sat_of_run ht).mp hrun rfl

theorem streamRecord_closed {L W : List Record} (hM : 10 ≤ M) (h : Ready M s L) (hL : L <:+ W)
    {chunks : List (List UInt8)} {behind : Buffer} (hne : ∀ c ∈ chunks, c ≠ [])
    (hr : chunks.flatten.length < 2^63)
    (ht : streamRecord behind chunks.flatten.length chunks s = .ok true t) :
    Phase M (W ++ [chunks.flatten], none) t := by
  obtain ⟨hwrite, hself⟩ := (sat_of_run ht).mp (stream_ready h hM behind hne hr)
  cases hwrite with
  | written _ _ _ _ hready =>
    refine .closed hready (afterWrite_history hL _) ?_
    rw [hself rfl]

end SessionProtocol

/-- In a run whose calls all meet their guards, after a completed session, an assertion stops the
run, a call returns false, or the file holds a suffix of the records completed, after every call. -/
theorem guarded_calls_hold {M : ℕ} (hM : 10 ≤ M) {s t : State} {W : List Record}
    (h : Reachable M s W) {first : List (List UInt8)} {behind : Buffer} (hne : ∀ c ∈ first, c ≠ [])
    (hr : first.flatten.length < 2^63)
    (ht : streamRecord behind first.flatten.length first s = .ok true t) {cs : List WriteCall}
    (hcs : ∀ c ∈ cs, c.Valid) (hg : Guarded cs t) {done rest : List WriteCall}
    (hsplit : cs = done ++ rest) :
    SatOr .assertion (runWriteCalls done) t (fun ok u => ok = true →
      ∃ K, K <:+ completed (W ++ [first.flatten]) done ∧ Layout M u.file K) := by
  subst hsplit
  obtain ⟨L, hL, hready⟩ := h.ready hM
  have hphase := streamRecord_closed hM hready hL hne hr ht
  refine (runWriteCalls_spec hM done (fun c hc => hcs c (List.mem_append_left rest hc)) hphase
    hg.append_left).mono ?_
  intro ok u hu hok
  exact (hu hok).layout

theorem guarded_calls_hold_session :
    ∃ s t, create blank.construct none (26+24) allDone = .opened s ∧
      streamRecord uninitialized 3 [[1], [2, 3]] s = .ok true t ∧
      SatOr .assertion (runWriteCalls [.start 2, .chunk [4, 5] uninitialized, .finish,
        .write [6] uninitialized]) t (fun ok u => ok = true →
          ∃ K, K <:+ [[1, 2, 3], [4, 5], [6]] ∧ Layout 26 u.file K) := by
  obtain ⟨s, hs, hready, _⟩ := create_ready (M := 26) blank (by norm_num) (by norm_num)
  have hne : ∀ c ∈ ([[1], [2, 3]] : List (List UInt8)), c ≠ [] := by simp
  obtain ⟨ok, t, ht, hbig | ⟨_, _, _, _, _⟩, _⟩ := stream_ready hready (by norm_num) uninitialized
    hne (by decide)
  · exact absurd hbig (by decide)
  have hphase := streamRecord_closed (by norm_num) hready List.suffix_rfl hne (by decide) ht
  have hvalid : ∀ c ∈ [WriteCall.start 2, .chunk [4, 5] uninitialized, .finish,
      .write [6] uninitialized], c.Valid := by
    simp [WriteCall.Valid]
  have hg : Guarded [.start 2, .chunk [4, 5] uninitialized, .finish, .write [6] uninitialized]
      t := by
    apply hphase.guarded (by norm_num) _ hvalid
    refine ⟨?_, trivial, Option.some_ne_none _, rfl, trivial⟩
    change Varint.size 2+2+1 < 2^64
    decide
  exact ⟨s, t, hs, ht, guarded_calls_hold (by norm_num) (Reachable.create blank hs) hne
    (by decide) ht hvalid hg (List.append_nil _).symm⟩

/-- A plain write inside a session: no assertion stops it and every call returns true, but the
session's header is overwritten, and no suffix of the records completed is what the file then
holds. -/
theorem write_inside_session :
    ∃ s t u, create blank.construct none (26+24) allDone = .opened s ∧
      streamRecord uninitialized 3 [[1, 2, 3]] s = .ok true t ∧
      runWriteCalls [.start 5, .write [9, 9] uninitialized, .chunk [1, 2, 3, 4, 5] uninitialized,
        .finish] t = .ok true u ∧
      ∀ K, K <:+ [[1, 2, 3], [9, 9], [1, 2, 3, 4, 5]] → ¬Layout 26 u.file K := by
  obtain ⟨s, hs, hresult⟩ : ∃ s, create blank.construct none (26+24) allDone = .opened s ∧
      resultOf (do
        let streamed ← streamRecord uninitialized 3 [[1, 2, 3]]
        let written ← runWriteCalls [.start 5, .write [9, 9] uninitialized,
          .chunk [1, 2, 3, 4, 5] uninitialized, .finish]
        return (streamed, written, (← get).file.header)) s =
        some (true, true, ⟨kMagic, 0, 0, 10⟩) := ⟨_, rfl, by decide +kernel⟩
  obtain ⟨v, hv⟩ := resultOf_eq_some.mp hresult
  have hrun := (sat_of_run (Q := fun a _ => a = (true, true, ⟨kMagic, 0, 0, 10⟩)) hv).mpr rfl
  obtain ⟨streamed, t, ht, hrest⟩ := sat_bind.mp hrun
  obtain ⟨written, u, hu, hlast⟩ := sat_bind.mp hrest
  rw [sat_bind, sat_get, sat_pure, Prod.mk.injEq, Prod.mk.injEq] at hlast
  obtain ⟨hstreamed, hwritten, hheader⟩ := hlast
  subst hstreamed hwritten
  refine ⟨s, t, u, hs, ht, hu, ?_⟩
  intro K hK hl
  -- the frames of no suffix end where the file ends
  have hend := hl.end_eq
  rw [hheader] at hend
  have hsuffixes : K = [[1, 2, 3], [9, 9], [1, 2, 3, 4, 5]] ∨ K = [[9, 9], [1, 2, 3, 4, 5]] ∨
      K = [[1, 2, 3, 4, 5]] ∨ K = [] := by
    simpa [List.suffix_cons_iff] using hK
  rcases hsuffixes with h | h | h | h
  all_goals
    subst h
    revert hend
    decide

end CircularLog
