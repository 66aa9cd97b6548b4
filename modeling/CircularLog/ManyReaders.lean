import CircularLog.ManyProcesses

/-! What each of many readers is given while others append. A reader that nobody laps gets records
that were written, each once and in order, though calls fail and processes die around it. -/
namespace CircularLog

/-- A record that comes to be written is not empty. -/
def Move.Nonempty {ι : Type} : Move ι → Prop
  | .adds _ a | .dies _ a _ => a.isWhole = true → a.record ≠ []
  | _ => True

/-- How many bytes lie between the cursor of process `i` and the end. -/
def Processes.lag {ι : Type} (M : ℕ) (σ : Processes ι) (i : ι) : ℕ :=
  match σ.handle i with
  | none => 0
  | some s => (σ.file.header.endOffset+(M-s.self.readOffset))%M

/-- The frame that is attempted, if it is not refused, does not run past the cursor of process `i`.
-/
def Move.Behind {ι : Type} (M : ℕ) (i : ι) (σ : Processes ι) : Move ι → Prop
  | .adds _ a | .dies _ a _ => a.frameSize < M → σ.lag M i+a.frameSize ≤ M
  | _ => True

/-- No attempt of the run laps process `i`. -/
def NeverLapped {ι : Type} [DecidableEq ι] (M : ℕ) (i : ι) : List (Move ι) → Processes ι → Prop
  | [], _ => True
  | m :: ms, σ => m.Behind M i σ ∧ NeverLapped M i ms (σ.move m)

def Move.Opens {ι : Type} (i : ι) : Move ι → Prop
  | .opens j _ _ _ => j = i
  | _ => False

/-- Process `i` opened the file when `P ++ L` had been written and the ring held `L`. It stands on a
record boundary, if it has the file open, and what it has read and will read are among `L` and the
records written since, in order. -/
structure Follower {ι : Type} (M : ℕ) (i : ι) (P L : List Record) (σ : Processes ι) : Prop where
  history : P ++ L <+: σ.written
  returned : (σ.returned i).Sublist (σ.written.drop P.length)
  unread : ∀ s, σ.handle i = some s → ∃ U, Layout M (σ.file.withStart s.self.readOffset) U ∧
    (∀ r ∈ U, r ≠ []) ∧ (σ.returned i ++ U).Sublist (σ.written.drop P.length)

section ManyReaders
variable {M : ℕ} {s : State} {f g : File} {L U : List Record} {a : Attempt}

/-- Whatever the system answers, `poll` takes records off the front or leaves them. -/
theorem poll_front (hM : 10 ≤ M) (h : Unread M s U) (hU : ∀ r ∈ U, r ≠ []) :
    Sat poll s (fun taken t => t.file = s.file ∧ ∃ V, U = taken ++ V ∧ Unread M t V) := by
  cases U with
  | nil =>
    apply (nextRecordSize_none h).bind
    intro v t hspec
    obtain ⟨rfl, rfl⟩ := hspec
    exact sat_pure.mpr ⟨rfl, [], rfl, h⟩
  | cons r U =>
    apply (nextRecordSize_spec hM h).bind
    intro v t hspec
    obtain ⟨hl, _, hu, hv, _⟩ := hspec
    rcases hv with rfl | rfl
    · exact sat_pure.mpr ⟨hl.file, r :: U, rfl, hu⟩
    · apply (read_spec hM hu (hU r List.mem_cons_self) _ r.length).bind
      intro v u hspec
      obtain ⟨ok, buffer⟩ := v
      obtain ⟨hl', hcases, _, _⟩ := hspec
      have hfile := hl'.file.trans hl.file
      rcases hcases with ⟨hno, _, hu'⟩ | ⟨hv, _, hu', _⟩
      · -- the record stays for the next time
        cases hno
        exact sat_pure.mpr ⟨hfile, r :: U, rfl, hu'⟩
      · cases hv
        have hrecord := contents_overlay r fun _ => 0
        exact sat_pure.mpr ⟨hfile, U, by rw [hrecord]; rfl, hu'⟩

/-- The records between an offset and the end depend on the end and on their own cells. -/
theorem Layout.withStart_congr {offset : ℕ} (hl : Layout M (f.withStart offset) U)
    (hend : g.header.endOffset = f.header.endOffset)
    (hd : ∀ p, Covers M offset (used U) p → g.data p = f.data p) :
    Layout M (g.withStart offset) U := by
  refine ⟨hl.start_lt, hend.trans hl.end_eq, hl.fits, ?_⟩
  apply hl.bytes.congr
  intro p hp
  rw [frames_length] at hp
  exact hd p hp

/-- An attempt that stays behind a reader leaves it what it had to read, and the new record, or
hides it all when the record fills the area up to the cursor. -/
theorem Remains.unread {offset : ℕ} (hr : Remains M a f L g) (hstart : g.header.startOffset < M)
    (hend : g.header.endOffset < M) (hl : Layout M (f.withStart offset) U)
    (hfit : a.frameSize < M → used U+a.frameSize ≤ M) :
    ∃ V, Layout M (g.withStart offset) V ∧
      ((g.header.endOffset = f.header.endOffset ∧ V = U) ∨
        (g.header.endOffset ≠ f.header.endOffset ∧ a.isWhole = true ∧
          (V = [] ∨ V = U ++ [a.record]))) := by
  -- whether the record is there shows in the end
  rcases hr.decodes hstart hend with ⟨he, _⟩ | ⟨hne, _, hwhole, hsmall, P, hfilled⟩
  · refine ⟨U, hl.withStart_congr he ?_, Or.inl ⟨he, rfl⟩⟩
    intro p hp
    apply hr.marked.data p
    rintro ⟨hlt, hc⟩
    -- the cells of the frame are free as seen from the cursor too
    have hcells : Covers M ((f.withStart offset).header.startOffset+used []) (used U) p := hp
    exact Layout.free (P := []) hl (hfit hlt) hcells hc
  · have hsize := a.frameSize_eq hwhole
    have hfit' : used U+frameSize a.record ≤ M := by
      rw [← hsize]
      exact hfit (by omega)
    refine ⟨_, hfilled.layoutFrom hl hfit', Or.inr ⟨hne, hwhole, ?_⟩⟩
    split_ifs
    · exact Or.inl rfl
    · exact Or.inr rfl

end ManyReaders

section Followers
variable {ι : Type} {M : ℕ} {σ τ : Processes ι} {i j : ι} {P L : List Record}

/-- A move that leaves the file, the records and the process alone. -/
theorem Follower.congr (h : Follower M i P L σ) (hfile : τ.file = σ.file)
    (hwritten : τ.written = σ.written) (hreturned : τ.returned i = σ.returned i)
    (hhandle : τ.handle i = σ.handle i ∨ τ.handle i = none) : Follower M i P L τ := by
  constructor
  · rw [hwritten]
    exact h.history
  · rw [hreturned, hwritten]
    exact h.returned
  · intro s hs
    rcases hhandle with hsame | hnone
    · rw [hsame] at hs
      rw [hfile, hreturned, hwritten]
      exact h.unread s hs
    · rw [hnone] at hs
      cases hs

variable [DecidableEq ι]

theorem Follower.tried (h : Follower M i P L σ) (hs : Sound M σ) (hM : 10 ≤ M) {a : Attempt}
    (ha : a.Valid) (m : Move ι) (hm : m = .adds j a ∨ ∃ n, m = .dies j a n)
    (hsettled : m.Settled M σ) (hne : a.isWhole = true → a.record ≠ [])
    (hbehind : a.frameSize < M → σ.lag M i+a.frameSize ≤ M) :
    Follower M i P L (σ.move m) := by
  obtain ⟨K, _, hl⟩ := hs.layout
  obtain ⟨s', g, hmove, hr, hstart, hend, hs'⟩ := hs.attempt hM hl ha m hm hsettled
  rw [hmove]
  have hwritten : σ.written <+: (σ.tried j s' g a.record).written := by
    dsimp only [Processes.tried]
    split_ifs
    · exact List.prefix_rfl
    · exact List.prefix_append _ _
  have hsince := hwritten.sublist.drop P.length
  have hgone : P.length ≤ σ.written.length := by
    have hlen := h.history.length_le
    rw [List.length_append] at hlen
    omega
  refine ⟨h.history.trans hwritten, h.returned.trans hsince, ?_⟩
  intro t ht
  -- the process itself may have made the attempt; its cursor is where it was
  have hcursor : ∃ s, σ.handle i = some s ∧ t.self.readOffset = s.self.readOffset := by
    have ht' : Function.update σ.handle j s' i = some t := ht
    by_cases hij : i = j
    · subst hij
      rw [Function.update_self] at ht'
      obtain ⟨s, hsi, _, hc⟩ := hs' t ht'
      exact ⟨s, hsi, hc⟩
    · rw [Function.update_of_ne hij] at ht'
      exact ⟨t, ht', rfl⟩
  obtain ⟨s, hsi, hc⟩ := hcursor
  obtain ⟨U, hU, hnonempty, hsub⟩ := h.unread s hsi
  have hfit : a.frameSize < M → used U+a.frameSize ≤ M := by
    intro hlt
    have hlag : σ.lag M i = (σ.file.header.endOffset+(M-s.self.readOffset))%M := by
      rw [Processes.lag, hsi]
    rw [← hU.distance]
    exact hlag ▸ hbehind hlt
  obtain ⟨V, hV, hcases⟩ := hr.unread hstart hend hU hfit
  rw [hc]
  refine ⟨V, hV, ?_⟩
  dsimp only [Processes.tried, Processes.leave]
  rcases hcases with ⟨he, rfl⟩ | ⟨hmoved, hwhole, rfl | rfl⟩
  · rw [if_pos he]
    exact ⟨hnonempty, hsub⟩
  · -- the end has come to the cursor: nothing is left to read, which loses no order
    rw [List.append_nil]
    exact ⟨by simp, h.returned.trans hsince⟩
  · rw [if_neg hmoved, ← List.append_assoc, List.drop_append_of_le_length hgone]
    refine ⟨?_, hsub.append_right _⟩
    intro r hr'
    rcases List.mem_append.mp hr' with hr' | hr'
    · exact hnonempty r hr'
    · rw [List.mem_singleton.mp hr']
      exact hne hwhole

/-- A process that opens the file has all its records to read. -/
theorem Follower.opened (hl : Layout M σ.file L) (hL : σ.written = P ++ L)
    (hne : ∀ r ∈ σ.written, r ≠ []) (mode : Mode) (junk : Ringfile) (outcomes : ℕ → Outcome) :
    Follower M i P L (σ.move (.opens i mode junk outcomes)) := by
  have hnone : (σ.move (.opens i mode junk outcomes)).returned i = [] := Function.update_self _ _ _
  have hwritten : (σ.move (.opens i mode junk outcomes)).written = P ++ L := hL
  refine ⟨by rw [hwritten], by rw [hnone]; exact List.nil_sublist _, ?_⟩
  intro t ht
  rw [hnone, hwritten, List.drop_left]
  dsimp only [Processes.move, Processes.leave] at ht
  rw [Function.update_self] at ht
  cases hopen : openFile junk.construct (some σ.file) mode outcomes with
  | opened s =>
    rw [hopen] at ht
    cases ht
    obtain ⟨_, _, rfl⟩ := openFile_opened hopen
    exact ⟨L, hl, fun r hr => hne r (by rw [hL]; exact List.mem_append_right P hr),
      List.Sublist.refl L⟩
  | failed self path rest =>
    rw [hopen] at ht
    cases ht
  | fault f =>
    rw [hopen] at ht
    cases ht

theorem Follower.polls (h : Follower M i P L σ) (hs : Sound M σ) (hM : 10 ≤ M) :
    Follower M i P L (σ.move (.polls j)) := by
  cases hj : σ.handle j with
  | none =>
    have hmove : σ.move (.polls j) = σ := by
      simp [Processes.move, Processes.call_none hj]
    rw [hmove]
    exact h
  | some s =>
    by_cases hij : i = j
    · -- its own call, made from a record boundary
      subst hij
      obtain ⟨U, hU, hnonempty, hsub⟩ := h.unread s hj
      have husable := (hs.attached i s hj).usable hs.bound hs.length
      have hpoll := (poll_front hM ⟨husable, hU⟩ hnonempty).ends (fun _ _ => False)
      rcases Processes.call_of_ends hj hpoll with ⟨taken, t, hcall, hfile, V, rfl, hV⟩ | ⟨_, _, hno⟩
      · have hmove : σ.move (.polls i) = { σ.leave i (some t) t.file with
            returned := Function.update σ.returned i (σ.returned i ++ taken) } := by
          rw [Processes.move, hcall]
          rfl
        have hsplit : σ.returned i ++ taken ++ V = σ.returned i ++ (taken ++ V) :=
          List.append_assoc _ _ _
        rw [← hsplit] at hsub
        rw [hmove]
        constructor
        · exact h.history
        · dsimp only
          rw [Function.update_self]
          exact (List.sublist_append_left _ V).trans hsub
        · intro u hu
          dsimp only [Processes.leave] at hu ⊢
          rw [Function.update_self] at hu ⊢
          cases hu
          exact ⟨V, hV.layout, fun r hr => hnonempty r (List.mem_append_right _ hr), hsub⟩
      · exact hno.elim
    · -- somebody else's, which leaves the file alone
      obtain ⟨s', records, hmove, _⟩ := Processes.move_polls hs.attached j
      rw [hmove]
      exact h.congr rfl rfl (Function.update_of_ne hij _ _)
        (Or.inl (Function.update_of_ne hij _ _))

/-- What one move preserves. -/
theorem Follower.move (h : Follower M i P L σ) (hs : Sound M σ) (hM : 10 ≤ M) {m : Move ι}
    (hm : m.Valid) (hm' : m.Nonempty) (hopens : ¬m.Opens i) (hsettled : m.Settled M σ)
    (hbehind : m.Behind M i σ) : Follower M i P L (σ.move m) := by
  cases m with
  | opens j mode junk outcomes =>
    have hij : i ≠ j := fun hij => hopens hij.symm
    exact h.congr rfl rfl (Function.update_of_ne hij _ _) (Or.inl (Function.update_of_ne hij _ _))
  | exits j =>
    refine h.congr rfl rfl rfl ?_
    by_cases hij : i = j
    · subst hij
      exact Or.inr (Function.update_self _ _ _)
    · exact Or.inl (Function.update_of_ne hij _ _)
  | adds j a => exact h.tried hs hM hm _ (Or.inl rfl) hsettled hm' hbehind
  | dies j a n => exact h.tried hs hM hm _ (Or.inr ⟨n, rfl⟩) hsettled hm' hbehind
  | polls j => exact h.polls hs hM

/-- No empty record is written. -/
theorem Sound.move_nonempty (hs : Sound M σ) (hM : 10 ≤ M) (hne : ∀ r ∈ σ.written, r ≠ [])
    {m : Move ι} (hm : m.Valid) (hm' : m.Nonempty) (hsettled : m.Settled M σ) :
    ∀ r ∈ (σ.move m).written, r ≠ [] := by
  have htried {j : ι} {a : Attempt} (ha : a.Valid) (hwhole : a.isWhole = true → a.record ≠ [])
      (hj : m = .adds j a ∨ ∃ n, m = .dies j a n) : ∀ r ∈ (σ.move m).written, r ≠ [] := by
    obtain ⟨L, _, hl⟩ := hs.layout
    obtain ⟨s', g, hmove, hr, hstart, hend, _⟩ := hs.attempt hM hl ha m hj hsettled
    rw [hmove]
    dsimp only [Processes.tried]
    rcases hr.decodes hstart hend with ⟨he, _⟩ | ⟨hmoved, _, hw, _⟩
    · rw [if_pos he]
      exact hne
    · rw [if_neg hmoved]
      intro r hr'
      rcases List.mem_append.mp hr' with hr' | hr'
      · exact hne r hr'
      · rw [List.mem_singleton.mp hr']
        exact hwhole hw
  cases m with
  | opens j mode junk outcomes => exact hne
  | exits j => exact hne
  | adds j a => exact htried hm hm' (Or.inl rfl)
  | dies j a n => exact htried hm hm' (Or.inr ⟨n, rfl⟩)
  | polls j =>
    obtain ⟨s', records, hmove, _⟩ := Processes.move_polls hs.attached j
    rw [hmove]
    exact hne

/-- What a run preserves. -/
theorem Follower.run (h : Follower M i P L σ) (hs : Sound M σ) (hM : 10 ≤ M) {ms : List (Move ι)}
    (hms : ∀ m ∈ ms, m.Valid ∧ m.Nonempty) (hopens : ∀ m ∈ ms, ¬m.Opens i)
    (hsettled : Settled M ms σ) (hnever : NeverLapped M i ms σ) :
    Follower M i P L (σ.run ms) := by
  -- on the moves; `Sound` goes along
  induction ms generalizing σ with
  | nil => exact h
  | cons m ms ih =>
    obtain ⟨hm, hrest⟩ := hsettled
    obtain ⟨hbehind, hlater⟩ := hnever
    obtain ⟨hvalid, hnonempty⟩ := hms m List.mem_cons_self
    exact ih (h.move hs hM hvalid hnonempty (hopens m List.mem_cons_self) hm hbehind)
      (hs.move hM hvalid hm) (fun m' hm' => hms m' (List.mem_cons_of_mem _ hm'))
      (fun m' hm' => hopens m' (List.mem_cons_of_mem _ hm')) hrest hlater

theorem Sound.run_nonempty (hs : Sound M σ) (hM : 10 ≤ M) (hne : ∀ r ∈ σ.written, r ≠ [])
    {ms : List (Move ι)} (hms : ∀ m ∈ ms, m.Valid ∧ m.Nonempty) (hsettled : Settled M ms σ) :
    ∀ r ∈ (σ.run ms).written, r ≠ [] := by
  induction ms generalizing σ with
  | nil => exact hne
  | cons m ms ih =>
    obtain ⟨hm, hrest⟩ := hsettled
    obtain ⟨hvalid, hnonempty⟩ := hms m List.mem_cons_self
    exact ih (hs.move hM hvalid hm) (hs.move_nonempty hM hne hvalid hnonempty hm)
      (fun m' hm' => hms m' (List.mem_cons_of_mem _ hm')) hrest

end Followers

/-- A writer dies while it adds a record, and another one goes on. -/
def relayRun : List (Move ℕ) :=
  [.polls 1, .dies 0 (.write [4, 5] uninitialized) 2, .opens 2 .append blank allDone,
    .adds 2 (.write [6] uninitialized), .polls 1]

end CircularLog
