import CircularLog.ManyReaders
import CircularLog.Transducer

/-! The ring as the processes that use it see it while nothing fails: one log, and for each process
a place in it. Their calls, in any order, are answered as calls on this one object are. -/
namespace CircularLog

/-- A process that has the log open: what for, and what it has not read yet. Who appends past the
place of a reader makes the reader lose it. -/
structure Client where
  mode : Mode
  unread : Option (List Record)

/-- The log that a process opening it finds, and the processes that have it open. -/
structure SharedLog (ι : Type) where
  records : List Record
  client : ι → Option Client

/-- What a process does next. -/
inductive Request (ι : Type)
  | opens (i : ι) (mode : Mode) (junk : Ringfile)
  | exits (i : ι)
  | adds (i : ι) (a : Attempt)
  | polls (i : ι)

/-- What it is told; `none` is for a process that is not there. -/
inductive Reply
  | done
  | added (ok : Option Bool)
  | polled (records : Option (List Record))
  deriving DecidableEq

/-- The move that carries out a request, while every system call does all it is asked for. -/
def Request.move {ι : Type} : Request ι → Move ι
  | .opens i mode junk => .opens i mode junk allDone
  | .exits i => .exits i
  | .adds i a => .adds i a
  | .polls i => .polls i

section Serve
variable {ι : Type} [DecidableEq ι]

def Processes.reply (σ : Processes ι) : Request ι → Reply
  | .adds i a => .added (σ.call i a.run).1
  | .polls i => .polled (σ.call i poll).1
  | _ => .done

def Processes.serve (σ : Processes ι) (q : Request ι) : Reply × Processes ι :=
  (σ.reply q, σ.move q.move)

/-- A new record goes behind what is unread, if there is room for it before the place of the reader.
A record that fills the room exactly brings the end to that place, and nothing is unread. -/
def Client.pushed (M : ℕ) (r : Record) (c : Client) : Client :=
  { c with
    unread := c.unread.bind fun U =>
      if used U+frameSize r < M then some (U ++ [r])
      else if used U+frameSize r = M then some []
      else none }

/-- One request to the shared log. -/
def SharedLog.serve (M : ℕ) (A : SharedLog ι) : Request ι → Reply × SharedLog ι
  | .opens i mode _ =>
    (.done, { A with client := Function.update A.client i (some ⟨mode, some A.records⟩) })
  | .exits i => (.done, { A with client := Function.update A.client i none })
  | .adds i a =>
    match A.client i with
    | none => (.added none, A)
    | some _ =>
      if frameSize a.record < M then
        (.added (some true), {
          records := afterWrite M A.records a.record
          client := fun j => (A.client j).map (Client.pushed M a.record) })
      else (.added (some false), A)
  | .polls i =>
    match A.client i with
    | none => (.polled none, A)
    | some c =>
      (.polled (c.unread.map (List.take 1)), { A with
        client := Function.update A.client i
          (some { c with unread := c.unread.map (List.drop 1) }) })

/-- Records that are not empty are added by processes that opened the log for it, and who polls has
not lost its place. -/
def SharedLog.Allows (A : SharedLog ι) : Request ι → Prop
  | .adds i a => a.Valid ∧ a.isWhole = true ∧ a.record ≠ [] ∧
    ∀ c ∈ A.client i, c.mode = .append
  | .polls i => ∀ c ∈ A.client i, c.unread.isSome = true
  | _ => True

end Serve

/-- The handle of a client of a ring with file `f`. -/
structure Stands (M : ℕ) (f : File) (s : State) (c : Client) : Prop where
  size : s.self.size = M+24
  ideal : Ideal s
  closed : s.self.streamingWriteOffset = 0
  mode : (c.mode = .append ∧ s.self.fd = some .append ∧ s.self.header = .readWrite) ∨
    (c.mode = .read ∧ s.self.fd = some .read ∧ s.self.header = .readOnly)
  unread : ∀ U, c.unread = some U →
    Layout M (f.withStart s.self.readOffset) U ∧ ∀ r ∈ U, r ≠ []

/-- The file holds the log, and every process stands where its client does. -/
structure Agrees {ι : Type} (M : ℕ) (σ : Processes ι) (A : SharedLog ι) : Prop where
  bound : M+24 < 2^63
  length : σ.file.length = M+24
  magic : σ.file.header.magic = kMagic
  layout : Layout M σ.file A.records
  nonempty : ∀ r ∈ A.records, r ≠ []
  clients : ∀ i, Option.Rel (Stands M σ.file) (σ.handle i) (A.client i)

section SharedLog
variable {M : ℕ} {s t : State} {f g : File} {L P : List Record} {r : Record} {a : Attempt}
  {c : Client} {U : List Record}

/-- An attempt that is made to the end, by either way of writing. -/
theorem Attempt.run_ready (h : Ready M s L) (hM : 10 ≤ M) (ha : a.Valid)
    (hwhole : a.isWhole = true) :
    Sat a.run s (fun ok t => Recorded M s L a.record ok t ∧
      t.self.readOffset = s.self.readOffset) := by
  cases a with
  | write r behind =>
    refine (write_ready h hM behind ha.1 ha.2).mono ?_
    intro ok t hspec
    refine ⟨hspec.1, ?_⟩
    rw [hspec.2]
  | stream chunks behind =>
    refine (stream_ready h hM behind ha.1 ha.2).mono ?_
    intro ok t hspec
    refine ⟨hspec.1, ?_⟩
    cases hspec.1 with
    | refused hbig => rfl
    | written _ _ _ _ _ => rw [hspec.2 rfl]
  | abandoned n chunks behind => cases hwhole

/-- One poll takes the record in front. -/
theorem poll_take (hM : 10 ≤ M) (h : Unread M s U) (hU : ∀ r ∈ U, r ≠ []) (hi : Ideal s) :
    Sat poll s (fun taken t => taken = U.take 1 ∧ t.file = s.file ∧ Ideal t ∧
      Unread M t (U.drop 1) ∧ t.self = { s.self with
        error := t.self.error
        readOffset := t.self.readOffset }) := by
  cases U with
  | nil =>
    apply (nextRecordSize_none h).bind
    intro v t hspec
    obtain ⟨rfl, rfl⟩ := hspec
    exact sat_pure.mpr ⟨rfl, rfl, hi, h, rfl⟩
  | cons r U =>
    apply (nextRecordSize_spec hM h).bind
    intro v t hspec
    obtain ⟨hl, hself, hu, _, hv⟩ := hspec
    rw [hv hi]
    dsimp only
    apply (read_spec hM hu (hU r List.mem_cons_self) _ r.length).bind
    intro v u hspec
    obtain ⟨ok, buffer⟩ := v
    obtain ⟨hl', hcases, _, hok⟩ := hspec
    rcases hcases with ⟨hno, _, _⟩ | ⟨hyes, _, hu', hself'⟩
    · exact absurd (hok (hl.ideal hi) le_rfl) (ne_true_of_eq_false hno)
    · cases hyes
      have hrecord := contents_overlay r fun _ => 0
      refine sat_pure.mpr ⟨by rw [hrecord]; rfl, hl'.file.trans hl.file,
        hl'.ideal (hl.ideal hi), hu', ?_⟩
      rw [hself', hself]

theorem Stands.attached (h : Stands M f s c) : Attached M s :=
  ⟨h.size, h.mode.imp And.right And.right⟩

/-- A process that has just opened a ring. -/
theorem Stands.opened (hw : WellFormed M f L) (mode : Mode) (junk : Ringfile) :
    openFile junk.construct (some f) mode allDone =
        .opened (openedState junk.construct f mode allDone) ∧
      Stands M f (openedState junk.construct f mode allDone) ⟨mode, some L⟩ := by
  have hlen := hw.length
  refine ⟨openFile_eq junk.construct mode (fun _ => rfl) (by omega) hw.magic, hlen, fun _ => rfl,
    rfl, ?_, ?_⟩
  · cases mode with
    | read => exact Or.inr ⟨rfl, rfl, rfl⟩
    | append => exact Or.inl ⟨rfl, rfl, rfl⟩
  · intro U hU
    cases hU
    exact ⟨hw.layout, hw.nonempty⟩

/-- The process that creates a ring knows nothing of its place in it. -/
theorem Stands.created (junk : Ringfile) (hM : 0 < M) :
    Layout M (createdState junk.construct (M+24) allDone).file [] ∧
      Stands M (createdState junk.construct (M+24) allDone).file
        (createdState junk.construct (M+24) allDone) ⟨.append, none⟩ := by
  refine ⟨createdState_layout junk.construct allDone hM, rfl, fun _ => rfl, rfl,
    Or.inl ⟨rfl, rfl, rfl⟩, ?_⟩
  intro U hU
  cases hU

/-- A client that has the log open for it can write. -/
theorem Stands.ready (h : Stands M f s c) (hmode : c.mode = .append) (hw : WellFormed M f L) :
    Ready M (s.on f) L := by
  obtain ⟨_, hfd, hheader⟩ : c.mode = .append ∧ s.self.fd = some .append ∧
      s.self.header = .readWrite := by
    rcases h.mode with hm | ⟨hread, _⟩
    · exact hm
    · rw [hmode] at hread
      cases hread
  exact ⟨⟨hfd, hheader, h.size, hw.length, hw.bound⟩, h.ideal, h.closed, hw.magic, hw.layout⟩

/-- The handle that was written through is the client's still. -/
theorem Stands.kept (h : Stands M f s c) (hmode : c.mode = .append) (ht : Ready M t L)
    (hcursor : t.self.readOffset = s.self.readOffset) : Stands M f t c := by
  refine ⟨ht.writable.size, ht.ideal, ht.closed,
    Or.inl ⟨hmode, ht.writable.fd, ht.writable.header⟩, ?_⟩
  rw [hcursor]
  exact h.unread

theorem Stands.on (h : Stands M f s c) (g : File) : Stands M f (s.on g) c :=
  ⟨h.size, h.ideal, h.closed, h.mode, h.unread⟩

theorem Stands.unread_on (h : Stands M f s c) (hw : WellFormed M f L) (hc : c.unread = some U) :
    Unread M (s.on f) U ∧ ∀ q ∈ U, q ≠ [] := by
  obtain ⟨hl, hne⟩ := h.unread U hc
  exact ⟨⟨h.attached.usable hw.bound hw.length, hl⟩, hne⟩

/-- A call that changes no field but `error_`, and the cursor. -/
theorem Stands.moved (h : Stands M f s c) (hi : Ideal t) (hf : t.file = f)
    (hself : t.self = { s.self with
      error := t.self.error
      readOffset := t.self.readOffset }) (hu : Unread M t U) (hne : ∀ q ∈ U, q ≠ []) :
    Stands M f t { c with unread := some U } := by
  refine ⟨?_, hi, ?_, ?_, ?_⟩
  · rw [hself]
    exact h.size
  · rw [hself]
    exact h.closed
  · rw [hself]
    exact h.mode
  · intro V hV
    cases hV
    rw [← hf]
    exact ⟨hu.layout, hne⟩

/-- A record added to the ring, as a client sees it that does nothing meanwhile. -/
theorem Stands.pushed (h : Stands M f s c) (hfilled : Filled M f P (frame r) g) (hr : r ≠ []) :
    Stands M g s (c.pushed M r) := by
  refine ⟨h.size, h.ideal, h.closed, h.mode, ?_⟩
  intro V hV
  obtain ⟨U, hU, hcases⟩ := Option.bind_eq_some_iff.mp hV
  obtain ⟨hl, hne⟩ := h.unread U hU
  have hnew (hfit : used U+frameSize r ≤ M) := hfilled.layoutFrom hl hfit
  -- behind what is unread there is room, or just enough; otherwise the client loses its place
  split_ifs at hcases with hroom hexact
  · cases hcases
    have hlayout := hnew hroom.le
    rw [if_neg hroom.ne] at hlayout
    refine ⟨hlayout, ?_⟩
    intro q hq
    rcases List.mem_append.mp hq with hq | hq
    · exact hne q hq
    · rwa [List.mem_singleton.mp hq]
  · cases hcases
    have hlayout := hnew hexact.le
    rw [if_pos hexact] at hlayout
    exact ⟨hlayout, by simp⟩

end SharedLog

section Agrees
variable {ι : Type} [DecidableEq ι] {M : ℕ} {σ : Processes ι} {A : SharedLog ι} {i : ι}

omit [DecidableEq ι] in
theorem Agrees.wellFormed (h : Agrees M σ A) : WellFormed M σ.file A.records :=
  ⟨h.length, h.bound, h.magic, h.layout, h.nonempty⟩

theorem Agrees.opens (h : Agrees M σ A) (i : ι) (mode : Mode) (junk : Ringfile) :
    Agrees M (σ.move (.opens i mode junk allDone)) (A.serve M (.opens i mode junk)).2 := by
  obtain ⟨hopen, hstands⟩ := Stands.opened h.wellFormed mode junk
  refine ⟨h.bound, h.length, h.magic, h.layout, h.nonempty, ?_⟩
  dsimp only [Processes.move, SharedLog.serve]
  rw [hopen]
  exact rel_update h.clients (.some hstands)

theorem Agrees.exits (h : Agrees M σ A) (i : ι) :
    Agrees M (σ.move (.exits i)) (A.serve M (.exits i)).2 :=
  ⟨h.bound, h.length, h.magic, h.layout, h.nonempty, rel_update h.clients .none⟩

omit [DecidableEq ι] in
theorem Agrees.absent (h : Agrees M σ A) (hi : A.client i = none) : σ.handle i = none := by
  have hclient := h.clients i
  rw [hi] at hclient
  exact rel_none_right hclient

omit [DecidableEq ι] in
theorem Agrees.present (h : Agrees M σ A) {c : Client} (hi : A.client i = some c) :
    ∃ s, σ.handle i = some s ∧ Stands M σ.file s c := by
  have hclient := h.clients i
  rw [hi] at hclient
  exact rel_some_right hclient

theorem Agrees.adds (h : Agrees M σ A) (hM : 10 ≤ M) {a : Attempt}
    (hq : A.Allows (.adds i a)) :
    (σ.serve (.adds i a)).1 = (A.serve M (.adds i a)).1 ∧
      Agrees M (σ.serve (.adds i a)).2 (A.serve M (.adds i a)).2 := by
  obtain ⟨ha, hwhole, hne, hmode⟩ := hq
  rw [Processes.serve, Processes.reply, Request.move, Processes.move, SharedLog.serve]
  cases hi : A.client i with
  | none =>
    rw [Processes.call_none (h.absent hi)]
    exact ⟨rfl, h⟩
  | some c =>
    obtain ⟨s, hs, hstands⟩ := h.present hi
    have hready := hstands.ready (hmode c hi) h.wellFormed
    obtain ⟨ok, t, hrun, hrecorded, hcursor⟩ := Attempt.run_ready hready hM ha hwhole
    have hcall : σ.call i a.run = (some ok, σ.leave i (some t) t.file) := by
      rw [Processes.call, hs]
      dsimp only
      rw [hrun]
    rw [hcall]
    dsimp only
    -- the log takes the record exactly when the ring does
    cases hrecorded with
    | refused hbig =>
      rw [if_neg (Nat.not_lt.mpr hbig)]
      refine ⟨rfl, h.bound, h.length, h.magic, h.layout, h.nonempty, ?_⟩
      apply rel_update_left h.clients
      rw [hi]
      exact .some (hstands.on σ.file)
    | @written t P K hsmall hL hK hc ht =>
      rw [if_pos hsmall, if_pos rfl]
      refine ⟨rfl, h.bound, ht.writable.length, ht.magic, ht.layout,
        afterWrite_nonempty M h.nonempty hne, ?_⟩
      have hused : Stands M σ.file t c := hstands.kept (hmode c hi) ht hcursor
      -- all clients, this one included, find the record behind what they have not read
      intro j
      dsimp only [Processes.leave]
      by_cases hj : j = i
      · subst hj
        rw [Function.update_self, hi]
        exact .some (hused.pushed hc.file hne)
      · rw [Function.update_of_ne hj]
        exact rel_map_right (h.clients j) (fun _ _ hother => hother.pushed hc.file hne)

theorem Agrees.polls (h : Agrees M σ A) (hM : 10 ≤ M) (hq : A.Allows (.polls i)) :
    (σ.serve (.polls i)).1 = (A.serve M (.polls i)).1 ∧
      Agrees M (σ.serve (.polls i)).2 (A.serve M (.polls i)).2 := by
  rw [Processes.serve, Processes.reply, Request.move, Processes.move, SharedLog.serve]
  cases hi : A.client i with
  | none =>
    rw [Processes.call_none (h.absent hi)]
    exact ⟨rfl, h.bound, h.length, h.magic, h.layout, h.nonempty, h.clients⟩
  | some c =>
    obtain ⟨s, hs, hstands⟩ := h.present hi
    obtain ⟨U, hU⟩ := Option.isSome_iff_exists.mp (hq c hi)
    obtain ⟨hunread, hne⟩ := hstands.unread_on h.wellFormed hU
    obtain ⟨taken, t, hrun, rfl, hf, hideal, hrest, hself⟩ :=
      poll_take hM hunread hne hstands.ideal
    have hcall : σ.call i poll = (some (U.take 1), σ.leave i (some t) t.file) := by
      rw [Processes.call, hs]
      dsimp only
      rw [hrun]
    have hfile : t.file = σ.file := hf
    -- the place of this client moves on, and nothing else
    rw [hcall]
    dsimp only
    rw [hU]
    have hafter : Stands M σ.file t { c with unread := some (U.drop 1) } :=
      hstands.moved hideal hfile hself hrest (fun r hr => hne r (List.mem_of_mem_drop hr))
    refine ⟨rfl, h.bound, ?_, ?_, ?_, h.nonempty, ?_⟩
    all_goals dsimp only [Processes.leave]
    all_goals rw [hfile]
    · exact h.length
    · exact h.magic
    · exact h.layout
    · exact rel_update h.clients (.some hafter)

theorem serve_simulates (hM : 10 ≤ M) :
    Simulates (Agrees M) SharedLog.Allows (Processes.serve (ι := ι)) (SharedLog.serve M) := by
  intro σ A q h hq
  cases q with
  | opens i mode junk => exact ⟨rfl, h.opens i mode junk⟩
  | exits i => exact ⟨rfl, h.exits i⟩
  | adds i a => exact h.adds hM hq
  | polls i => exact h.polls hM hq

/-- The process that creates the file knows nothing of its place in it. -/
def SharedLog.created (i : ι) : SharedLog ι where
  records := []
  client := Function.update (fun _ => none) i (some ⟨.append, none⟩)

theorem created_agrees {junk : Ringfile} {s : State} (hM : 10 ≤ M)
    (hs : create junk.construct none (M+24) allDone = .opened s) (i : ι) :
    Agrees M (Processes.started i s) (SharedLog.created i) := by
  obtain ⟨_, hsize, rfl⟩ := create_opened hs
  obtain ⟨hl, hstands⟩ := Stands.created (M := M) junk (by omega)
  refine ⟨hsize, rfl, rfl, hl, by simp [SharedLog.created], ?_⟩
  have hnobody (k : ι) : Option.Rel
      (Stands M (createdState junk.construct (M+24) allDone).file) none none := .none
  exact rel_update hnobody (.some hstands)

end Agrees

/-- Any number of processes on one ring, their calls in any order: every call is answered as the one
shared log answers it, and the file holds that log all the time. -/
theorem ring_is_shared_log {ι : Type} [DecidableEq ι] {M : ℕ} (hM : 10 ≤ M) {junk : Ringfile}
    {s : State} (hs : create junk.construct none (M+24) allDone = .opened s) (i : ι)
    {qs : List (Request ι)} (hqs : Along SharedLog.Allows (SharedLog.serve M) (.created i) qs) :
    (feed Processes.serve (.started i s) qs).1 = (feed (SharedLog.serve M) (.created i) qs).1 ∧
      Agrees M (feed Processes.serve (.started i s) qs).2
        (feed (SharedLog.serve M) (.created i) qs).2 :=
  (serve_simulates hM).feed (created_agrees hM hs i) hqs

/-- Two processes append, a third one reads; it is lapped in the end, and a fourth one opens the
file and finds what is left. -/
def sharedRun : List (Request ℕ) :=
  [.opens 1 .read blank, .adds 0 (.write [1, 2, 3] uninitialized), .polls 1,
    .opens 2 .append blank, .adds 2 (.stream [[4], [5]] uninitialized),
    .adds 0 (.write (List.replicate 21 6) uninitialized), .adds 2 (.write [7] uninitialized),
    .opens 3 .read blank, .polls 3]

theorem ring_is_shared_log_four :
    ∃ s, create blank.construct none (26+24) allDone = .opened s ∧
      (feed Processes.serve (.started 0 s) sharedRun).1 =
        [.done, .added (some true), .polled (some [[1, 2, 3]]), .done, .added (some true),
          .added (some true), .added (some true), .done,
          .polled (some [List.replicate 21 6])] := by
  have hs := create_allDone blank.construct (show 0 < 26+24 by norm_num) (by norm_num)
  have hqs : Along SharedLog.Allows (SharedLog.serve 26) (.created 0) sharedRun := by
    refine ⟨trivial, ⟨?_, rfl, by decide, by decide +kernel⟩,
      by unfold SharedLog.Allows; decide +kernel,
      trivial, ⟨?_, rfl, by decide, by decide +kernel⟩, ⟨?_, rfl, by decide, by decide +kernel⟩,
      ⟨?_, rfl, by decide, by decide +kernel⟩, trivial, by unfold SharedLog.Allows; decide +kernel,
      trivial⟩
    all_goals simp [Attempt.Valid]
  refine ⟨_, hs, ?_⟩
  rw [(ring_is_shared_log (by norm_num) hs 0 hqs).1]
  decide +kernel

end CircularLog
