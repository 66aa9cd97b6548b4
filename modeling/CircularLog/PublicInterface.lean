import CircularLog.SharedLog
import CircularLog.ToolHistories

/-! The C functions, for a program that has any number of rings open, some of them more than once.
Behind each pointer there is an object of the class; the files are the state that objects share. -/
namespace CircularLog

/-- The functions that return 0 may return -1 instead, with `errno` set from `error()`. -/
abbrev Status (α : Type) := Except (Option ℕ) α

def Status.code {α : Type} : Status α → ℤ
  | .ok _ => 0
  | .error _ => -1

/-- `errno = self->impl_.error()`, and -1. -/
def Status.minusOne {α : Type} : Op (Status α) := do
  return .error (← get).self.error

def ringfileCreate (junk : Ringfile) (path : Option File) (size : ℕ) (outcomes : ℕ → Outcome) :
    Opening := create junk.construct path size outcomes

/-- `none` is for the null pointer that a mode other than `r` and `a` gets; `errno` stays. -/
def ringfileOpen (junk : Ringfile) (path : Option File) (modeStr : Text)
    (outcomes : ℕ → Outcome) : Option Opening :=
  if modeStr = text "r" then some (openFile junk.construct path .read outcomes)
  else if modeStr = text "a" then some (openFile junk.construct path .append outcomes)
  else none

def ringfileWrite (ptr : Buffer) (size : ℕ) : Op (Status Unit) := do
  if !(← write ptr size) then
    Status.minusOne
  else
    return .ok ()

/-- The status, and what the buffer holds then. -/
def ringfileRead (ptr : Buffer) (size : ℕ) : Op (Status Unit × Buffer) := do
  let (ok, buffer) ← read ptr size
  if !ok then
    return (← Status.minusOne, buffer)
  else
    return (.ok (), buffer)

def ringfileNextRecordSize : Op (Status ℕ) := do
  match ← nextRecordSize with
  | none => Status.minusOne
  | some size => return .ok size

/-- The destructor calls `Close`. -/
def ringfileClose : Op Unit := do
  let _ ← close

/-- The files, and the pointers of the program, which are null before they are assigned and set to
null when their object is closed. An object comes with the path that it was opened under. -/
structure Library (ι : Type) where
  disk : Text → Option File
  object : ι → Option (Text × State)

/-- A call of the program, whose result is assigned to pointer `i` or which is made with it. -/
inductive LibraryCall (ι : Type)
  | create (i : ι) (path : Text) (size : ℕ) (junk : Ringfile)
  | opens (i : ι) (path modeStr : Text) (junk : Ringfile)
  | write (i : ι) (r : Record) (behind : Buffer)
  | nextRecordSize (i : ι)
  | read (i : ι) (ptr : Buffer) (size : ℕ)
  | close (i : ι)

/-- What the call returns. With a null pointer comes what `errno` was set to, if it was; with the
size and with the bytes of the buffer comes the status. -/
inductive Result
  | object
  | null (errno : Option ℕ)
  | status (code : ℤ)
  | sized (code : ℤ) (size : Option ℕ)
  | filled (code : ℤ) (bytes : List UInt8)
  | closed
  | stopped (f : Fault)
  deriving DecidableEq

section Serve
variable {ι : Type} [DecidableEq ι]

def Library.attach (σ : Library ι) (i : ι) (path : Text) : Opening → Result × Library ι
  | .opened s =>
    (.object, {
      disk := Function.update σ.disk path (some s.file)
      object := Function.update σ.object i (some (path, s)) })
  | .failed self file _ =>
    (.null self.error, {
      disk := Function.update σ.disk path file
      object := Function.update σ.object i none })
  | .fault f => (.stopped f, { σ with object := fun _ => none })

/-- A member function of the object behind `i`. A fault ends the program. -/
def Library.call {α : Type} (σ : Library ι) (i : ι) (x : Op α) (result : α → Result) :
    Result × Library ι :=
  match σ.object i with
  | none => (.stopped .nullPointer, { σ with object := fun _ => none })
  | some (path, s) =>
    -- a file that was taken away is still there for the object
    match x (s.on ((σ.disk path).getD s.file)) with
    | .ok a t =>
      (result a, {
        disk := Function.update σ.disk path (some t.file)
        object := Function.update σ.object i (some (path, t)) })
    | .error f t =>
      (.stopped f, {
        disk := Function.update σ.disk path (some t.file)
        object := fun _ => none })

/-- One call, every system call doing all it is asked for. -/
def Library.serve (σ : Library ι) : LibraryCall ι → Result × Library ι
  | .create i path size junk => σ.attach i path (ringfileCreate junk (σ.disk path) size allDone)
  | .opens i path modeStr junk =>
    match ringfileOpen junk (σ.disk path) modeStr allDone with
    | none => (.null none, { σ with object := Function.update σ.object i none })
    | some opening => σ.attach i path opening
  | .write i r behind =>
    σ.call i (ringfileWrite (memory r behind) r.length) fun status => .status status.code
  | .nextRecordSize i =>
    σ.call i ringfileNextRecordSize fun status => .sized status.code status.toOption
  | .read i ptr size =>
    σ.call i (ringfileRead ptr size) fun v => .filled v.1.code (contents v.2 size)
  | .close i =>
    match σ.object i with
    | none => (.closed, σ)  -- `delete` does nothing with a null pointer
    | some _ =>
      let (result, τ) := σ.call i ringfileClose fun _ => .closed
      (result, { τ with object := Function.update τ.object i none })

/-- A store of bounded logs, and clients that have a log open. -/
structure LogStore (ι : Type) where
  logs : Text → Option Log
  client : ι → Option (Text × Client)

/-- What `mode` asks for. -/
def modeOf (modeStr : Text) : Option Mode :=
  if modeStr = text "r" then some .read
  else if modeStr = text "a" then some .append
  else none

/-- A record is added to the log of `path`; the clients of that log find it. -/
def LogStore.push (A : LogStore ι) (path : Text) (l : Log) (r : Record) : LogStore ι where
  logs := Function.update A.logs path (some { l with lines := afterWrite l.capacity l.lines r })
  client := fun j => (A.client j).map fun x =>
    if x.1 = path then (path, x.2.pushed l.capacity r) else x

def LogStore.serve (A : LogStore ι) : LibraryCall ι → Result × LogStore ι
  | .create i path size _ =>
    match A.logs path with
    | some _ => (.null (some eExist), { A with client := Function.update A.client i none })
    | none =>
      (.object, {
        logs := Function.update A.logs path (some ⟨size-headerSize, []⟩)
        client := Function.update A.client i (some (path, ⟨.append, none⟩)) })
  | .opens i path modeStr _ =>
    match modeOf modeStr, A.logs path with
    | none, _ => (.null none, { A with client := Function.update A.client i none })
    | some _, none => (.null (some eNoEnt), { A with client := Function.update A.client i none })
    | some mode, some l =>
      (.object, { A with
        client := Function.update A.client i (some (path, ⟨mode, some l.lines⟩)) })
  | .write i r _ =>
    match A.client i with
    | none => (.stopped .nullPointer, A)
    | some (path, _) =>
      match A.logs path with
      | none => (.stopped .nullPointer, A)
      | some l =>
        if frameSize r < l.capacity then (.status 0, A.push path l r) else (.status (-1), A)
  | .nextRecordSize i =>
    match A.client i with
    | some (_, ⟨_, some (r :: _)⟩) => (.sized 0 (some r.length), A)
    | _ => (.sized (-1) none, A)
  | .read i ptr size =>
    match A.client i with
    | some (path, ⟨mode, some (r :: U)⟩) =>
      if r.length ≤ size then
        (.filled 0 (contents (overlay r ptr) size), { A with
          client := Function.update A.client i (some (path, ⟨mode, some U⟩)) })
      else (.filled (-1) (contents ptr size), A)
    | _ => (.filled (-1) (contents ptr size), A)
  | .close i => (.closed, { A with client := Function.update A.client i none })

/-- What a program may do: create rings with ten bytes at least, write records that are not empty
through pointers that were opened for it, look at a ring it has not been lapped on, and read from
one where there is something to read. -/
def LogStore.Allows (A : LogStore ι) : LibraryCall ι → Prop
  | .create _ path size _ => A.logs path = none → 34 ≤ size ∧ size < 2^63
  | .opens _ _ _ _ => True
  | .write i r _ => r ≠ [] ∧ r.length < 2^63 ∧ ∃ path U, A.client i = some (path, ⟨.append, U⟩)
  | .nextRecordSize i => ∃ path mode U, A.client i = some (path, ⟨mode, some U⟩)
  | .read i _ _ => ∃ path mode r U, A.client i = some (path, ⟨mode, some (r :: U)⟩)
  | .close _ => True

end Serve

/-- The object behind a pointer, and the client that the pointer stands for. -/
structure Bound (disk : Text → Option File) (logs : Text → Option Log) (x : Text × State)
    (y : Text × Client) : Prop where
  path : x.1 = y.1
  stands : ∃ f l, disk y.1 = some f ∧ logs y.1 = some l ∧ Stands l.capacity f x.2 y.2

/-- The files hold the logs, and every object is where its client is. -/
structure Holds {ι : Type} (σ : Library ι) (A : LogStore ι) : Prop where
  stores : ∀ path, Option.Rel File.Keeps (σ.disk path) (A.logs path)
  bound : ∀ i, Option.Rel (Bound σ.disk A.logs) (σ.object i) (A.client i)

section Calls
variable {M : ℕ} {s : State} {f : File} {c : Client} {L U : List Record} {r : Record}

theorem ringfileWrite_ready (h : Ready M s L) (hM : 10 ≤ M) (behind : Buffer) (hne : r ≠ [])
    (hr : r.length < 2^63) :
    Sat (ringfileWrite (memory r behind) r.length) s (fun v t =>
      ∃ ok, v.code = (if ok = true then 0 else -1) ∧ Recorded M s L r ok t ∧
        t.self.readOffset = s.self.readOffset) := by
  apply (write_ready h hM behind hne hr).bind
  intro ok t hspec
  obtain ⟨hrecorded, hself⟩ := hspec
  have hcursor : t.self.readOffset = s.self.readOffset := by rw [hself]
  cases ok with
  | true => exact sat_pure.mpr ⟨true, rfl, hrecorded, hcursor⟩
  | false =>
    rw [if_pos (by simp), Status.minusOne, sat_bind, sat_get, sat_pure]
    exact ⟨false, rfl, hrecorded, hcursor⟩

theorem ringfileNextRecordSize_front (hM : 10 ≤ M) (h : Stands M f s c) (hw : WellFormed M f L)
    (hc : c.unread = some U) :
    Sat ringfileNextRecordSize (s.on f) (fun v t => v.toOption = U.head?.map List.length ∧
      v.code = (if U = [] then -1 else 0) ∧ t.file = f ∧ Stands M f t c) := by
  obtain ⟨hu, hne⟩ := h.unread_on hw hc
  have hsame : { c with unread := some U } = c := by rw [← hc]
  cases U with
  | nil =>
    apply (nextRecordSize_none hu).bind
    intro v t hspec
    obtain ⟨rfl, rfl⟩ := hspec
    rw [Status.minusOne, sat_bind, sat_get, sat_pure]
    refine ⟨rfl, rfl, rfl, ?_⟩
    have hstands := h.moved (t := s.on f) h.ideal rfl rfl hu hne
    rwa [hsame] at hstands
  | cons r U =>
    apply (nextRecordSize_spec hM hu).bind
    intro v t hspec
    obtain ⟨hl, hself, hut, _, hv⟩ := hspec
    rw [hv h.ideal]
    refine sat_pure.mpr ⟨rfl, rfl, hl.file, ?_⟩
    have hstands := h.moved (hl.ideal h.ideal) hl.file (by rw [hself]; rfl) hut hne
    rwa [hsame] at hstands

theorem ringfileRead_front (hM : 10 ≤ M) (h : Stands M f s c) (hw : WellFormed M f L)
    (hc : c.unread = some (r :: U)) (ptr : Buffer) (size : ℕ) :
    Sat (ringfileRead ptr size) (s.on f) (fun v t => t.file = f ∧
      if r.length ≤ size then v.1.code = 0 ∧ v.2 = overlay r ptr ∧
        Stands M f t { c with unread := some U }
      else v.1.code = -1 ∧ v.2 = ptr ∧ Stands M f t c) := by
  obtain ⟨hu, hne⟩ := h.unread_on hw hc
  have hsame : { c with unread := some (r :: U) } = c := by rw [← hc]
  apply (read_spec hM hu (hne r List.mem_cons_self) ptr size).bind
  intro v t hspec
  obtain ⟨ok, buffer⟩ := v
  obtain ⟨hl, hcases, hsmall, hok⟩ := hspec
  have hi := hl.ideal h.ideal
  rcases hcases with ⟨hno, hself, hut⟩ | ⟨hyes, hfits, hut, hself⟩
  · -- the record is longer than the buffer
    have hlong : ¬r.length ≤ size := fun hfits =>
      ne_true_of_eq_false hno (hok h.ideal hfits)
    cases hsmall (by omega)
    dsimp only
    rw [if_pos (by simp), Status.minusOne, sat_bind, sat_bind, sat_get, sat_pure, sat_pure,
      if_neg hlong]
    refine ⟨hl.file, rfl, rfl, ?_⟩
    have hstands := h.moved hi hl.file (by rw [hself]; rfl) hut hne
    rwa [hsame] at hstands
  · cases hyes
    dsimp only
    rw [if_neg (by simp), sat_pure, if_pos hfits]
    refine ⟨hl.file, rfl, rfl, ?_⟩
    exact h.moved hi hl.file (by rw [hself]; rfl) hut
      (fun q hq => hne q (List.mem_cons_of_mem r hq))

end Calls

section Holds
variable {ι : Type} [DecidableEq ι] {σ : Library ι} {A : LogStore ι} {i : ι} {path : Text}
  {f g : File} {l l' : Log} {s t : State} {c c' : Client} {r : Record}

/-- An object of another file does not notice. -/
theorem Bound.elsewhere {x : Text × State} {y : Text × Client} {disk : Text → Option File}
    {logs : Text → Option Log} (h : Bound disk logs x y) (hy : y.1 ≠ path)
    (file : Option File) (log : Option Log) :
    Bound (Function.update disk path file) (Function.update logs path log) x y := by
  refine ⟨h.path, ?_⟩
  rw [Function.update_of_ne hy, Function.update_of_ne hy]
  exact h.stands

theorem Holds.detach (h : Holds σ A) (i : ι) :
    Holds { σ with object := Function.update σ.object i none }
      { A with client := Function.update A.client i none } :=
  ⟨h.stores, rel_update h.bound .none⟩

theorem Holds.attach (h : Holds σ A) (i : ι) (hf : σ.disk path = some f)
    (hl : A.logs path = some l) (hs : Stands l.capacity f s c) :
    Holds { σ with object := Function.update σ.object i (some (path, s)) }
      { A with client := Function.update A.client i (some (path, c)) } :=
  ⟨h.stores, rel_update h.bound (.some ⟨rfl, f, l, hf, hl, hs⟩)⟩

omit [DecidableEq ι] in
/-- The object behind a pointer that may be used. -/
theorem Holds.present (h : Holds σ A) (hi : A.client i = some (path, c)) :
    ∃ s f l, σ.object i = some (path, s) ∧ σ.disk path = some f ∧ A.logs path = some l ∧
      f.Keeps l ∧ Stands l.capacity f s c := by
  have hbound := h.bound i
  rw [hi] at hbound
  obtain ⟨⟨path', s⟩, hobject, rfl, f, l, hf, hl, hs⟩ := rel_some_right hbound
  have hstore := h.stores path'
  rw [hf, hl, Option.rel_some_some] at hstore
  exact ⟨s, f, l, hobject, hf, hl, hstore, hs⟩

/-- A call that comes back with the file as it was. -/
theorem Library.call_same {α : Type} {x : Op α} (result : α → Result)
    (hi : σ.object i = some (path, s)) (hf : σ.disk path = some f) {a : α}
    (hrun : x (s.on f) = .ok a t) (hfile : t.file = f) :
    σ.call i x result =
      (result a, { σ with object := Function.update σ.object i (some (path, t)) }) := by
  have hdisk : Function.update σ.disk path (some t.file) = σ.disk := by
    rw [hfile, ← hf, Function.update_eq_self]
  rw [Library.call, hi]
  dsimp only
  rw [hf, Option.getD_some, hrun]
  dsimp only
  rw [hdisk]

theorem Holds.looked {α : Type} (h : Holds σ A) {x : Op α} (result : α → Result)
    (hi : σ.object i = some (path, s)) (hf : σ.disk path = some f) (hl : A.logs path = some l)
    {a : α} (hrun : x (s.on f) = .ok a t) (hfile : t.file = f) (hs : Stands l.capacity f t c) :
    (σ.call i x result).1 = result a ∧
      Holds (σ.call i x result).2
        { A with client := Function.update A.client i (some (path, c)) } := by
  rw [Library.call_same result hi hf hrun hfile]
  exact ⟨rfl, h.attach i hf hl hs⟩

/-- A record was added: the file holds the new log, and all clients of it find the record. -/
theorem Holds.push (h : Holds σ A) (hf : σ.disk path = some f) (hl : A.logs path = some l)
    (hi : A.client i = some (path, c)) {P : List Record}
    (hfilled : Filled l.capacity f P (frame r) g) (hr : r ≠ [])
    (hg : g.Keeps { l with lines := afterWrite l.capacity l.lines r })
    (hs : Stands l.capacity f t c) :
    Holds {
        disk := Function.update σ.disk path (some g)
        object := Function.update σ.object i (some (path, t)) } (A.push path l r) := by
  refine ⟨rel_update h.stores (.some hg), ?_⟩
  intro j
  have hpushed {x : Text × State} {y : Text × Client} (hxy : Bound σ.disk A.logs x y) :
      Bound (Function.update σ.disk path (some g)) (A.push path l r).logs x
        (if y.1 = path then (path, y.2.pushed l.capacity r) else y) := by
    by_cases hy : y.1 = path
    · rw [if_pos hy]
      obtain ⟨hx, f', l', hf', hl', hstands⟩ := hxy
      rw [hy] at hf' hl'
      rw [hf] at hf'
      rw [hl] at hl'
      cases hf'
      cases hl'
      refine ⟨hx.trans hy, g, _, Function.update_self _ _ _, Function.update_self _ _ _, ?_⟩
      exact hstands.pushed hfilled hr
    · rw [if_neg hy]
      exact hxy.elsewhere hy _ _
  dsimp only [LogStore.push]
  by_cases hj : j = i
  · subst hj
    rw [Function.update_self, hi]
    exact .some (hpushed ⟨rfl, f, l, hf, hl, hs⟩)
  · rw [Function.update_of_ne hj]
    exact rel_map_right (h.bound j) (fun _ _ hxy => hpushed hxy)

theorem Holds.create (h : Holds σ A) (i : ι) (path : Text) (size : ℕ) (junk : Ringfile)
    (hq : A.Allows (.create i path size junk)) :
    (σ.serve (.create i path size junk)).1 = (A.serve (.create i path size junk)).1 ∧
      Holds (σ.serve (.create i path size junk)).2 (A.serve (.create i path size junk)).2 := by
  have hpath := h.stores path
  rw [Library.serve, LogStore.serve, ringfileCreate]
  cases hl : A.logs path with
  | some l =>
    rw [hl] at hpath
    obtain ⟨f, hf, _⟩ := rel_some_right hpath
    -- `O_EXCL`
    have hfailed : CircularLog.create junk.construct (some f) size allDone = .failed
        { junk.construct with fd := none, error := some eExist } (some f) (later allDone 1) := rfl
    rw [hf, hfailed, Library.attach]
    dsimp only
    rw [← hf, Function.update_eq_self]
    exact ⟨rfl, h.detach i⟩
  | none =>
    rw [hl] at hpath
    have hf : σ.disk path = none := rel_none_right hpath
    obtain ⟨hmin, hmax⟩ := hq hl
    obtain ⟨M, rfl⟩ : ∃ M, size = M+24 := ⟨size-24, by omega⟩
    have hM : M+24-headerSize = M := by unfold headerSize; omega
    obtain ⟨hlayout, hstands⟩ := Stands.created (M := M) junk (by omega)
    rw [hf, create_allDone junk.construct (by omega) hmax, Library.attach, hM]
    refine ⟨rfl, ?_, ?_⟩
    · apply rel_update h.stores
      refine .some ⟨show 10 ≤ M by omega, rfl, hmax, rfl, hlayout, by simp⟩
    · -- nobody has had the path open
      have hother (j : ι) : Option.Rel (Bound
          (Function.update σ.disk path (some (createdState junk.construct (M+24) allDone).file))
          (Function.update A.logs path (some ⟨M, []⟩))) (σ.object j) (A.client j) := by
        have hj := h.bound j
        generalize σ.object j = x at hj
        generalize A.client j = y at hj
        cases hj with
        | none => exact .none
        | some hxy =>
          refine .some (hxy.elsewhere ?_ _ _)
          rintro rfl
          obtain ⟨f, _, hf', _⟩ := hxy.stands
          rw [hf] at hf'
          cases hf'
      apply rel_update hother
      exact .some ⟨rfl, _, _, Function.update_self _ _ _, Function.update_self _ _ _, hstands⟩

theorem Holds.opens (h : Holds σ A) (i : ι) (path modeStr : Text) (junk : Ringfile) :
    (σ.serve (.opens i path modeStr junk)).1 = (A.serve (.opens i path modeStr junk)).1 ∧
      Holds (σ.serve (.opens i path modeStr junk)).2
        (A.serve (.opens i path modeStr junk)).2 := by
  have hpath := h.stores path
  -- what `strcmp` says of the mode
  have hmode : ringfileOpen junk (σ.disk path) modeStr allDone =
      (modeOf modeStr).map (fun mode => openFile junk.construct (σ.disk path) mode allDone) := by
    unfold ringfileOpen modeOf
    split_ifs <;> rfl
  rw [Library.serve, LogStore.serve, hmode]
  cases modeOf modeStr with
  | none => exact ⟨rfl, h.detach i⟩
  | some mode =>
    rw [Option.map_some]
    dsimp only
    generalize hf : σ.disk path = file at hpath
    generalize hl : A.logs path = log at hpath
    cases hpath with
    | none =>
      have hfailed : openFile junk.construct none mode allDone = .failed
          { junk.construct with fd := none, error := some eNoEnt } none (later allDone 1) := rfl
      rw [hfailed, Library.attach, ← hf, Function.update_eq_self]
      exact ⟨rfl, h.detach i⟩
    | @some f l hkeeps =>
      obtain ⟨hopened, hstands⟩ := Stands.opened hkeeps.wellFormed mode junk
      have hfile : (openedState junk.construct f mode allDone).file = f := rfl
      rw [hopened, Library.attach, hfile, ← hf, Function.update_eq_self]
      exact ⟨rfl, h.attach i hf hl hstands⟩

theorem Holds.write (h : Holds σ A) (i : ι) (r : Record) (behind : Buffer)
    (hq : A.Allows (.write i r behind)) :
    (σ.serve (.write i r behind)).1 = (A.serve (.write i r behind)).1 ∧
      Holds (σ.serve (.write i r behind)).2 (A.serve (.write i r behind)).2 := by
  obtain ⟨hne, hlen, path, U, hi⟩ := hq
  obtain ⟨s, f, l, hs, hf, hl, hkeeps, hstands⟩ := h.present hi
  have hready := hstands.ready rfl hkeeps.wellFormed
  obtain ⟨v, t, hrun, ok, hcode, hrecorded, hcursor⟩ :=
    ringfileWrite_ready hready hkeeps.capacity behind hne hlen
  rw [Library.serve, LogStore.serve, hi]
  dsimp only
  rw [hl]
  dsimp only
  cases hrecorded with
  | refused hbig =>
    rw [if_neg (Nat.not_lt.mpr hbig)]
    have hlooked := h.looked (fun status => .status status.code) hs hf hl hrun rfl (hstands.on f)
    rw [← hi, Function.update_eq_self, hcode] at hlooked
    exact hlooked
  | @written t P K hsmall hL hK hc ht =>
    rw [if_pos hsmall, Library.call, hs]
    dsimp only
    rw [hf, Option.getD_some, hrun]
    refine ⟨congrArg Result.status hcode, ?_⟩
    have hkept : Stands l.capacity f t ⟨.append, U⟩ := hstands.kept rfl ht hcursor
    refine h.push hf hl hi hc.file hne ⟨hkeeps.capacity, ?_⟩ hkept
    exact ht.wellFormed (afterWrite_nonempty _ hkeeps.wellFormed.nonempty hne)

theorem Holds.nextRecordSize (h : Holds σ A) (i : ι) (hq : A.Allows (.nextRecordSize i)) :
    (σ.serve (.nextRecordSize i)).1 = (A.serve (.nextRecordSize i)).1 ∧
      Holds (σ.serve (.nextRecordSize i)).2 (A.serve (.nextRecordSize i)).2 := by
  obtain ⟨path, mode, U, hi⟩ := hq
  obtain ⟨s, f, l, hs, hf, hl, hkeeps, hstands⟩ := h.present hi
  obtain ⟨v, t, hrun, hsize, hcode, hfile, ht⟩ :=
    ringfileNextRecordSize_front hkeeps.capacity hstands hkeeps.wellFormed rfl
  have hlooked := h.looked (fun status => .sized status.code status.toOption) hs hf hl
    hrun hfile ht
  rw [← hi, Function.update_eq_self, hsize, hcode] at hlooked
  rw [Library.serve, LogStore.serve, hi]
  cases U with
  | nil => exact hlooked
  | cons r U => exact hlooked

theorem Holds.read (h : Holds σ A) (i : ι) (ptr : Buffer) (size : ℕ)
    (hq : A.Allows (.read i ptr size)) :
    (σ.serve (.read i ptr size)).1 = (A.serve (.read i ptr size)).1 ∧
      Holds (σ.serve (.read i ptr size)).2 (A.serve (.read i ptr size)).2 := by
  obtain ⟨path, mode, r, U, hi⟩ := hq
  obtain ⟨s, f, l, hs, hf, hl, hkeeps, hstands⟩ := h.present hi
  obtain ⟨v, t, hrun, hfile, hcases⟩ :=
    ringfileRead_front hkeeps.capacity hstands hkeeps.wellFormed rfl ptr size
  rw [Library.serve, LogStore.serve, hi]
  dsimp only
  split_ifs at hcases ⊢ with hfits
  · obtain ⟨hcode, hbuffer, ht⟩ := hcases
    have hlooked := h.looked (fun v => .filled v.1.code (contents v.2 size)) hs hf hl
      hrun hfile ht
    rwa [hcode, hbuffer] at hlooked
  · obtain ⟨hcode, hbuffer, ht⟩ := hcases
    have hlooked := h.looked (fun v => .filled v.1.code (contents v.2 size)) hs hf hl
      hrun hfile ht
    rwa [← hi, Function.update_eq_self, hcode, hbuffer] at hlooked

theorem Holds.close (h : Holds σ A) (i : ι) :
    (σ.serve (.close i)).1 = (A.serve (.close i)).1 ∧
      Holds (σ.serve (.close i)).2 (A.serve (.close i)).2 := by
  rw [Library.serve, LogStore.serve]
  cases hs : σ.object i with
  | none =>
    have hdetached := h.detach i
    rw [← hs, Function.update_eq_self] at hdetached
    exact ⟨rfl, hdetached⟩
  | some x =>
    obtain ⟨path, s⟩ := x
    have hbound := h.bound i
    rw [hs] at hbound
    obtain ⟨⟨path', c⟩, _, hpath, f, _, hf, _⟩ := rel_some_left hbound
    obtain rfl : path = path' := hpath
    -- the destructor puts the mapping away, and the file stays as it is
    obtain ⟨t, hrun, hfile⟩ : ∃ t, ringfileClose (s.on f) = .ok () t ∧ t.file = f :=
      ⟨_, rfl, rfl⟩
    rw [Library.call_same (fun _ => .closed) hs hf hrun hfile]
    dsimp only
    rw [Function.update_idem]
    exact ⟨rfl, h.detach i⟩

theorem library_simulates :
    Simulates (Holds (ι := ι)) LogStore.Allows Library.serve LogStore.serve := by
  intro σ A call h hq
  cases call with
  | create i path size junk => exact h.create i path size junk hq
  | opens i path modeStr junk => exact h.opens i path modeStr junk
  | write i r behind => exact h.write i r behind hq
  | nextRecordSize i => exact h.nextRecordSize i hq
  | read i ptr size => exact h.read i ptr size hq
  | close i => exact h.close i

end Holds

/-- A ring is created and written to; another pointer reads it, first into a buffer that is too
small for the record. It cannot be created again, nor opened to write only; there is no other. -/
def calls : List (LibraryCall ℕ) :=
  let buffer : Buffer := fun _ => 9
  [.create 0 (text "a") 35 blank, .opens 1 (text "a") (text "r") blank,
    .write 0 [1, 2, 3] uninitialized, .write 0 (List.replicate 10 4) uninitialized, .close 0,
    .nextRecordSize 1, .read 1 buffer 2, .read 1 buffer 4, .nextRecordSize 1,
    .create 0 (text "a") 35 blank, .opens 0 (text "a") (text "w") blank,
    .opens 0 (text "b") (text "a") blank]

end CircularLog
