import CircularLog.SizeCheck

/-! Why `Write` and `Read` return false. `Explained` is each of the member functions without
`error_`: where the source returns false it stops with the reason, and a reason comes with an error
number only where the source assigns one. -/
namespace CircularLog

/-- The branches that return false. -/
inductive Reason
  /-- `!header_ || fd_ == -1` -/
  | closed
  | recordTooBig
  | nothingToPop
  | bufferTooSmall
  /-- `read` or `write` returned something else than the count it was given -/
  | cutShort
  | seek (errno : ℕ)
  deriving DecidableEq, Repr

/-- What `error_` is set to. -/
def Reason.assigned : Reason → Option ℕ
  | .seek errno => some errno
  | _ => none

abbrev Explained := ExceptT Reason Op

namespace Explained

/-- `SeekToOffset`. -/
def seekToOffset (offset : ℕ) : Explained Unit := do
  assert (offset < (← bytesMax))
  let offset ← modulo offset (← bytesMax)
  match ← lseek (u64 (headerSize+offset)) with
  | some errno => throw (.seek errno)
  | none => return

def readPart (offset : ℕ) (ptr : Buffer) (at_ count : ℕ) : Explained Buffer := do
  if count = 0 then
    return ptr
  seekToOffset offset
  let (n, ptr) ← sysRead ptr at_ count
  if n == count then
    return ptr
  throw .cutShort

/-- `WrappingRead`. -/
def wrappingRead (offset : ℕ) (ptr : Buffer) (size : ℕ) : Explained Buffer := do
  let offset ← modulo offset (← bytesMax)
  let endOffset ← modulo (u64 (offset+size)) (← bytesMax)
  let (endBytes, startBytes) := splitBytes (← bytesMax) offset endOffset size
  let ptr ← readPart offset ptr 0 endBytes
  readPart 0 ptr endBytes startBytes

def writePart (offset : ℕ) (ptr : Buffer) (at_ count : ℕ) : Explained Unit := do
  if count = 0 then
    return
  seekToOffset offset
  let n ← sysWrite ptr at_ count
  if n == count then
    return
  throw .cutShort

/-- `WrappingWrite`. -/
def wrappingWrite (offset : ℕ) (ptr : Buffer) (size : ℕ) : Explained Unit := do
  let offset ← modulo offset (← bytesMax)
  let endOffset ← modulo (u64 (offset+size)) (← bytesMax)
  let (endBytes, startBytes) := splitBytes (← bytesMax) offset endOffset size
  writePart offset ptr 0 endBytes
  writePart 0 ptr endBytes startBytes

def readVarint (offset : ℕ) : Explained (ℕ × ℕ) := do
  let headerBuffer ← wrappingRead offset uninitialized Varint.kMaxSize
  (reached (Varint.read headerBuffer) : Op (ℕ × ℕ))

/-- `PopRecord`. -/
def popRecord : Explained Unit := do
  let h ← mappedHeader
  if h.startOffset = h.endOffset then
    throw .nothingToPop
  let (headerSize, value) ← readVarint h.startOffset
  advanceStart (u64 (headerSize+value))

def popUntilAvailable (need : ℕ) : ℕ → Explained Unit
  | 0 => do
    if (← bytesAvailable) < need then (throw .outOfFuel : Op Unit) else return
  | fuel+1 => do
    let bytesAvailableStart ← bytesAvailable
    if bytesAvailableStart < need then
      popRecord
      assert (bytesAvailableStart < (← bytesAvailable))
      popUntilAvailable need fuel
    else
      return

def startRecord (size : ℕ) : Explained ℕ := do
  let headerSize ← (reached (Varint.byteSize size) : Op ℕ)
  let headerBuffer := Varint.write size uninitialized
  if (← bytesMax) < u64 (headerSize+size+1) then
    throw .recordTooBig
  popUntilAvailable (u64 (headerSize+size)) (u64 (headerSize+size))
  wrappingWrite (← mappedHeader).endOffset headerBuffer headerSize
  return headerSize

/-- `Write`. -/
def write (ptr : Buffer) (size : ℕ) : Explained Unit := do
  let headerSize ← startRecord size
  wrappingWrite (u64 ((← mappedHeader).endOffset+headerSize)) ptr size
  assignEnd (u64 ((← mappedHeader).endOffset+u64 (headerSize+size)))

/-- `Read`. -/
def read (buffer : Buffer) (bufferSize : ℕ) : Explained Buffer := do
  let self := (← getThe State).self
  if self.isClosed then
    throw .closed
  let (headerSize, value) ← readVarint self.readOffset
  if bufferSize < value then
    throw .bufferTooSmall
  let buffer ← wrappingRead (u64 (self.readOffset+headerSize)) buffer value
  setReadOffset (← modulo (u64 (self.readOffset+u64 (headerSize+value))) (← bytesMax))
  return buffer

end Explained

/-- The same process with something else in `error_`. -/
def State.withError (s : State) (error : Option ℕ) : State :=
  { s with self := { s.self with error := error } }

/-- From every state `x` does what `y` does, whatever `error_` holds, and assigns `error_` when `y`
stops with a reason that says so. `R` relates what `x` returns to how `y` ends. -/
def Mirrors {α β : Type} (x : Op α) (y : Explained β) (R : α → Except Reason β → Prop) : Prop :=
  ∀ s before,
    (∀ v t, y.run s = .ok v t → ∃ a, R a v ∧ x (s.withError before) = .ok a (t.withError
      (match v with
        | .ok _ => before
        | .error r => r.assigned.or before))) ∧
    ∀ e t, y.run s = .error e t → x (s.withError before) = .error e (t.withError before)

/-- `x` does the same whatever `error_` holds, and leaves it alone. -/
def Oblivious {α : Type} (x : Op α) : Prop :=
  ∀ s before, (∀ a t, x s = .ok a t → x (s.withError before) = .ok a (t.withError before)) ∧
    ∀ e t, x s = .error e t → x (s.withError before) = .error e (t.withError before)

/-- A result that says whether it is one. -/
def Flag {β : Type} (ok : Bool) : Except Reason β → Prop
  | .ok _ => ok = true
  | .error _ => ok = false

def Found {β : Type} (a : Option β) : Except Reason β → Prop
  | .ok b => a = some b
  | .error _ => a = none

/-- A flag and, if it is true, a result beside it. -/
def Flagged {β : Type} (r : Bool × β) : Except Reason β → Prop
  | .ok b => r = (true, b)
  | .error _ => r.1 = false

section Oblivious
variable {α β : Type}

theorem oblivious_pure (a : α) : Oblivious (pure a) := by
  intro s before
  constructor
  · intro b t h
    cases h
    rfl
  · intro e t h
    cases h

theorem oblivious_throw (f : Fault) : Oblivious (throw f : Op α) := by
  intro s before
  constructor
  · intro b t h
    cases h
  · intro e t h
    cases h
    rfl

theorem Oblivious.bind {x : Op α} {f : α → Op β} (hx : Oblivious x) (hf : ∀ a, Oblivious (f a)) :
    Oblivious (x >>= f) := by
  intro s before
  obtain ⟨hok, herror⟩ := hx s before
  rw [run_bind, run_bind]
  cases hr : x s with
  | ok a t =>
    rw [hok a t hr]
    exact hf a t before
  | error e t =>
    rw [herror e t hr]
    constructor
    · intro b u h
      cases h
    · intro d u h
      cases h
      rfl

theorem Oblivious.ite {c : Prop} [Decidable c] {x y : Op α} (hx : Oblivious x) (hy : Oblivious y) :
    Oblivious (if c then x else y) := by
  by_cases hc : c
  · rwa [if_pos hc]
  · rwa [if_neg hc]

theorem oblivious_modifyGet {g : State → α × State}
    (hg : ∀ s before, g (s.withError before) = ((g s).1, (g s).2.withError before)) :
    Oblivious (modifyGet g) := by
  intro s before
  have hrun : (modifyGet g : Op α) (s.withError before) =
      .ok (g s).1 ((g s).2.withError before) := by
    change EStateM.Result.ok (g (s.withError before)).1 (g (s.withError before)).2 = _
    rw [hg]
  rw [hrun]
  constructor
  · intro a t h
    cases h
    rfl
  · intro e t h
    cases h

/-- What looks at the state, but not at `error_`. -/
theorem oblivious_get {f : State → Op α} (hsame : ∀ s before, f (s.withError before) = f s)
    (hf : ∀ s, Oblivious (f s)) : Oblivious (get >>= f) := by
  intro s before
  have hget (s : State) : (get >>= f : Op α) s = f s s := rfl
  rw [hget, hget, hsame]
  exact hf s s before

theorem bytesMax_oblivious : Oblivious bytesMax :=
  oblivious_get (fun _ _ => rfl) (fun _ => oblivious_pure _)

theorem modulo_oblivious (a b : ℕ) : Oblivious (modulo a b) :=
  (oblivious_throw _).ite (oblivious_pure _)

theorem assert_oblivious (c : Prop) [Decidable c] : Oblivious (assert c) :=
  (oblivious_pure _).ite (oblivious_throw _)

theorem reached_oblivious (x : Option α) : Oblivious (reached x) := by
  cases x with
  | none => exact oblivious_throw _
  | some a => exact oblivious_pure a

theorem mappedHeader_oblivious : Oblivious mappedHeader :=
  oblivious_get (fun _ _ => rfl) (fun _ => (oblivious_throw _).ite (oblivious_pure _))

theorem storeHeader_oblivious (event : Event) (h : Header) : Oblivious (storeHeader event h) := by
  apply oblivious_get
  · exact fun _ _ => rfl
  · intro s
    cases s.self.header with
    | null => exact oblivious_throw _
    | readOnly => exact oblivious_throw _
    | readWrite => exact oblivious_modifyGet (fun _ _ => rfl)

theorem lseek_oblivious (position : ℕ) : Oblivious (lseek position) := by
  apply oblivious_modifyGet
  intro s before
  obtain ⟨⟨fd, _⟩, _, _, outcomes, _⟩ := s
  dsimp only [State.withError]
  cases fd with
  | none => rfl
  | some mode =>
    cases outcomes 0 with
    | fail errno => rfl
    | _ =>
      dsimp only
      split_ifs <;> rfl

theorem sysRead_oblivious (ptr : Buffer) (at_ count : ℕ) : Oblivious (sysRead ptr at_ count) := by
  apply oblivious_modifyGet
  intro s before
  obtain ⟨⟨fd, _⟩, _, _, outcomes, _⟩ := s
  dsimp only [State.withError]
  cases fd with
  | none => rfl
  | some mode => cases (outcomes 0).transferred count <;> rfl

theorem sysWrite_oblivious (ptr : Buffer) (at_ count : ℕ) : Oblivious (sysWrite ptr at_ count) := by
  apply oblivious_modifyGet
  intro s before
  obtain ⟨⟨fd, _⟩, _, position, outcomes, _⟩ := s
  dsimp only [State.withError]
  rcases fd with _ | _ | _
  · rfl
  · rfl
  · -- the one descriptor that can be written to
    cases (outcomes 0).transferred count with
    | none => rfl
    | some n =>
      by_cases hlarge : 2^63 ≤ position+count
      · simp only [hlarge, reduceIte]
        rfl
      · simp only [hlarge, reduceIte]
        rfl

theorem bytesAvailable_oblivious : Oblivious bytesAvailable := by
  have hused : Oblivious bytesUsed := by
    apply mappedHeader_oblivious.bind
    intro h
    exact (oblivious_pure _).ite (bytesMax_oblivious.bind fun _ => oblivious_pure _)
  apply hused.bind
  exact fun _ => bytesMax_oblivious.bind (fun _ => oblivious_pure _)

/-- The two stores that move an offset. -/
theorem twoStores_oblivious (f : Header → Header) (p : Header → ℕ) (g : Header → ℕ → Header) :
    Oblivious (do
      let h ← mappedHeader
      storeHeader .advance (f h)
      let h ← mappedHeader
      storeHeader .reduce (g h (← modulo (p h) (← bytesMax)))) := by
  apply mappedHeader_oblivious.bind
  intro h
  apply (storeHeader_oblivious _ _).bind
  intro _
  apply mappedHeader_oblivious.bind
  intro h
  apply bytesMax_oblivious.bind
  intro m
  exact (modulo_oblivious _ _).bind (fun _ => storeHeader_oblivious _ _)

theorem advanceStart_oblivious (n : ℕ) : Oblivious (advanceStart n) :=
  twoStores_oblivious _ _ _

theorem assignEnd_oblivious (n : ℕ) : Oblivious (assignEnd n) :=
  twoStores_oblivious _ _ _

theorem setReadOffset_oblivious (offset : ℕ) : Oblivious (setReadOffset offset) :=
  oblivious_modifyGet (fun _ _ => rfl)

end Oblivious

section Mirrors
variable {α β γ δ : Type}

theorem Mirrors.bind {x : Op α} {y : Explained β} {R : α → Except Reason β → Prop} {f : α → Op γ}
    {g : β → Explained δ} {S : γ → Except Reason δ → Prop} (hx : Mirrors x y R)
    (hok : ∀ a b, R a (.ok b) → Mirrors (f a) (g b) S)
    (herror : ∀ a r, R a (.error r) → ∃ c, f a = pure c ∧ S c (.error r)) :
    Mirrors (x >>= f) (y >>= g) S := by
  intro s before
  obtain ⟨hrun, hstop⟩ := hx s before
  have hbind : (y >>= g).run s = (y.run >>= ExceptT.bindCont g : Op (Except Reason δ)) s := rfl
  rw [hbind, run_bind, run_bind]
  cases hy : y.run s with
  | error e t =>
    rw [hstop e t hy]
    simp
  | ok v t =>
    obtain ⟨a, hR, hxa⟩ := hrun v t hy
    rw [hxa]
    cases v with
    | ok b => exact hok a b hR t before
    | error r =>
      -- the source tests the result and returns
      obtain ⟨c, hc, hS⟩ := herror a r hR
      dsimp only
      rw [hc]
      constructor
      · intro w u hw
        cases hw
        exact ⟨c, hS, rfl⟩
      · intro e u he
        cases he

/-- A call that does not touch `error_` is the same in both. -/
theorem Oblivious.mirrors {x : Op α} (hx : Oblivious x) :
    Mirrors x (liftM x) (fun a v => v = .ok a) := by
  intro s before
  have hlift : (liftM x : Explained α).run s = (x >>= fun a => pure (.ok a) : Op _) s := rfl
  obtain ⟨hok, herror⟩ := hx s before
  rw [hlift, run_bind]
  cases hr : x s with
  | ok a t =>
    constructor
    · intro v u h
      cases h
      exact ⟨a, rfl, hok a t hr⟩
    · intro e u h
      cases h
  | error e t =>
    constructor
    · intro v u h
      cases h
    · intro d u h
      cases h
      exact herror e t hr

/-- A step that is the same in both goes on with the same result. -/
theorem Oblivious.bind_mirrors {x : Op α} (hx : Oblivious x) {f : α → Op γ} {g : α → Explained δ}
    {S : γ → Except Reason δ → Prop} (hf : ∀ a, Mirrors (f a) (g a) S) :
    Mirrors (x >>= f) (liftM x >>= g) S := by
  apply hx.mirrors.bind
  · intro a b h
    cases h
    exact hf a
  · intro a r h
    cases h

theorem mirrors_pure {a : γ} {b : δ} {S : γ → Except Reason δ → Prop} (h : S a (.ok b)) :
    Mirrors (pure a) (pure b) S := by
  intro s before
  constructor
  · intro v t hv
    cases hv
    exact ⟨a, h, rfl⟩
  · intro e t he
    cases he

/-- A branch that returns false and assigns nothing. -/
theorem mirrors_throw {a : γ} {r : Reason} {S : γ → Except Reason δ → Prop} (h : S a (.error r))
    (hr : r.assigned = none) : Mirrors (pure a) (throw r) S := by
  intro s before
  constructor
  · intro v t hv
    cases hv
    refine ⟨a, h, ?_⟩
    dsimp only
    rw [hr]
    rfl
  · intro e t he
    cases he

theorem mirrors_fault (f : Fault) (S : γ → Except Reason δ → Prop) :
    Mirrors (throw f) (liftM (throw f : Op δ)) S := by
  intro s before
  constructor
  · intro v t hv
    cases hv
  · intro e t he
    cases he
    rfl

theorem mirrors_get : Mirrors get (liftM (get : Op State))
    (fun a v => ∃ b before, v = .ok b ∧ a = b.withError before) := by
  intro s before
  constructor
  · intro v t hv
    cases hv
    exact ⟨s.withError before, ⟨s, before, rfl, rfl⟩, rfl⟩
  · intro e t he
    cases he

/-- The source returns what the step found in another form. -/
theorem Mirrors.map {x : Op α} {y : Explained β} {R : α → Except Reason β → Prop} {f : α → γ}
    {S : γ → Except Reason β → Prop} (hx : Mirrors x y R) (hf : ∀ a v, R a v → S (f a) v) :
    Mirrors (x >>= fun a => pure (f a)) y S := by
  intro s before
  obtain ⟨hrun, hstop⟩ := hx s before
  rw [run_bind]
  constructor
  · intro v t hv
    obtain ⟨a, hR, hxa⟩ := hrun v t hv
    rw [hxa]
    exact ⟨f a, hf a v hR, rfl⟩
  · intro e t he
    rw [hstop e t he]

theorem Mirrors.ite {c : Prop} [Decidable c] {x x' : Op γ} {y y' : Explained δ}
    {S : γ → Except Reason δ → Prop} (h : Mirrors x y S) (h' : Mirrors x' y' S) :
    Mirrors (if c then x else x') (if c then y else y') S := by
  by_cases hc : c
  · rwa [if_pos hc, if_pos hc]
  · rwa [if_neg hc, if_neg hc]

/-- The source tests a flag and returns at once when it is false. -/
theorem Mirrors.flag_bind {x : Op Bool} {y : Explained β} {c : γ} {z : Op γ} {g : β → Explained δ}
    {S : γ → Except Reason δ → Prop} (hx : Mirrors x y Flag) (hc : ∀ r, S c (.error r))
    (hz : ∀ b, Mirrors z (g b) S) :
    Mirrors (x >>= fun ok => if (!ok) = true then pure c else z) (y >>= g) S := by
  apply hx.bind
  · intro ok b hok
    cases (show ok = true from hok)
    exact hz b
  · intro ok r hok
    cases (show ok = false from hok)
    exact ⟨c, rfl, hc r⟩

end Mirrors

namespace Explained

theorem seekToOffset_mirrors (offset : ℕ) :
    Mirrors (CircularLog.seekToOffset offset) (seekToOffset offset) Flag := by
  apply bytesMax_oblivious.bind_mirrors
  intro m
  apply (assert_oblivious _).bind_mirrors
  intro _
  apply bytesMax_oblivious.bind_mirrors
  intro m
  apply (modulo_oblivious _ _).bind_mirrors
  intro reduced
  apply (lseek_oblivious _).bind_mirrors
  intro r
  cases r with
  | none => exact mirrors_pure rfl
  | some errno =>
    -- the one assignment to `error_`
    intro s before
    constructor
    · intro v t h
      cases h
      exact ⟨false, rfl, rfl⟩
    · intro e t h
      cases h

theorem readPart_mirrors (offset : ℕ) (ptr : Buffer) (at_ count : ℕ) :
    Mirrors (CircularLog.readPart offset ptr at_ count) (readPart offset ptr at_ count)
      Flagged := by
  apply Mirrors.ite
  · exact mirrors_pure rfl
  · apply (seekToOffset_mirrors offset).flag_bind
    · exact fun _ => rfl
    intro _
    apply (sysRead_oblivious _ _ _).bind_mirrors
    intro r
    obtain ⟨n, ptr'⟩ := r
    dsimp only
    -- what was transferred is compared, and `errno` is not looked at
    cases n == count with
    | true => exact mirrors_pure rfl
    | false => exact mirrors_throw rfl rfl

/-- Both wrapping transfers begin by reducing the two ends of the region. -/
theorem reducedOffsets_mirrors {γ δ : Type} (offset n : ℕ) {f : ℕ → ℕ → ℕ → Op γ}
    {g : ℕ → ℕ → ℕ → Explained δ} {S : γ → Except Reason δ → Prop}
    (hfg : ∀ reduced reducedEnd m, Mirrors (f reduced reducedEnd m) (g reduced reducedEnd m) S) :
    Mirrors
      (do
        let offset ← modulo offset (← bytesMax)
        let endOffset ← modulo (u64 (offset+n)) (← bytesMax)
        f offset endOffset (← bytesMax))
      (do
        let offset ← modulo offset (← bytesMax)
        let endOffset ← modulo (u64 (offset+n)) (← bytesMax)
        g offset endOffset (← bytesMax)) S := by
  apply bytesMax_oblivious.bind_mirrors
  intro m
  apply (modulo_oblivious _ _).bind_mirrors
  intro reduced
  apply bytesMax_oblivious.bind_mirrors
  intro m'
  apply (modulo_oblivious _ _).bind_mirrors
  intro reducedEnd
  exact bytesMax_oblivious.bind_mirrors (hfg reduced reducedEnd)

theorem wrappingRead_mirrors (offset : ℕ) (ptr : Buffer) (size : ℕ) :
    Mirrors (CircularLog.wrappingRead offset ptr size) (wrappingRead offset ptr size) Flagged := by
  unfold CircularLog.wrappingRead wrappingRead
  apply reducedOffsets_mirrors
  intro reduced reducedEnd m
  rcases splitBytes m reduced reducedEnd size with ⟨endBytes, startBytes⟩
  dsimp only
  apply (readPart_mirrors _ _ _ _).bind
  · intro r b hr
    cases (show r = (true, b) from hr)
    dsimp only
    rw [if_neg (by simp)]
    exact readPart_mirrors _ _ _ _
  · intro r reason hr
    obtain ⟨ok, buffer⟩ := r
    cases (show ok = false from hr)
    exact ⟨(false, buffer), rfl, rfl⟩

theorem writePart_mirrors (offset : ℕ) (ptr : Buffer) (at_ count : ℕ) :
    Mirrors (CircularLog.writePart offset ptr at_ count) (writePart offset ptr at_ count) Flag := by
  unfold CircularLog.writePart writePart
  apply Mirrors.ite
  · exact mirrors_pure rfl
  · apply (seekToOffset_mirrors offset).flag_bind
    · exact fun _ => rfl
    intro _
    apply (sysWrite_oblivious _ _ _).bind_mirrors
    intro n
    cases n == count with
    | true => exact mirrors_pure rfl
    | false => exact mirrors_throw rfl rfl

theorem wrappingWrite_mirrors (offset : ℕ) (ptr : Buffer) (size : ℕ) :
    Mirrors (CircularLog.wrappingWrite offset ptr size) (wrappingWrite offset ptr size) Flag := by
  unfold CircularLog.wrappingWrite wrappingWrite
  apply reducedOffsets_mirrors
  intro reduced reducedEnd m
  rcases splitBytes m reduced reducedEnd size with ⟨endBytes, startBytes⟩
  dsimp only
  apply (writePart_mirrors _ _ _ _).flag_bind
  · exact fun _ => rfl
  · exact fun _ => writePart_mirrors _ _ _ _

theorem readVarint_mirrors (offset : ℕ) :
    Mirrors (CircularLog.readVarint offset) (readVarint offset) Found := by
  unfold CircularLog.readVarint readVarint
  apply (wrappingRead_mirrors _ _ _).bind
  · intro r b hr
    cases (show r = (true, b) from hr)
    dsimp only
    rw [if_neg (by simp)]
    apply (reached_oblivious (Varint.read b)).mirrors.map
    intro d v hd
    subst hd
    rfl
  · intro r reason hr
    obtain ⟨ok, buffer⟩ := r
    cases (show ok = false from hr)
    exact ⟨none, rfl, rfl⟩

theorem popRecord_mirrors : Mirrors CircularLog.popRecord popRecord Flag := by
  unfold CircularLog.popRecord popRecord
  apply mappedHeader_oblivious.bind_mirrors
  intro h
  apply Mirrors.ite
  · -- the ring is empty
    exact mirrors_throw rfl rfl
  apply (readVarint_mirrors _).bind
  · intro d b hd
    cases (show d = some b from hd)
    obtain ⟨headerSize, value⟩ := b
    apply (advanceStart_oblivious _).mirrors.map
    intro _ v hv
    subst hv
    rfl
  · intro d reason hd
    cases (show d = none from hd)
    exact ⟨false, rfl, rfl⟩

theorem popUntilAvailable_mirrors (need fuel : ℕ) :
    Mirrors (CircularLog.popUntilAvailable need fuel) (popUntilAvailable need fuel) Flag := by
  -- both loops make the same test and the same pop
  induction fuel with
  | zero =>
    unfold CircularLog.popUntilAvailable popUntilAvailable
    apply bytesAvailable_oblivious.bind_mirrors
    intro a
    apply Mirrors.ite
    · exact mirrors_fault _ _
    · exact mirrors_pure rfl
  | succ fuel ih =>
    unfold CircularLog.popUntilAvailable popUntilAvailable
    apply bytesAvailable_oblivious.bind_mirrors
    intro a
    apply Mirrors.ite
    · apply popRecord_mirrors.flag_bind
      · exact fun _ => rfl
      intro _
      apply bytesAvailable_oblivious.bind_mirrors
      intro b
      apply (assert_oblivious _).bind_mirrors
      exact fun _ => ih
    · exact mirrors_pure rfl

theorem startRecord_mirrors (size : ℕ) :
    Mirrors (CircularLog.startRecord size) (startRecord size) Found := by
  unfold CircularLog.startRecord startRecord
  apply (reached_oblivious _).bind_mirrors
  intro headerSize
  apply bytesMax_oblivious.bind_mirrors
  intro m
  apply Mirrors.ite
  · -- the record is too big
    exact mirrors_throw rfl rfl
  apply (popUntilAvailable_mirrors _ _).flag_bind
  · exact fun _ => rfl
  intro _
  apply mappedHeader_oblivious.bind_mirrors
  intro h
  apply (wrappingWrite_mirrors _ _ _).flag_bind
  · exact fun _ => rfl
  · exact fun _ => mirrors_pure rfl

theorem write_mirrors (ptr : Buffer) (size : ℕ) :
    Mirrors (CircularLog.write ptr size) (write ptr size) Flag := by
  unfold CircularLog.write write
  apply (startRecord_mirrors size).bind
  · intro r headerSize hr
    cases (show r = some headerSize from hr)
    apply mappedHeader_oblivious.bind_mirrors
    intro h
    apply (wrappingWrite_mirrors _ _ _).flag_bind
    · exact fun _ => rfl
    intro _
    apply mappedHeader_oblivious.bind_mirrors
    intro h
    apply (assignEnd_oblivious _).mirrors.map
    intro _ v hv
    subst hv
    rfl
  · intro r reason hr
    cases (show r = none from hr)
    exact ⟨false, rfl, rfl⟩

theorem read_mirrors (buffer : Buffer) (bufferSize : ℕ) :
    Mirrors (CircularLog.read buffer bufferSize) (read buffer bufferSize) Flagged := by
  unfold CircularLog.read read
  apply mirrors_get.bind
  · intro a b hab
    obtain ⟨s, before, hs, rfl⟩ := hab
    cases hs
    apply Mirrors.ite
    · -- the handle is closed
      exact mirrors_throw rfl rfl
    apply (readVarint_mirrors _).bind
    · intro d b hd
      cases (show d = some b from hd)
      obtain ⟨headerSize, value⟩ := b
      apply Mirrors.ite
      · -- the buffer is too small
        exact mirrors_throw rfl rfl
      apply (wrappingRead_mirrors _ _ _).bind
      · intro r buffer' hr
        cases (show r = (true, buffer') from hr)
        apply bytesMax_oblivious.bind_mirrors
        intro m
        apply (modulo_oblivious _ _).bind_mirrors
        intro cursor
        apply (setReadOffset_oblivious _).bind_mirrors
        exact fun _ => mirrors_pure rfl
      · intro r reason hr
        obtain ⟨ok, buffer'⟩ := r
        cases (show ok = false from hr)
        exact ⟨(false, buffer'), rfl, rfl⟩
    · intro d reason hd
      cases (show d = none from hd)
      exact ⟨(false, buffer), rfl, rfl⟩
  · intro a r hab
    obtain ⟨_, _, hs, _⟩ := hab
    cases hs

end Explained

/-- The calls that report their success by the value they return. -/
inductive Call
  | write (ptr : Buffer) (size : ℕ)
  | read (buffer : Buffer) (bufferSize : ℕ)

def Call.run : Call → Op Bool
  | .write ptr size => CircularLog.write ptr size
  | .read buffer bufferSize => do
    return (← CircularLog.read buffer bufferSize).1

/-- If the call returns false, it has assigned `error_`: whatever the field held before, the call
returns false and leaves one and the same number there. -/
def OwnReason (c : Call) (s : State) : Prop :=
  (∃ t, c.run s = .ok false t) → ∃ errno, ∀ before, ∃ t,
    c.run (s.withError before) = .ok false t ∧ t.self.error = some errno

/-- The branches that return false and assign nothing. -/
def Reason.Silent : Reason → Prop
  | .seek _ => False
  | _ => True

/-- From `s` the call takes one of them. -/
def SilentBranch : Call → State → Prop
  | .write ptr size, s => ∃ r t, (Explained.write ptr size).run s = .ok (.error r) t ∧ r.Silent
  | .read buffer bufferSize, s =>
    ∃ r t, (Explained.read buffer bufferSize).run s = .ok (.error r) t ∧ r.Silent

section OwnReason
variable {β : Type} {c : Call} {y : Explained β} {s : State}

theorem State.withError_self (s : State) : s.withError s.self.error = s := rfl

theorem Reason.silent_iff {r : Reason} : r.Silent ↔ r.assigned = none := by
  cases r <;> simp [Reason.Silent, Reason.assigned]

theorem OwnReason.of_mirrors (hc : Mirrors c.run y Flag) :
    OwnReason c s ↔ ¬∃ r t, y.run s = .ok (.error r) t ∧ r.Silent := by
  -- what the call returns and leaves in `error_`, when it returns false
  have hfails {r : Reason} {t : State} (ht : y.run s = .ok (.error r) t) (before : Option ℕ) :
      c.run (s.withError before) = .ok false (t.withError (r.assigned.or before)) := by
    obtain ⟨ok, hok, hrun⟩ := (hc s before).1 _ t ht
    cases (show ok = false from hok)
    exact hrun
  constructor
  · intro hown hsilent
    obtain ⟨r, t, ht, hr⟩ := hsilent
    have hnone := Reason.silent_iff.mp hr
    obtain ⟨errno, hassigned⟩ := hown ⟨_, hfails ht s.self.error⟩
    -- an unset field stays unset
    obtain ⟨u, hu, herror⟩ := hassigned none
    rw [hfails ht none, hnone] at hu
    cases hu
    cases herror
  · intro hloud hfalse
    obtain ⟨t, ht⟩ := hfalse
    cases hy : y.run s with
    | error e u =>
      have hstop := (hc s s.self.error).2 e u hy
      rw [State.withError_self, ht] at hstop
      cases hstop
    | ok v u =>
      cases v with
      | ok b =>
        obtain ⟨ok, hok, hrun⟩ := (hc s s.self.error).1 _ u hy
        cases (show ok = true from hok)
        rw [State.withError_self, ht] at hrun
        cases hrun
      | error r =>
        cases r with
        | seek errno => exact ⟨errno, fun before => ⟨_, hfails hy before, rfl⟩⟩
        | _ => exact absurd ⟨_, u, hy, trivial⟩ hloud

end OwnReason

/-- A failure carries its own reason exactly when it is a seek that failed. -/
theorem ownReason_iff_not_silent (c : Call) (s : State) : OwnReason c s ↔ ¬SilentBranch c s := by
  cases c with
  | write ptr size => exact OwnReason.of_mirrors (Explained.write_mirrors ptr size)
  | read buffer bufferSize =>
    apply OwnReason.of_mirrors
    apply (Explained.read_mirrors buffer bufferSize).map
    intro r v hr
    cases v with
    | ok b =>
      cases (show r = (true, b) from hr)
      rfl
    | error reason => exact hr

end CircularLog
