import CircularLog.ErrorReasons
import CircularLog.ExactTransfer

/-! Whether a failing call says why, told from the state before the call and the answers of the
system. As long as nothing fails a call is a list of transfers, and what matters is which of their
system calls is the first that is not carried out in full. -/
namespace CircularLog

/-- A seek, and the `read` or `write` behind it. -/
structure Piece where
  writes : Bool
  offset : ℕ
  count : ℕ

/-- Where the seek goes. -/
def Piece.position (p : Piece) : ℕ := u64 (headerSize+p.offset)

/-- The seek fails: there is no descriptor, the system says so, or the position is negative as an
`off_t`. -/
def Piece.SeekFails (fd : Option Mode) (p : Piece) (outcome : Outcome) : Prop :=
  fd = none ∨ outcome.failed = true ∨ 2^63 ≤ p.position

/-- What the call behind the seek returns, on a file of `length` bytes. -/
def Piece.returned (fd : Option Mode) (length : ℕ) (p : Piece) (outcome : Outcome) : ℕ :=
  match outcome.transferred p.count with
  | none => minusOne
  | some n =>
    if p.writes = true then
      if fd = some .append ∧ p.position+p.count < 2^63 then n else minusOne
    else min n (length-p.position)

/-- What a call asks of the system while all of it is carried out, and whether the call returns
false behind that. -/
structure Plan where
  pieces : List Piece
  refused : Bool

/-- The first call of the system that is not carried out in full, if there is one, is a seek. Where
there is none the plan is not refused. -/
def SeekFailsFirst (fd : Option Mode) (length : ℕ) (refused : Bool) :
    List Piece → (ℕ → Outcome) → Prop
  | [], _ => refused = false
  | p :: ps, outcomes => p.SeekFails fd (outcomes 0) ∨
      (p.returned fd length (outcomes 1) = p.count ∧
        SeekFailsFirst fd length refused ps (later outcomes 2))

instance (fd : Option Mode) (p : Piece) (outcome : Outcome) : Decidable (p.SeekFails fd outcome) :=
  inferInstanceAs (Decidable (_ ∨ _))

instance decidableSeekFailsFirst (fd : Option Mode) (length : ℕ) (refused : Bool) :
    (ps : List Piece) → (outcomes : ℕ → Outcome) →
      Decidable (SeekFailsFirst fd length refused ps outcomes)
  | [], _ => inferInstanceAs (Decidable (refused = false))
  | _ :: ps, outcomes =>
    let _ := decidableSeekFailsFirst fd length refused ps (later outcomes 2)
    inferInstanceAs (Decidable (_ ∨ (_ ∧ _)))

/-- Nothing is asked of the system for no bytes. -/
def piecesAt (writes : Bool) (offset count : ℕ) : List Piece :=
  if count = 0 then [] else [⟨writes, offset, count⟩]

/-- The pieces of a transfer of `n` bytes from offset `off` of an area of `M` bytes on. -/
def pieces (writes : Bool) (M off n : ℕ) : List Piece :=
  let split := splitBytes M (off%M) (u64 (off%M+n)%M) n
  piecesAt writes (off%M) split.1 ++ piecesAt writes 0 split.2

/-- What a window of ten bytes holds when both its pieces were read. -/
def fetched (M : ℕ) (f : File) (off : ℕ) : Buffer := fun i =>
  let endBytes := (splitBytes M (off%M) (u64 (off%M+10)%M) 10).1
  if i < endBytes then f.data (u64 (headerSize+off%M)+i-headerSize) else f.data (i-endBytes)

/-- `bytes_available()`. -/
def Header.available (M : ℕ) (h : Header) : ℕ :=
  sub64 M (if h.startOffset ≤ h.endOffset then sub64 h.endOffset h.startOffset
    else sub64 M (sub64 h.startOffset h.endOffset))

/-- The start of the frame behind the one at `c`. -/
def frameBehind (M : ℕ) (f : File) (c : ℕ) : Option ℕ :=
  (Varint.read (fetched M f c)).map fun d => u64 (c+u64 (d.1+d.2))%M

/-- The window of the frame at `start`, and what is planned behind it once the frame is gone. An
undecodable length or a mapping that is read only stops the process. -/
def popPlan (M : ℕ) (mapping : Mapping) (f : File) (next : ℕ → Plan) (start : ℕ) : Plan :=
  if start = f.header.endOffset then ⟨[], true⟩
  else if M = 0 then ⟨[], false⟩
  else
    let rest : Plan := match frameBehind M f start with
      | none => ⟨[], false⟩
      | some start' => if mapping = .readWrite then next start' else ⟨[], false⟩
    ⟨pieces false M start 10 ++ rest.pieces, rest.refused⟩

/-- The file once the frames before the one at `start` are gone. -/
def File.withFirst (f : File) (start : ℕ) : File :=
  { f with header := { f.header with startOffset := start } }

/-- The windows of the frames that have to go until `need` bytes are available, from the frame at
`start` on, and what is planned behind them. A frame that makes no room stops the process. -/
def evictions (M : ℕ) (mapping : Mapping) (f : File) (need : ℕ) (next : Plan) : ℕ → ℕ → Plan
  | 0, start => if (f.withFirst start).header.available M < need then ⟨[], false⟩ else next
  | fuel+1, start =>
    let available (c : ℕ) := (f.withFirst c).header.available M
    if available start < need then
      popPlan M mapping f (fun start' =>
        if available start < available start' then
          evictions M mapping f need next fuel start'
        else ⟨[], false⟩) start
    else next

/-- The windows of the frames to be evicted, the length and the payload. -/
def writePlan (s : State) (size : ℕ) : Plan :=
  let M := s.self.bytesMax
  let h := s.file.header
  match Varint.byteSize size with
  | none => ⟨[], false⟩
  | some n =>
    if M < u64 (n+size+1) then ⟨[], true⟩
    -- a header that is not mapped stops the process
    else if s.self.header = .null then ⟨[], false⟩
    else
      evictions M s.self.header s.file (u64 (n+size))
        (if M = 0 then ⟨[], false⟩
        else ⟨pieces true M h.endOffset n ++ pieces true M (u64 (h.endOffset+n)) size, false⟩)
        (u64 (n+size)) h.startOffset

/-- The window at the cursor, and the payload if the buffer is large enough for it. -/
def readPlan (s : State) (bufferSize : ℕ) : Plan :=
  let M := s.self.bytesMax
  let c := s.self.readOffset
  if s.self.isClosed = true then ⟨[], true⟩
  else if M = 0 then ⟨[], false⟩
  else
    let rest : Plan := match Varint.read (fetched M s.file c) with
      | none => ⟨[], false⟩
      | some (n, v) => if bufferSize < v then ⟨[], true⟩ else ⟨pieces false M (u64 (c+n)) v, false⟩
    ⟨pieces false M c 10 ++ rest.pieces, rest.refused⟩

def Call.plan (s : State) : Call → Plan
  | .write _ size => writePlan s size
  | .read _ bufferSize => readPlan s bufferSize

/-- A failure of the call, if it comes to one, begins with a seek that fails. -/
def Call.Accounted (c : Call) (s : State) : Prop :=
  SeekFailsFirst s.self.fd s.file.length (c.plan s).refused (c.plan s).pieces s.outcomes

instance (c : Call) (s : State) : Decidable (c.Accounted s) :=
  inferInstanceAs (Decidable (SeekFailsFirst _ _ _ _ _))

section Silent
variable {α β γ : Type} {fd : Option Mode} {length : ℕ} {s t : State} {y : Explained β}
  {g : β → Explained γ} {plan : Plan} {ps : List Piece} {Q : β → State → Prop}

/-- The run of `y` from `s` returns false in a branch that assigns nothing. -/
def Silent (y : Explained β) (s : State) : Prop := ∃ r t, y.run s = .ok (.error r) t ∧ r.Silent

/-- It does so exactly when the plan has a call before the first failing seek that is not carried
out in full. -/
def Told (fd : Option Mode) (length : ℕ) (y : Explained β) (s : State) (plan : Plan) : Prop :=
  Silent y s ↔ ¬SeekFailsFirst fd length plan.refused plan.pieces s.outcomes

/-- `y` makes the calls for `ps` and, if they are carried out in full, ends in a result and a state
with `Q`: what is planned behind `y` is planned behind them. -/
def Spends (fd : Option Mode) (length : ℕ) (y : Explained β) (s : State) (ps : List Piece)
    (Q : β → State → Prop) : Prop :=
  ∀ (γ : Type) (g : β → Explained γ) (plan : Plan), (∀ b t, Q b t → Told fd length (g b) t plan) →
    Told fd length (y >>= g) s ⟨ps ++ plan.pieces, plan.refused⟩

theorem told_ok {b : β} (hy : y.run s = .ok (.ok b) t) : Told fd length y s ⟨[], false⟩ := by
  have hloud : ¬Silent y s := by
    intro h
    obtain ⟨r, u, hr, _⟩ := h
    rw [hy] at hr
    cases hr
  exact ⟨fun h => absurd h hloud, fun h => absurd rfl h⟩

theorem told_error {e : Fault} (hy : y.run s = .error e t) : Told fd length y s ⟨[], false⟩ := by
  have hloud : ¬Silent y s := by
    intro h
    obtain ⟨r, u, hr, _⟩ := h
    rw [hy] at hr
    cases hr
  exact ⟨fun h => absurd h hloud, fun h => absurd rfl h⟩

/-- What is not part of the plan only stops the process or goes on. -/
theorem told_lift (x : Op β) (s : State) : Told fd length (liftM x) s ⟨[], false⟩ := by
  have hlift : (liftM x : Explained β).run s = (x >>= fun a => pure (.ok a) : Op _) s := rfl
  cases hx : x s with
  | ok a t =>
    apply told_ok (b := a) (t := t)
    rw [hlift, run_bind, hx]
    rfl
  | error e t =>
    apply told_error (e := e) (t := t)
    rw [hlift, run_bind, hx]

theorem told_throw {r : Reason} (hr : r.Silent) (s : State) :
    Told fd length (throw r : Explained β) s ⟨[], true⟩ := by
  constructor
  · intro _ hplan
    cases hplan
  · exact fun _ => ⟨r, s, rfl, hr⟩

theorem told_throw_bind {r : Reason} (hr : r.Silent) (g : β → Explained γ) (s : State) :
    Told fd length ((throw r : Explained β) >>= g) s ⟨[], true⟩ := told_throw hr s

theorem told_pure (b : β) (s : State) : Told fd length (pure b : Explained β) s ⟨[], false⟩ :=
  told_ok rfl

theorem run_liftM_bind (x : Op α) (g : α → Explained γ) (s : State) :
    ((liftM x : Explained α) >>= g).run s = match x s with
      | .ok a t => (g a).run t
      | .error e t => .error e t := by
  have hlift : ((liftM x : Explained α) >>= g).run s =
      ((x >>= fun a => pure (.ok a)) >>= ExceptT.bindCont g : Op _) s := rfl
  rw [hlift, run_bind, run_bind]
  cases x s with
  | ok a t => rfl
  | error e t => rfl

theorem run_step {x : Op α} {a : α} (hx : x s = .ok a t) (g : α → Explained γ) :
    ((liftM x : Explained α) >>= g).run s = (g a).run t := by
  rw [run_liftM_bind, hx]

theorem run_bind_ok {b : β} (hy : y.run s = .ok (.ok b) t) (g : β → Explained γ) :
    (y >>= g).run s = (g b).run t := by
  have hbind : (y >>= g).run s = (y.run >>= ExceptT.bindCont g : Op (Except Reason γ)) s := rfl
  rw [hbind, run_bind, hy]
  rfl

theorem run_bind_error {r : Reason} (hy : y.run s = .ok (.error r) t) (g : β → Explained γ) :
    (y >>= g).run s = .ok (.error r) t := by
  have hbind : (y >>= g).run s = (y.run >>= ExceptT.bindCont g : Op (Except Reason γ)) s := rfl
  rw [hbind, run_bind, hy]
  rfl

/-- A step that asks nothing of the system. -/
theorem told_step {x : Op α} {g : α → Explained γ} {a : α} (hx : x s = .ok a t)
    (ho : t.outcomes = s.outcomes) (hg : Told fd length (g a) t plan) :
    Told fd length (liftM x >>= g) s plan := by
  unfold Told Silent at hg ⊢
  rw [run_liftM_bind, hx, ← ho]
  exact hg

theorem told_stop {x : Op α} {g : α → Explained γ} {e : Fault} (hx : x s = .error e t) :
    Told fd length (liftM x >>= g) s ⟨[], false⟩ := by
  apply told_error (e := e) (t := t)
  rw [run_liftM_bind, hx]

theorem Spends.bind {f : β → Explained γ} {qs : List Piece} {R : γ → State → Prop}
    (hy : Spends fd length y s ps Q) (hf : ∀ b t, Q b t → Spends fd length (f b) t qs R) :
    Spends fd length (y >>= f) s (ps ++ qs) R := by
  intro δ g plan hg
  rw [bind_assoc, List.append_assoc]
  exact hy δ _ ⟨qs ++ plan.pieces, plan.refused⟩ (fun b t hb => hf b t hb δ g plan hg)

theorem Spends.told (hy : Spends fd length y s ps Q)
    (hg : ∀ b t, Q b t → Told fd length (g b) t plan) :
    Told fd length (y >>= g) s ⟨ps ++ plan.pieces, plan.refused⟩ := hy γ g plan hg

theorem Spends.mono {R : β → State → Prop} (hy : Spends fd length y s ps Q)
    (h : ∀ b t, Q b t → R b t) : Spends fd length y s ps R :=
  fun γ g plan hg => hy γ g plan (fun b t hb => hg b t (h b t hb))

theorem spends_step {x : Op α} {g : α → Explained γ} {a : α} {R : γ → State → Prop}
    (hx : x s = .ok a t) (ho : t.outcomes = s.outcomes) (hg : Spends fd length (g a) t ps R) :
    Spends fd length (liftM x >>= g) s ps R := by
  intro δ k plan hk
  rw [bind_assoc]
  exact told_step hx ho (hg δ k plan hk)

theorem spends_pure {b : β} (hb : Q b s) : Spends fd length (pure b) s [] Q := by
  intro δ g plan hg
  rw [pure_bind]
  exact hg b s hb

/-- The two calls for one piece: the seek fails, or the call behind it is cut short, or both are
carried out. -/
theorem spends_piece {p : Piece}
    (hseek : p.SeekFails fd (s.outcomes 0) → ∃ errno t, y.run s = .ok (.error (.seek errno)) t)
    (hcut : ¬p.SeekFails fd (s.outcomes 0) → p.returned fd length (s.outcomes 1) ≠ p.count →
      ∃ t, y.run s = .ok (.error .cutShort) t)
    (hdone : ¬p.SeekFails fd (s.outcomes 0) → p.returned fd length (s.outcomes 1) = p.count →
      ∃ b t, y.run s = .ok (.ok b) t ∧ t.outcomes = later s.outcomes 2 ∧ Q b t) :
    Spends fd length y s [p] Q := by
  intro γ g plan hg
  have hbind : (y >>= g).run s = (y.run >>= ExceptT.bindCont g : Op (Except Reason γ)) s := rfl
  unfold Told Silent
  rw [hbind, run_bind]
  dsimp only [List.cons_append, List.nil_append]
  rw [SeekFailsFirst]
  by_cases hfails : p.SeekFails fd (s.outcomes 0)
  · -- the reason comes with its number, so the run is not silent
    obtain ⟨errno, t, hrun⟩ := hseek hfails
    rw [hrun]
    constructor
    · intro h
      obtain ⟨r, u, hr, hsilent⟩ := h
      cases hr
      cases hsilent
    · exact fun h => absurd (Or.inl hfails) h
  by_cases hcount : p.returned fd length (s.outcomes 1) = p.count
  · -- both are carried out, and what follows decides
    obtain ⟨b, t, hrun, ho, hb⟩ := hdone hfails hcount
    have hrest := hg b t hb
    unfold Told Silent at hrest
    rw [ho] at hrest
    rw [hrun]
    constructor
    · intro h hplan
      rcases hplan with hseek | ⟨_, hplan⟩
      · exact hfails hseek
      · exact hrest.mp h hplan
    · exact fun h => hrest.mpr (fun hplan => h (Or.inr ⟨hcount, hplan⟩))
  · -- `read` or `write` is cut short, and the seek before it has assigned nothing
    obtain ⟨t, hrun⟩ := hcut hfails hcount
    rw [hrun]
    constructor
    · intro _ hplan
      rcases hplan with hseek | ⟨hwhole, _⟩
      · exact hfails hseek
      · exact hcount hwhole
    · exact fun _ => ⟨.cutShort, t, rfl, trivial⟩

end Silent

namespace Explained

section Transfers
variable {fd : Option Mode} {s t : State} {M offset count : ℕ} {ptr : Buffer}

theorem bytesMax_run (s : State) : CircularLog.bytesMax s = .ok s.self.bytesMax s := rfl

theorem modulo_run {a b : ℕ} (hb : 0 < b) (s : State) : modulo a b s = .ok (a%b) s := by
  rw [modulo, if_neg (by omega)]
  rfl

theorem lseek_sat (p : Piece) (s : State) :
    Sat (lseek p.position) s (fun r t =>
      (p.SeekFails s.self.fd (s.outcomes 0) → ∃ errno, r = some errno) ∧
      (¬p.SeekFails s.self.fd (s.outcomes 0) →
        r = none ∧ t = s.called .lseek s.file p.position)) := by
  rw [lseek, sat_modifyGet]
  unfold Piece.SeekFails
  cases s.self.fd with
  | none => exact ⟨fun _ => ⟨eBadF, rfl⟩, fun h => absurd (Or.inl rfl) h⟩
  | some mode =>
    -- the answer is a failure, or the position decides
    cases s.outcomes 0 with
    | fail errno => exact ⟨fun _ => ⟨errno, rfl⟩, fun h => absurd (Or.inr (Or.inl rfl)) h⟩
    | _ =>
      dsimp only
      by_cases hlarge : 2^63 ≤ p.position
      · rw [if_pos hlarge]
        exact ⟨fun _ => ⟨eInval, rfl⟩, fun h => absurd (Or.inr (Or.inr hlarge)) h⟩
      · rw [if_neg hlarge]
        refine ⟨fun h => ?_, fun _ => ⟨rfl, rfl⟩⟩
        rcases h with h | h | h
        · cases h
        · cases h
        · exact absurd h hlarge

/-- `SeekToOffset` fails exactly when the seek does, and says why. -/
theorem seekToOffset_run (p : Piece) (ho : p.offset < s.self.bytesMax) :
    (p.SeekFails s.self.fd (s.outcomes 0) →
      ∃ errno t, (seekToOffset p.offset).run s = .ok (.error (.seek errno)) t) ∧
    (¬p.SeekFails s.self.fd (s.outcomes 0) →
      (seekToOffset p.offset).run s = .ok (.ok ()) (s.called .lseek s.file p.position)) := by
  have hassert : assert (p.offset < s.self.bytesMax) s = .ok () s := by
    rw [assert, if_pos ho]
    rfl
  have hM : 0 < s.self.bytesMax := by omega
  have hpos : u64 (headerSize+p.offset%s.self.bytesMax) = p.position := by
    rw [Nat.mod_eq_of_lt ho, Piece.position]
  have hsteps (r : Option ℕ) (t : State) (hrun : lseek p.position s = .ok r t) :
      (seekToOffset p.offset).run s =
        .ok (r.elim (.ok ()) (fun errno => .error (.seek errno))) t := by
    rw [← hpos] at hrun
    cases r <;>
    · exact (run_step (bytesMax_run s) _).trans ((run_step hassert _).trans
        ((run_step (bytesMax_run s) _).trans ((run_step (modulo_run hM s) _).trans
          (run_step hrun _))))
  obtain ⟨r, t, hrun, hfails, hdone⟩ := lseek_sat p s
  rw [hsteps r t hrun]
  constructor
  · intro h
    obtain ⟨errno, rfl⟩ := hfails h
    exact ⟨errno, t, rfl⟩
  · intro h
    obtain ⟨rfl, rfl⟩ := hdone h
    rfl

/-- What `read` returns behind the seek, and what it leaves in the buffer. -/
theorem sysRead_sat (p : Piece) (hp : p.writes = false) (hfd : s.self.fd ≠ none)
    (hpos : s.position = p.position) (ptr : Buffer) (at_ : ℕ) :
    Sat (sysRead ptr at_ p.count) s (fun r t =>
      r.1 = p.returned s.self.fd s.file.length (s.outcomes 0) ∧ t.outcomes = later s.outcomes 1 ∧
      t.self = s.self ∧ t.file = s.file ∧
      (r.1 = p.count → p.count ≠ minusOne →
        ∀ i < p.count, r.2 (at_+i) = s.file.data (p.position+i-headerSize)) ∧
      ∀ i < at_, r.2 i = ptr i) := by
  rw [sysRead, sat_modifyGet, Piece.returned]
  cases hd : s.self.fd with
  | none => exact absurd hd hfd
  | some mode =>
    cases ht : (s.outcomes 0).transferred p.count with
    | none => exact ⟨rfl, rfl, rfl, rfl, fun hr hc => absurd hr.symm hc, fun _ _ => rfl⟩
    | some n =>
      refine ⟨?_, rfl, rfl, rfl, ?_, ?_⟩
      · dsimp only
        rw [hp, if_neg (by simp), hpos]
      · intro hr _ i hi
        dsimp only at hr ⊢
        rw [if_pos (by omega), hpos]
        congr 2
        omega
      · intro i hi
        dsimp only
        rw [if_neg (by omega)]

theorem sysWrite_sat (p : Piece) (hp : p.writes = true) (length : ℕ)
    (hpos : s.position = p.position) (ptr : Buffer) (at_ : ℕ) :
    Sat (sysWrite ptr at_ p.count) s (fun n t =>
      n = p.returned s.self.fd length (s.outcomes 0) ∧ t.outcomes = later s.outcomes 1 ∧
      t.self = s.self ∧ t.file.header = s.file.header) := by
  rw [sysWrite, sat_modifyGet, Piece.returned, hp]
  rcases hd : s.self.fd with _ | _ | _
  · cases (s.outcomes 0).transferred p.count <;> exact ⟨rfl, rfl, rfl, rfl⟩
  · cases (s.outcomes 0).transferred p.count <;> exact ⟨rfl, rfl, rfl, rfl⟩
  · -- the one descriptor that can be written to
    cases (s.outcomes 0).transferred p.count with
    | none => exact ⟨rfl, rfl, rfl, rfl⟩
    | some n =>
      dsimp only
      rw [if_pos rfl, hpos]
      by_cases hlarge : 2^63 ≤ p.position+p.count
      · rw [if_pos hlarge, if_neg (by omega)]
        exact ⟨rfl, rfl, rfl, rfl⟩
      · rw [if_neg hlarge, if_pos ⟨rfl, by omega⟩]
        exact ⟨rfl, rfl, rfl, rfl⟩

/-- What a read leaves as it is. -/
structure Kept (s t : State) : Prop where
  self : t.self = s.self
  file : t.file = s.file

theorem readPart_spends (ho : offset < s.self.bytesMax) (hfd : s.self.fd = fd) {length : ℕ}
    (hlen : s.file.length = length) (ptr : Buffer) (at_ count : ℕ) :
    Spends fd length (readPart offset ptr at_ count) s (piecesAt false offset count) (fun b t =>
      Kept s t ∧ (count ≠ minusOne →
        ∀ i < count, b (at_+i) = s.file.data (u64 (headerSize+offset)+i-headerSize)) ∧
      ∀ i < at_, b i = ptr i) := by
  subst hfd
  subst hlen
  unfold readPart piecesAt
  by_cases hz : count = 0
  · rw [if_pos hz, if_pos hz]
    exact spends_pure ⟨⟨rfl, rfl⟩, fun _ i hi => by omega, fun _ _ => rfl⟩
  rw [if_neg hz, if_neg hz]
  obtain ⟨hfails, hdone⟩ := seekToOffset_run ⟨false, offset, count⟩ ho
  have hread (hs : ¬(⟨false, offset, count⟩ : Piece).SeekFails s.self.fd (s.outcomes 0)) :=
    sysRead_sat (s := s.called .lseek s.file (u64 (headerSize+offset))) ⟨false, offset, count⟩ rfl
      (fun h => hs (Or.inl h)) rfl ptr at_
  apply spends_piece
  · intro hs
    obtain ⟨errno, t, ht⟩ := hfails hs
    exact ⟨errno, t, run_bind_error ht _⟩
  · intro hs hshort
    obtain ⟨⟨n, buffer⟩, t, hrun, hn, _⟩ := hread hs
    refine ⟨t, (run_bind_ok (hdone hs) _).trans ((run_step hrun _).trans ?_)⟩
    dsimp only at hn ⊢
    rw [if_neg]
    · rfl
    · intro hcount
      exact hshort (hn.symm.trans (beq_iff_eq.mp hcount))
  · intro hs hcount
    obtain ⟨⟨n, buffer⟩, t, hrun, hn, ho, hself, hfile, hbytes, hfront⟩ := hread hs
    refine ⟨buffer, t, (run_bind_ok (hdone hs) _).trans ((run_step hrun _).trans ?_), ho,
      ⟨hself, hfile⟩, hbytes (hn.trans hcount), hfront⟩
    dsimp only at hn ⊢
    rw [if_pos (beq_iff_eq.mpr (hn.trans hcount))]
    rfl

theorem writePart_spends (ho : offset < s.self.bytesMax) (hfd : s.self.fd = fd) (length : ℕ)
    (ptr : Buffer) (at_ count : ℕ) :
    Spends fd length (writePart offset ptr at_ count) s (piecesAt true offset count) (fun _ t =>
      t.self = s.self ∧ t.file.header = s.file.header) := by
  subst hfd
  unfold writePart piecesAt
  by_cases hz : count = 0
  · rw [if_pos hz, if_pos hz]
    exact spends_pure ⟨rfl, rfl⟩
  rw [if_neg hz, if_neg hz]
  obtain ⟨hfails, hdone⟩ := seekToOffset_run ⟨true, offset, count⟩ ho
  obtain ⟨n, t, hrun, hn, ho, hself, hheader⟩ :=
    sysWrite_sat (s := s.called .lseek s.file (u64 (headerSize+offset))) ⟨true, offset, count⟩ rfl
      length rfl ptr at_
  apply spends_piece
  · intro hs
    obtain ⟨errno, t, ht⟩ := hfails hs
    exact ⟨errno, t, run_bind_error ht _⟩
  · intro hs hshort
    refine ⟨t, (run_bind_ok (hdone hs) _).trans ((run_step hrun _).trans ?_)⟩
    rw [if_neg]
    · rfl
    · intro hcount
      exact hshort (hn.symm.trans (beq_iff_eq.mp hcount))
  · intro hs hcount
    refine ⟨(), t, (run_bind_ok (hdone hs) _).trans ((run_step hrun _).trans ?_), ho, hself,
      hheader⟩
    rw [if_pos (beq_iff_eq.mpr (hn.trans hcount))]
    rfl

theorem wrappingWrite_spends (hM : 0 < s.self.bytesMax) (hfd : s.self.fd = fd) (length : ℕ)
    (off : ℕ) (ptr : Buffer) (n : ℕ) :
    Spends fd length (wrappingWrite off ptr n) s (pieces true s.self.bytesMax off n) (fun _ t =>
      t.self = s.self ∧ t.file.header = s.file.header) := by
  unfold wrappingWrite
  apply spends_step (bytesMax_run s) rfl
  apply spends_step (modulo_run hM s) rfl
  apply spends_step (bytesMax_run s) rfl
  apply spends_step (modulo_run hM s) rfl
  apply spends_step (bytesMax_run s) rfl
  apply (writePart_spends (Nat.mod_lt _ hM) hfd length ptr 0 _).bind
  intro _ t ht
  obtain ⟨hself, hheader⟩ := ht
  have hM' : 0 < t.self.bytesMax := by rwa [hself]
  have hrest := writePart_spends hM' (hself ▸ hfd) length ptr
    (splitBytes s.self.bytesMax (off%s.self.bytesMax)
      (u64 (off%s.self.bytesMax+n)%s.self.bytesMax) n).1
    (splitBytes s.self.bytesMax (off%s.self.bytesMax)
      (u64 (off%s.self.bytesMax+n)%s.self.bytesMax) n).2
  rwa [hself, hheader] at hrest

/-- The two parts of a window of ten bytes. -/
theorem splitBytes_window (hM : 0 < M) (hb : M < 2^64) (off : ℕ) {e b : ℕ}
    (hs : splitBytes M (off%M) (u64 (off%M+10)%M) 10 = (e, b)) :
    e ≠ minusOne ∧ (e < 10 → e+b = 10) := by
  have ho : off%M < M := Nat.mod_lt _ hM
  unfold splitBytes at hs
  by_cases hwrap : off%M < u64 (off%M+10)%M
  · rw [if_pos hwrap] at hs
    cases hs
    unfold minusOne
    omega
  · rw [if_neg hwrap, sub64_of_le hb ho.le] at hs
    cases hs
    constructor
    · -- an area as long as that would hold the window without a wrap
      intro he
      unfold minusOne at he
      have hall : M = 2^64-1 ∧ off%M = 0 := by omega
      rw [hall.2, hall.1] at hwrap
      unfold u64 at hwrap
      omega
    · intro hlt
      rw [sub64_of_le (by norm_num) (by omega)]
      omega

theorem bytesMax_lt (s : State) : s.self.bytesMax < 2^64 := by
  unfold Ringfile.bytesMax sub64
  omega

theorem wrappingRead_spends (hM : 0 < s.self.bytesMax) (hfd : s.self.fd = fd) {length : ℕ}
    (hlen : s.file.length = length) (off : ℕ) (ptr : Buffer) (n : ℕ) :
    Spends fd length (wrappingRead off ptr n) s (pieces false s.self.bytesMax off n) (fun b t =>
      Kept s t ∧ (n = 10 → ∀ i < 10, b i = fetched s.self.bytesMax s.file off i)) := by
  have ho : off%s.self.bytesMax < s.self.bytesMax := Nat.mod_lt _ hM
  unfold wrappingRead pieces
  apply spends_step (bytesMax_run s) rfl
  apply spends_step (modulo_run hM s) rfl
  apply spends_step (bytesMax_run s) rfl
  apply spends_step (modulo_run hM s) rfl
  apply spends_step (bytesMax_run s) rfl
  rcases hs : splitBytes s.self.bytesMax (off%s.self.bytesMax)
    (u64 (off%s.self.bytesMax+n)%s.self.bytesMax) n with ⟨e, b⟩
  dsimp only
  apply (readPart_spends ho hfd hlen ptr 0 e).bind
  intro buffer t hspec
  obtain ⟨⟨hself, hfile⟩, hfirst, _⟩ := hspec
  have hM' : 0 < t.self.bytesMax := by rwa [hself]
  have hrest := readPart_spends hM' (hself ▸ hfd) (hfile ▸ hlen) buffer e b
  refine hrest.mono ?_
  intro buffer' u hspec
  obtain ⟨⟨hself', hfile'⟩, hsecond, hfront⟩ := hspec
  refine ⟨⟨hself'.trans hself, hfile'.trans hfile⟩, ?_⟩
  intro hn i hi
  subst hn
  obtain ⟨he, hsum⟩ := splitBytes_window hM (bytesMax_lt s) off hs
  unfold fetched
  rw [hs]
  dsimp only
  by_cases hie : i < e
  · -- the second part does not touch the front of the buffer
    have hbyte := hfirst he i hie
    rw [Nat.zero_add] at hbyte
    rw [if_pos hie, hfront i hie, hbyte]
  · have hten := hsum (by omega)
    have hbyte := hsecond (by unfold minusOne; omega) (i-e) (by omega)
    rw [show e+(i-e) = i by omega, hfile, u64_of_lt (by norm_num [headerSize]),
      show headerSize+0+(i-e)-headerSize = i-e by omega] at hbyte
    rw [if_neg hie, hbyte]

theorem modulo_zero (a : ℕ) {b : ℕ} (hb : b = 0) (s : State) :
    modulo a b s = .error .divisionByZero s := by
  rw [modulo, if_pos hb]
  rfl

theorem readVarint_zero {γ : Type} {g : ℕ × ℕ → Explained γ} {length : ℕ} (hM : s.self.bytesMax = 0)
    {off : ℕ} : Told fd length (readVarint off >>= g) s ⟨[], false⟩ := by
  unfold readVarint wrappingRead
  rw [bind_assoc, bind_assoc]
  apply told_step (bytesMax_run s) rfl
  rw [bind_assoc]
  exact told_stop (modulo_zero off hM s)

theorem wrappingWrite_zero {γ : Type} {g : Unit → Explained γ} {length : ℕ}
    (hM : s.self.bytesMax = 0) (off : ℕ) (ptr : Buffer) (n : ℕ) :
    Told fd length (wrappingWrite off ptr n >>= g) s ⟨[], false⟩ := by
  unfold wrappingWrite
  rw [bind_assoc]
  apply told_step (bytesMax_run s) rfl
  rw [bind_assoc]
  exact told_stop (modulo_zero off hM s)

theorem readVarint_told {γ : Type} {g : ℕ × ℕ → Explained γ} {plan : Plan} {length : ℕ}
    (hM : 0 < s.self.bytesMax) (hfd : s.self.fd = fd) (hlen : s.file.length = length) {off : ℕ}
    (hnone : Varint.read (fetched s.self.bytesMax s.file off) = none → plan = ⟨[], false⟩)
    (hg : ∀ d t, Varint.read (fetched s.self.bytesMax s.file off) = some d → Kept s t →
      Told fd length (g d) t plan) :
    Told fd length (readVarint off >>= g) s
      ⟨pieces false s.self.bytesMax off 10 ++ plan.pieces, plan.refused⟩ := by
  unfold readVarint
  rw [bind_assoc]
  apply (wrappingRead_spends hM hfd hlen off uninitialized 10).told
  intro buffer t hspec
  obtain ⟨hkept, hbytes⟩ := hspec
  -- the decoder looks at the ten bytes only
  have hdec := Varint.read_congr (hbytes rfl)
  cases hd : Varint.read (fetched s.self.bytesMax s.file off) with
  | none =>
    rw [hnone hd]
    have hstop : reached (Varint.read buffer) t = .error .noReturn t := by
      rw [hdec, hd]
      rfl
    exact told_stop hstop
  | some d =>
    have hrun : reached (Varint.read buffer) t = .ok d t := by
      rw [hdec, hd]
      rfl
    exact told_step hrun rfl (hg d t hd hkept)

theorem mappedHeader_run (h : s.self.header ≠ .null) :
    mappedHeader s = .ok s.file.header s := run_of_sat (by
  rw [mappedHeader, sat_bind, sat_get, if_neg h, sat_pure]
  exact ⟨rfl, rfl⟩)

theorem bytesAvailable_run (h : s.self.header ≠ .null) :
    bytesAvailable s = .ok (s.file.header.available s.self.bytesMax) s := by
  apply run_of_sat
  rw [bytesAvailable, bytesUsed, sat_bind, sat_bind, sat_of_run (mappedHeader_run h)]
  unfold Header.available
  by_cases hle : s.file.header.startOffset ≤ s.file.header.endOffset
  · rw [if_pos hle, if_pos hle, sat_pure, sat_bind, sat_of_run (bytesMax_run s), sat_pure]
    exact ⟨rfl, rfl⟩
  · rw [if_neg hle, if_neg hle, sat_bind, sat_of_run (bytesMax_run s), sat_pure, sat_bind,
      sat_of_run (bytesMax_run s), sat_pure]
    exact ⟨rfl, rfl⟩

/-- The two stores that evict a frame, through a mapping that can be written to. -/
theorem advanceStart_sat (hM : 0 < s.self.bytesMax) (h : s.self.header = .readWrite) (n : ℕ) :
    Sat (advanceStart n) s (fun _ t => t.self = s.self ∧ t.outcomes = s.outcomes ∧
      t.file = { s.file with header := { s.file.header with
        startOffset := u64 (s.file.header.startOffset+n)%s.self.bytesMax } }) := by
  have hstore (t : State) (ht : t.self.header = .readWrite) (event : Event) (x : Header) :
      storeHeader event x t = .ok () (t.assigned event { t.file with header := x }) := by
    apply run_of_sat
    rw [storeHeader, sat_bind, sat_get, ht]
    exact sat_modify.mpr ⟨rfl, rfl⟩
  rw [advanceStart, sat_bind, sat_of_run (mappedHeader_run (by rw [h]; simp)), sat_bind,
    sat_of_run (hstore s h _ _), sat_bind]
  have hmapped (file : File) : (s.assigned .advance file).self.header ≠ .null := by
    rw [State.assigned, h]
    simp
  rw [sat_of_run (mappedHeader_run (hmapped _)), sat_bind, sat_of_run (bytesMax_run _), sat_bind,
    sat_modulo, sat_of_run (hstore (s.assigned .advance _) h _ _)]
  · exact ⟨rfl, rfl, rfl⟩
  · exact hM

/-- Through one that is read only the first store stops the process. -/
theorem advanceStart_stops (h : s.self.header = .readOnly) (n : ℕ) :
    advanceStart n s = .error .protection s := by
  have hstore (x : Header) : storeHeader .advance x s = .error .protection s := by
    rw [storeHeader, run_bind, get_run]
    dsimp only
    rw [h]
    rfl
  rw [advanceStart, run_bind, mappedHeader_run (by rw [h]; simp)]
  dsimp only
  rw [run_bind, hstore]

theorem popRecord_told {γ : Type} {g : Unit → Explained γ} {next : ℕ → Plan} {length start : ℕ}
    {f : File} (hmap : s.self.header ≠ .null) (hfd : s.self.fd = fd) (hlen : f.length = length)
    (hf : s.file = f.withFirst start)
    (hg : ∀ start' t, t.self = s.self → t.file = f.withFirst start' →
      Told fd length (g ()) t (next start')) :
    Told fd length (popRecord >>= g) s (popPlan s.self.bytesMax s.self.header f next start) := by
  unfold popRecord popPlan
  rw [bind_assoc]
  apply told_step (mappedHeader_run hmap) rfl
  rw [hf]
  -- an empty ring has no frame to evict, and nothing says so
  by_cases hempty : start = f.header.endOffset
  · rw [if_pos hempty, if_pos (show (f.withFirst start).header.startOffset =
      (f.withFirst start).header.endOffset from hempty)]
    exact told_throw_bind (show Reason.Silent .nothingToPop from trivial) _ s
  rw [if_neg hempty, if_neg (show ¬(f.withFirst start).header.startOffset =
    (f.withFirst start).header.endOffset from hempty), bind_assoc]
  by_cases hM : s.self.bytesMax = 0
  · rw [if_pos hM]
    exact readVarint_zero hM
  rw [if_neg hM]
  -- the window is the one of the file before the call: only the start has moved since
  have hwindow : fetched s.self.bytesMax s.file start = fetched s.self.bytesMax f start := by
    rw [hf]
    rfl
  apply readVarint_told (by omega) hfd (by rw [hf]; exact hlen)
  · intro hd
    change Varint.read (fetched s.self.bytesMax s.file start) = none at hd
    rw [hwindow] at hd
    unfold frameBehind
    rw [hd]
    rfl
  · intro d t hd hkept
    change Varint.read (fetched s.self.bytesMax s.file start) = some d at hd
    rw [hwindow] at hd
    unfold frameBehind
    rw [hd, Option.map_some]
    dsimp only
    cases hmapping : s.self.header with
    | null => exact absurd hmapping hmap
    | readOnly =>
      -- the start offset is stored through a mapping that is read only
      rw [if_neg (by simp)]
      apply told_stop (advanceStart_stops (by rw [hkept.self, hmapping]) _)
    | readWrite =>
      rw [if_pos rfl]
      obtain ⟨_, u, hrun, hself, ho, hfile⟩ :=
        advanceStart_sat (s := t) (by rw [hkept.self]; omega) (by rw [hkept.self, hmapping])
          (u64 (d.1+d.2))
      apply told_step hrun ho
      apply hg
      · rw [hself, hkept.self]
      · rw [hfile, hkept.file, hkept.self, hf]
        rfl

theorem popUntilAvailable_told {γ : Type} {g : Unit → Explained γ} {next : Plan}
    {length : ℕ} {f : File} (hlen : f.length = length) {need : ℕ} (fuel : ℕ) {start : ℕ} {s : State}
    (hmap : s.self.header ≠ .null) (hfd : s.self.fd = fd) (hf : s.file = f.withFirst start)
    (hg : ∀ start' t, t.self = s.self → t.file = f.withFirst start' →
      Told fd length (g ()) t next) :
    Told fd length (popUntilAvailable need fuel >>= g) s
      (evictions s.self.bytesMax s.self.header f need next fuel start) := by
  -- on the turns; each goes on at the frame behind
  induction fuel generalizing start s with
  | zero =>
    unfold popUntilAvailable evictions
    rw [bind_assoc]
    apply told_step (bytesAvailable_run hmap) rfl
    rw [hf]
    by_cases hneed : (f.withFirst start).header.available s.self.bytesMax < need
    · rw [if_pos hneed, if_pos hneed]
      exact told_stop rfl
    · rw [if_neg hneed, if_neg hneed, pure_bind]
      exact hg start s rfl hf
  | succ fuel ih =>
    unfold popUntilAvailable evictions
    rw [bind_assoc]
    apply told_step (bytesAvailable_run hmap) rfl
    rw [hf]
    dsimp only
    by_cases hneed : (f.withFirst start).header.available s.self.bytesMax < need
    · rw [if_pos hneed, if_pos hneed, bind_assoc]
      apply popRecord_told hmap hfd hlen hf
      intro start' t hself hfile
      rw [bind_assoc]
      have hmap' : t.self.header ≠ .null := by rwa [hself]
      apply told_step (bytesAvailable_run hmap') rfl
      rw [hfile, hself]
      by_cases hroom : (f.withFirst start).header.available s.self.bytesMax <
          (f.withFirst start').header.available s.self.bytesMax
      · rw [if_pos hroom, bind_assoc]
        have hassert : assert ((f.withFirst start).header.available s.self.bytesMax <
            (f.withFirst start').header.available s.self.bytesMax) t = .ok () t := by
          rw [assert, if_pos hroom]
          rfl
        apply told_step hassert rfl
        have hrest := ih hmap' (hself ▸ hfd) hfile
          (fun start'' u hu hfu => hg start'' u (hu.trans hself) hfu)
        rwa [hself] at hrest
      · -- the frame made no room, and the assertion stops the process
        rw [if_neg hroom, bind_assoc]
        have hassert : assert ((f.withFirst start).header.available s.self.bytesMax <
            (f.withFirst start').header.available s.self.bytesMax) t = .error .assertion t := by
          rw [assert, if_neg hroom]
          rfl
        exact told_stop hassert
    · rw [if_neg hneed, if_neg hneed, pure_bind]
      exact hg start s rfl hf

theorem popUntilAvailable_null {γ : Type} {g : Unit → Explained γ} {length : ℕ}
    (h : s.self.header = .null) (need fuel : ℕ) :
    Told fd length (popUntilAvailable need fuel >>= g) s ⟨[], false⟩ := by
  have hstop : bytesAvailable s = .error .nullPointer s := by
    rw [bytesAvailable, bytesUsed, run_bind, run_bind, mappedHeader, run_bind, get_run]
    dsimp only
    rw [if_pos h]
    rfl
  -- the room is asked for before the turns are counted
  cases fuel <;>
  · unfold popUntilAvailable
    rw [bind_assoc]
    exact told_stop hstop

theorem write_told (ptr : Buffer) (size : ℕ) (s : State) :
    Told s.self.fd s.file.length (write ptr size) s (writePlan s size) := by
  unfold write startRecord writePlan
  rw [bind_assoc]
  cases hsize : Varint.byteSize size with
  | none => exact told_stop (show reached none s = .error .noReturn s from rfl)
  | some n =>
    apply told_step (show reached (some n) s = .ok n s from rfl) rfl
    dsimp only
    rw [bind_assoc]
    apply told_step (bytesMax_run s) rfl
    by_cases hbig : s.self.bytesMax < u64 (n+size+1)
    · rw [if_pos hbig, if_pos hbig]
      exact told_throw_bind (show Reason.Silent .recordTooBig from trivial) _ s
    rw [if_neg hbig, if_neg hbig, bind_assoc]
    by_cases hmap : s.self.header = .null
    · -- the header is looked at without a test
      rw [if_pos hmap]
      exact popUntilAvailable_null hmap _ _
    rw [if_neg hmap]
    apply popUntilAvailable_told rfl (u64 (n+size)) hmap rfl rfl
    intro start t hself hfile
    rw [bind_assoc]
    have hmap' : t.self.header ≠ .null := by rwa [hself]
    apply told_step (mappedHeader_run hmap') rfl
    rw [bind_assoc]
    by_cases hM : s.self.bytesMax = 0
    · rw [if_pos hM]
      exact wrappingWrite_zero (by rw [hself, hM]) _ _ _
    rw [if_neg hM]
    have hend : t.file.header.endOffset = s.file.header.endOffset := by
      rw [hfile]
      rfl
    have hMt : 0 < t.self.bytesMax := by
      rw [hself]
      omega
    -- the length goes to the end of the records
    have hlength := wrappingWrite_spends hMt (congrArg Ringfile.fd hself) s.file.length
      t.file.header.endOffset (Varint.write size uninitialized) n
    rw [hself, hend] at hlength
    rw [hend]
    refine hlength _ _
      ⟨pieces true s.self.bytesMax (u64 (s.file.header.endOffset+n)) size, false⟩ ?_
    intro _ u hu
    obtain ⟨hself', hheader⟩ := hu
    rw [pure_bind]
    have hmapu : u.self.header ≠ .null := by
      rw [hself']
      exact hmap
    apply told_step (mappedHeader_run hmapu) rfl
    rw [hheader, hend]
    -- and the payload behind it
    have hpayload := wrappingWrite_spends (s := u) (by rw [hself']; omega)
      (congrArg Ringfile.fd hself') s.file.length (u64 (s.file.header.endOffset+n)) ptr size
    rw [hself'] at hpayload
    have htold := hpayload _ (fun _ => do
      let h ← mappedHeader
      assignEnd (u64 (h.endOffset+u64 (n+size)))) ⟨[], false⟩
      (fun _ v hv => told_step (mappedHeader_run (by rw [hv.1]; exact hmap)) rfl (told_lift _ v))
    rwa [List.append_nil] at htold

theorem read_told (buffer : Buffer) (bufferSize : ℕ) (s : State) :
    Told s.self.fd s.file.length (read buffer bufferSize) s (readPlan s bufferSize) := by
  unfold read readPlan
  apply told_step (show (get : Op State) s = .ok s s from rfl) rfl
  dsimp only
  by_cases hclosed : s.self.isClosed = true
  · rw [if_pos hclosed, if_pos hclosed]
    exact told_throw (show Reason.Silent .closed from trivial) s
  rw [if_neg hclosed, if_neg hclosed]
  by_cases hM : s.self.bytesMax = 0
  · rw [if_pos hM]
    exact readVarint_zero hM
  rw [if_neg hM]
  apply readVarint_told (by omega) rfl rfl
  · intro hd
    rw [hd]
  · intro d t hd hkept
    obtain ⟨n, v⟩ := d
    rw [hd]
    dsimp only
    -- the length is known by now, and nothing more is asked of the system
    by_cases hsmall : bufferSize < v
    · rw [if_pos hsmall, if_pos hsmall]
      exact told_throw (show Reason.Silent .bufferTooSmall from trivial) t
    rw [if_neg hsmall, if_neg hsmall]
    have hpayload := wrappingRead_spends (s := t) (by rw [hkept.self]; omega)
      (congrArg Ringfile.fd hkept.self) (congrArg File.length hkept.file)
      (u64 (s.self.readOffset+n)) buffer v
    rw [hkept.self] at hpayload
    have htold := hpayload _ (fun buffer => do
      setReadOffset (← modulo (u64 (s.self.readOffset+u64 (n+v))) (← bytesMax))
      return buffer) ⟨[], false⟩
      (fun buffer u hu => told_step (bytesMax_run u) rfl
        (told_step (modulo_run (by rw [hu.1.self, hkept.self]; omega) u) rfl
          (told_step rfl rfl (told_pure buffer _))))
    rwa [List.append_nil] at htold

end Transfers

end Explained

/-- On a new ring: a record that fits, with all calls carried out, with a seek that fails and with a
`write` that is cut short, and a record that is too big. -/
example :
    let s (i : ℕ) (outcome : Outcome) := createdState blank.construct 34
      (fun j => if j = i+3 then outcome else .done)
    (Call.write uninitialized 5).Accounted (s 0 .done) ∧
      (Call.write uninitialized 5).Accounted (s 2 (.fail 5)) ∧
      ¬(Call.write uninitialized 5).Accounted (s 3 (.short 4)) ∧
      ¬(Call.write uninitialized 10).Accounted (s 0 (.fail 5)) := by
  decide +kernel

end CircularLog
