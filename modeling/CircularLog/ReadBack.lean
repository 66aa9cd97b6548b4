import CircularLog.ZeroLength

/-! What a reader finds in a file: the loop of `Command::Read` on a freshly opened handle. -/
namespace CircularLog

/-- The loop of `Command::Read`: the records it prints, and whether it ends well. `stringMaxSize` is
`std::string::max_size()`, which depends on the library; `resize` throws for more. -/
def readLoop (stringMaxSize : ℕ) : ℕ → Op (List Record × Bool)
  | 0 => throw .outOfFuel
  | turns+1 => do
    match ← nextRecordSize with
    | none => return ([], true)
    | some size =>
      if stringMaxSize < size then throw .lengthError
      let (ok, record) ← read (fun _ => 0) size
      if !ok then
        return ([], false)
      let (records, ok) ← readLoop stringMaxSize turns
      return (contents record size :: records, ok)

/-- The records a reader opening the file now reads before it reaches the end of file, if it does. A
record takes one byte at least, so the file's length bounds the turns of the loop, and no record is
longer than the file. -/
def readBack (junk : Ringfile) (f : File) : Option (List Record) :=
  match openFile junk.construct (some f) .read allDone with
  | .opened s =>
    match readLoop f.length (f.length+1) s with
    | .ok (records, true) _ => some records
    | _ => none
  | _ => none

section ReadBack
variable {M : ℕ} {s : State} {f : File} {L U : List Record} {r : Record}

/-- A record that `Read` can deliver at `offset`. -/
def Readable (M offset : ℕ) (r : Record) : Prop := r ≠ [] ∨ offset+2 = M

theorem read_whole (hM : 10 ≤ M) (h : Unread M s (r :: U)) (hi : Ideal s)
    (hr : Readable M s.self.readOffset r) (buffer : Buffer) :
    Sat (read buffer r.length) s (fun v t => v.1 = true ∧ contents v.2 r.length = r ∧
      Looked s t ∧ Unread M t U ∧ t.self.readOffset = (s.self.readOffset+frameSize r)%M) := by
  by_cases hne : r = []
  · -- the empty record, in the one place where a transfer of no bytes succeeds
    subst hne
    have hplace : s.self.readOffset+2 = M := hr.resolve_left (fun h => h rfl)
    refine (read_empty hM h hi buffer 0).mono ?_
    intro v t hspec
    obtain ⟨hok, hl, ht⟩ := hspec
    rw [decide_eq_true hplace] at hok
    exact ⟨hok, rfl, hl, ht hok⟩
  · refine (read_spec hM h hne buffer r.length).mono ?_
    intro v t hspec
    obtain ⟨hl, hcases, _, hroom⟩ := hspec
    have hok := hroom hi le_rfl
    rcases hcases with ⟨hno, _⟩ | ⟨rfl, _, hu, hself⟩
    · exact absurd hok (ne_true_of_eq_false hno)
    · refine ⟨rfl, contents_overlay r buffer, hl, hu, ?_⟩
      rw [hself]

theorem readLoop_spec {stringMaxSize : ℕ} (hstring : ∀ r ∈ U, r.length ≤ stringMaxSize)
    (hM : 10 ≤ M) (h : Unread M s U) (hi : Ideal s)
    (hr : ∀ A r B, U = A ++ r :: B → Readable M ((s.self.readOffset+used A)%M) r) (turns : ℕ)
    (ht : U.length < turns) :
    Sat (readLoop stringMaxSize turns) s (fun v t => v = (U, true) ∧ Looked s t) := by
  -- one turn for each record and one more that finds none
  induction turns generalizing s U with
  | zero => omega
  | succ turns ih =>
    rw [readLoop]
    cases U with
    | nil =>
      apply (nextRecordSize_none h).bind
      intro v t hspec
      obtain ⟨rfl, rfl⟩ := hspec
      exact sat_pure.mpr ⟨rfl, rfl, id⟩
    | cons r U =>
      have hstart : s.self.readOffset < M := h.layout.start_lt
      have hlen := hstring r List.mem_cons_self
      apply (nextRecordSize_spec hM h).bind
      intro v t hspec
      obtain ⟨hl, hself, hu, _, hv⟩ := hspec
      rw [hv hi]
      dsimp only
      rw [if_neg (by omega)]
      have hoff : t.self.readOffset = s.self.readOffset := by rw [hself]
      have hfirst : Readable M t.self.readOffset r := by
        have hA := hr [] r U rfl
        rwa [used_nil, Nat.add_zero, Nat.mod_eq_of_lt hstart, ← hoff] at hA
      apply (read_whole hM hu (hl.ideal hi) hfirst _).bind
      intro v u hspec
      obtain ⟨ok, record⟩ := v
      obtain ⟨hok, hrecord, hl', hu', hoff'⟩ := hspec
      rw [sat_unless]
      refine ⟨fun hno => absurd hok (ne_true_of_eq_false hno), fun _ => ?_⟩
      have hrest : ∀ A q B, U = A ++ q :: B → Readable M ((u.self.readOffset+used A)%M) q := by
        intro A q B hU
        have hA := hr (r :: A) q B (by rw [hU]; rfl)
        rwa [hoff', hoff, Nat.mod_add_mod, Nat.add_assoc, ← used_cons]
      rw [List.length_cons] at ht
      apply (ih (fun q hq => hstring q (List.mem_cons_of_mem _ hq)) hu'
        (hl'.ideal (hl.ideal hi)) hrest (by omega)).bind
      intro v w hspec
      obtain ⟨records, ok'⟩ := v
      obtain ⟨hw, hl''⟩ := hspec
      cases hw
      refine sat_pure.mpr ⟨?_, hl.trans (hl'.trans hl'')⟩
      rw [hrecord]

theorem length_le_used (h : used L < 2^64) : L.length ≤ used L := by
  induction L with
  | nil => exact Nat.zero_le _
  | cons r L ih =>
    rw [used_cons] at h
    have hr := frameSize_pos (r := r) (by omega)
    have hL := ih (by omega)
    rw [used_cons, List.length_cons]
    omega

theorem WellFormed.readBack (hM : 10 ≤ M) (h : WellFormed M f L) (junk : Ringfile) :
    CircularLog.readBack junk f = some L := by
  obtain ⟨s, hs, hf, hserves⟩ := h.open_serves junk
  have hb := h.bound
  have hfits := h.layout.fits
  have hlen := length_le_used (L := L) (by omega)
  have hnonempty : ∀ A r B, L = A ++ r :: B → Readable M ((s.self.readOffset+used A)%M) r := by
    intro A r B hsplit
    subst hsplit
    exact Or.inl (h.nonempty r (by simp))
  have hstring : ∀ r ∈ L, r.length ≤ f.length := by
    intro r hr
    have hr' := h.layout.length_lt hr
    rw [h.length]
    omega
  obtain ⟨v, t, hrun, rfl, _⟩ := readLoop_spec hstring hM hserves.unread hserves.ideal hnonempty
    (f.length+1) (by
      rw [h.length]
      omega)
  rw [CircularLog.readBack, hs]
  dsimp only
  rw [hrun]

end ReadBack

end CircularLog
