import CircularLog.Reachable

/-! The wrapping transfers as copies modulo the size of the area, while every system call does all
it is asked for. -/
namespace CircularLog

/-- How a transfer of `n` bytes at `off` is divided: up to the end of the area and from its start.
Neither subtraction goes below zero. -/
def ExactSplit (M off n : ℕ) : Prop :=
  ∃ endBytes startBytes, splitBytes M (off%M) (u64 (off%M+n)%M) n = (endBytes, startBytes) ∧
    endBytes+startBytes = n ∧
    (endBytes = n ∧ startBytes = 0 ∨
      off%M ≤ M ∧ endBytes = M-off%M ∧ endBytes ≤ n ∧ startBytes = n-endBytes)

/-- `n` bytes were copied from the area to the front of `ptr`, which became `buffer`. -/
def CopiedOut (M off n : ℕ) (data : ℕ → UInt8) (ptr buffer : Buffer) : Prop :=
  (∀ i < n, buffer i = data ((off+i)%M)) ∧ ∀ i, n ≤ i → buffer i = ptr i

/-- `n` bytes were copied from `ptr` to the area, and nothing else changed. -/
structure CopiedIn (M off n : ℕ) (ptr : Buffer) (f g : File) : Prop where
  stored : ∀ i < n, g.data ((off+i)%M) = ptr i
  others : ∀ p, (∀ i < n, p ≠ (off+i)%M) → g.data p = f.data p
  header : g.header = f.header
  length : g.length = f.length

/-- From `s` to `t` the process only made system calls, and every `write` stayed between the header
and the end of the area. -/
def OnlyTransfers (M : ℕ) (s t : State) : Prop :=
  ∃ new, t.steps = new ++ s.steps ∧ ∀ x ∈ new, x.event.IsTransfer M

section ModularCopy
variable {M n : ℕ} {s : State}

theorem Moved.onlyTransfers {t : State} {R : ℕ → Prop} (h : Moved M R s t) :
    OnlyTransfers M s t := by
  obtain ⟨new, hnew, hx⟩ := h.steps
  exact ⟨new, hnew, fun x hm => (hx x hm).1⟩

theorem splitBytes_exact (hM : M < 2^63) (off : ℕ) (h1 : 1 ≤ n) (hn : n ≤ M) :
    ExactSplit M off n := by
  have ho : off%M < M := Nat.mod_lt _ (by omega)
  rcases splitBytes_cases hM off h1 hn with ⟨_, hs⟩ | ⟨hge, hs⟩
  · exact ⟨n, 0, hs, Nat.add_zero n, Or.inl ⟨rfl, rfl⟩⟩
  · -- neither difference is negative
    exact ⟨M-off%M, n-(M-off%M), hs, by omega, Or.inr ⟨ho.le, rfl, by omega, rfl⟩⟩

theorem wrappingRead_copies (h : Usable M s) (hi : Ideal s) (off : ℕ) (ptr : Buffer) (h1 : 1 ≤ n)
    (hn : n ≤ M) :
    Sat (wrappingRead off ptr n) s (fun r t =>
      r.1 = true ∧ CopiedOut M off n s.file.data ptr r.2 ∧ t.file = s.file ∧
        Moved M (fun _ => False) s t) := by
  refine (wrappingRead_spec h off ptr h1 hn).mono ?_
  intro r t hspec
  obtain ⟨hm, hf, hread, hrest, hok⟩ := hspec
  exact ⟨hok hi, ⟨hread (hok hi), hrest⟩, hf, hm⟩

theorem wrappingWrite_copies (h : Writable M s) (hi : Ideal s) (off : ℕ) (ptr : Buffer)
    (h1 : 1 ≤ n) (hn : n ≤ M) :
    Sat (wrappingWrite off ptr n) s (fun ok t =>
      ok = true ∧ CopiedIn M off n ptr s.file t.file ∧ Moved M (Covers M off n) s t) := by
  refine (wrappingWrite_spec h off ptr h1 hn).mono ?_
  intro ok t hspec
  obtain ⟨hm, hwrite, hok⟩ := hspec
  refine ⟨hok hi, ⟨hwrite (hok hi), ?_, hm.file.header, hm.file.length⟩, hm⟩
  intro p hp
  apply hm.file.data
  rintro ⟨i, hin, hpi⟩
  exact hp i hin hpi

/-- What was copied in comes out again. -/
theorem CopiedIn.out {off : ℕ} {ptr ptr' buffer : Buffer} {f g : File}
    (h : CopiedIn M off n ptr f g) (hb : CopiedOut M off n g.data ptr' buffer) :
    contents buffer n = contents ptr n := by
  apply List.ext_getElem
  · simp only [contents_length]
  · intro i hi _
    have hin : i < n := by simpa using hi
    calc
      (contents buffer n)[i] = buffer i := contents_getElem _ _ _ _
      _ = g.data ((off+i)%M) := hb.1 i hin
      _ = ptr i := h.stored i hin
      _ = (contents ptr n)[i] := (contents_getElem _ _ _ _).symm

/-- A region that was written is read back, over the end of the area or not. -/
theorem write_read_back (h : Writable M s) (hi : Ideal s) (off : ℕ) (ptr ptr' : Buffer)
    (h1 : 1 ≤ n) (hn : n ≤ M) :
    Sat (do let _ ← wrappingWrite off ptr n; wrappingRead off ptr' n) s (fun r _ =>
      r.1 = true ∧ contents r.2 n = contents ptr n) := by
  apply (wrappingWrite_copies h hi off ptr h1 hn).bind
  intro ok t hspec
  obtain ⟨_, hin, hm⟩ := hspec
  -- the answers to come are still those of an ideal system
  refine (wrappingRead_copies (hm.usable h.usable) (hm.ideal hi) off ptr' h1 hn).mono ?_
  intro r u hspec
  obtain ⟨hok, hout, _, _⟩ := hspec
  exact ⟨hok, hin.out hout⟩

/-- The wrapping transfers are exact copies modulo the size of the area, wherever they begin. They
end, so neither the assertion nor anything else stops them. -/
theorem modular_copy (h : Usable M s) (hi : Ideal s) (off : ℕ) (ptr : Buffer) (h1 : 1 ≤ n)
    (hn : n ≤ M) :
    ExactSplit M off n ∧
      Sat (wrappingRead off ptr n) s (fun r t =>
        r.1 = true ∧ CopiedOut M off n s.file.data ptr r.2 ∧ t.file = s.file) ∧
      (s.self.fd = some .append → s.self.header = .readWrite →
        Sat (wrappingWrite off ptr n) s (fun ok t =>
          ok = true ∧ CopiedIn M off n ptr s.file t.file ∧ OnlyTransfers M s t)) := by
  have hb := h.bound
  refine ⟨splitBytes_exact (by omega) off h1 hn, ?_, ?_⟩
  · refine (wrappingRead_copies h hi off ptr h1 hn).mono ?_
    intro r t hspec
    exact ⟨hspec.1, hspec.2.1, hspec.2.2.1⟩
  · intro hfd hheader
    have hw : Writable M s := ⟨hfd, hheader, h.size, h.length, h.bound⟩
    refine (wrappingWrite_copies hw hi off ptr h1 hn).mono ?_
    intro ok t hspec
    exact ⟨hspec.1, hspec.2.1, hspec.2.2.onlyTransfers⟩

end ModularCopy

/-- A transfer that begins two laps ahead, at cell 7 of ten, and ends in cell 3. -/
theorem modular_copy_laps :
    ∃ s, create blank none (10+24) allDone = .opened s ∧ ExactSplit 10 27 7 ∧
      Sat (wrappingRead 27 (memory [1, 2, 3, 4, 5, 6, 7] uninitialized) 7) s (fun r t =>
        r.1 = true ∧
        CopiedOut 10 27 7 s.file.data (memory [1, 2, 3, 4, 5, 6, 7] uninitialized) r.2 ∧
          t.file = s.file) ∧
      Sat (wrappingWrite 27 (memory [1, 2, 3, 4, 5, 6, 7] uninitialized) 7) s (fun ok t =>
        ok = true ∧ CopiedIn 10 27 7 (memory [1, 2, 3, 4, 5, 6, 7] uninitialized) s.file t.file ∧
          OnlyTransfers 10 s t) := by
  have hs := create_allDone blank (show 0 < 10+24 by norm_num) (by norm_num)
  have hw : Writable 10 (createdState blank (10+24) allDone) :=
    createdState_writable blank allDone (by norm_num)
  obtain ⟨hsplit, hread, hwrite⟩ := modular_copy hw.usable (fun _ => rfl) 27
    (memory [1, 2, 3, 4, 5, 6, 7] uninitialized) (by norm_num) (by norm_num : 7 ≤ 10)
  exact ⟨_, hs, hsplit, hread, hwrite rfl rfl⟩

end CircularLog
