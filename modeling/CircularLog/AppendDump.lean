import CircularLog.Command
import CircularLog.Histories

/-! Appending lines to a new ring with the tool and dumping them again. A blank line becomes a
transfer of no bytes, which succeeds in one place only. -/
namespace CircularLog

/-- The ring holds `L` from its first cell on and zeros behind. -/
structure Appended (M : ℕ) (s : State) (L : List Text) : Prop where
  ready : Ready M s L
  start : s.file.header.startOffset = 0
  zeros : ∀ p, used L ≤ p → s.file.data p = 0

/-- Each line can be written and read where it comes to stand, the first at `offset`. -/
def AllReadable (M offset : ℕ) (lines : List Text) : Prop :=
  ∀ A line B, lines = A ++ line :: B → Readable M (offset+used A) line

section AppendDump
variable {M : ℕ} {s : State} {L lines : List Text} {line : Text}

theorem allReadable_cons {offset : ℕ} :
    AllReadable M offset (line :: lines) ↔
      Readable M offset line ∧ AllReadable M (offset+frameSize line) lines := by
  constructor
  · intro h
    refine ⟨?_, ?_⟩
    · have hfirst := h [] line lines rfl
      rwa [used_nil, Nat.add_zero] at hfirst
    · intro A l B hlines
      have hl := h (line :: A) l B (by rw [hlines]; rfl)
      rwa [used_cons, ← Nat.add_assoc] at hl
  · intro h A l B hlines
    obtain ⟨hfirst, hrest⟩ := h
    -- the line in question is the first one or a later one
    cases A with
    | nil =>
      cases hlines
      rwa [used_nil, Nat.add_zero]
    | cons a A =>
      cases hlines
      rw [used_cons, ← Nat.add_assoc]
      exact hrest A l B rfl

theorem Appended.end_eq (h : Appended M s L) : s.file.header.endOffset = used L := by
  rw [h.ready.layout.end_eq, h.start, Nat.zero_add]
  exact Nat.mod_eq_of_lt h.ready.layout.fits

theorem afterWrite_of_room (hfit : used L+frameSize line < M) :
    afterWrite M L line = L ++ [line] := by
  -- nothing has to be evicted, and a free byte remains
  have hkeep : keep frameSize (M-frameSize line) L = L := by
    apply keep_of_le
    change used L ≤ _
    omega
  rw [afterWrite, hkeep, if_neg (by omega)]

theorem Appended.writeLine (h : Appended M s L) (hM : 10 ≤ M) (hne : line ≠ [])
    (hfit : used L+frameSize line < M) (behind : Buffer) :
    Sat (write (memory (line ++ [0]) behind) line.length) s (fun ok t =>
      ok = true ∧ Appended M t (L ++ [line])) := by
  have hb := h.ready.writable.bound
  have hsize : frameSize line = Varint.size line.length+line.length := rfl
  have hend := h.end_eq
  rw [memory_append]
  refine (write_ready h.ready hM _ hne (by omega)).mono ?_
  intro ok t hspec
  obtain ⟨hbig | @⟨_, P, K, _, hPK, hK, hc, ht⟩, _⟩ := hspec
  · omega
  rw [afterWrite_of_room hfit] at ht
  -- nothing was popped
  have hkeep : K = L := by
    rw [hK]
    apply keep_of_le
    change used L ≤ _
    omega
  subst hkeep
  have hP : P = [] := by simpa using hPK
  subst hP
  refine ⟨rfl, ht, ?_, ?_⟩
  · rw [hc.file.header]
    dsimp only
    rw [h.start, used_nil]
    exact Nat.zero_mod M
  · intro p hp
    rw [used_append, used_cons, used_nil, Nat.add_zero] at hp
    rw [hc.file.outside p]
    · exact h.zeros p (by omega)
    · intro h
      -- the frame lies below what is used now
      obtain ⟨i, hi, rfl⟩ := h
      rw [frame_length] at hi
      rw [hend, Nat.mod_eq_of_lt (by omega)] at hp
      omega

theorem Appended.writeBlank (h : Appended M s L) (hM : 10 ≤ M) (hfit : used L+1 < M)
    (behind : Buffer) :
    Sat (write (memory ([] ++ [0]) behind) 0) s (fun ok t =>
      ok = decide (used L+2 = M) ∧ (ok = true → Appended M t (L ++ [[]]))) := by
  refine (write_empty h.ready hM _).mono ?_
  intro ok t hwrite
  obtain ⟨hok, hdone⟩ := hwrite
  rw [h.end_eq] at hok
  refine ⟨hok, fun hyes => ?_⟩
  obtain ⟨ht, _, hheader, _, hlast, hdata⟩ := hdone hyes
  have hplace : used L+2 = M := of_decide_eq_true (hok.symm.trans hyes)
  rw [afterWrite_of_room (by rw [frameSize_empty]; omega)] at ht
  refine ⟨ht, ?_, ?_⟩
  · rw [hheader]
    exact h.start
  · intro p hp
    rw [used_append, used_cons, used_nil, frameSize_empty] at hp
    by_cases hcell : p+1 = M
    · -- the stray byte is the zero that ends the string
      obtain rfl : p = M-1 := by omega
      rw [hlast]
      rfl
    · rw [hdata p (by omega) hcell]
      exact h.zeros p (by omega)

/-- The loop of `Command::Write` succeeds exactly when each line can be written where it comes to
stand. -/
theorem writeLines_spec (hM : 10 ≤ M) (lines : List Text) (behind : ℕ → Buffer)
    (h : Appended M s L) (hfit : used L+used lines < M) :
    Sat (writeLines behind lines) s (fun ok t => (ok = true ↔ AllReadable M (used L) lines) ∧
      (ok = true → Appended M t (L ++ lines))) := by
  -- on the lines, each written behind what is there already
  induction lines generalizing s L with
  | nil =>
    rw [writeLines, sat_pure, List.append_nil]
    exact ⟨iff_of_true rfl (by intro A l B hAB; simp at hAB), fun _ => h⟩
  | cons line lines ih =>
    rw [used_cons] at hfit
    rw [allReadable_cons]
    have hrest {t : State} (ht : Appended M t (L ++ [line])) :
        Sat (writeLines behind lines) t (fun ok u =>
          (ok = true ↔ AllReadable M (used L+frameSize line) lines) ∧
          (ok = true → Appended M u (L ++ line :: lines))) := by
      have hused : used (L ++ [line]) = used L+frameSize line := by
        rw [used_append, used_cons, used_nil, Nat.add_zero]
      have hspec := ih ht (by omega)
      rw [hused, List.append_assoc, List.singleton_append] at hspec
      exact hspec
    rw [writeLines]
    by_cases hne : line = []
    · subst hne
      rw [frameSize_empty] at hfit
      apply (h.writeBlank hM (by omega) _).bind
      intro ok t hblank
      obtain ⟨hok, hdone⟩ := hblank
      rw [sat_unless]
      constructor
      · -- the blank line fails, and the loop with it
        intro hno
        have hplace : used L+2 ≠ M := of_decide_eq_false (hok.symm.trans hno)
        refine ⟨iff_of_false (by simp) ?_, by simp⟩
        intro hall
        exact hplace (hall.1.resolve_left (fun hnil => hnil rfl))
      · intro hyes
        have hplace : used L+2 = M := of_decide_eq_true (hok.symm.trans hyes)
        refine (hrest (hdone hyes)).mono ?_
        intro ok' u hu
        exact ⟨hu.1.trans (and_iff_right (Or.inr hplace)).symm, hu.2⟩
    · apply (h.writeLine hM hne (by omega) _).bind
      intro ok t hline
      obtain ⟨hok, ht⟩ := hline
      rw [sat_unless]
      refine ⟨fun hno => absurd hok (ne_true_of_eq_false hno), fun _ => ?_⟩
      refine (hrest ht).mono ?_
      intro ok' u hu
      exact ⟨hu.1.trans (and_iff_right (Or.inl hne)).symm, hu.2⟩

/-- The path names nothing yet and the size is given, or it names a ring just created. -/
def Fresh (M : ℕ) (c : Command) (disk : Option File) : Prop :=
  (disk = none ∧ c.size = M+24) ∨
    ∃ junk s, create (Ringfile.construct junk) none (M+24) allDone = .opened s ∧ disk = some s.file

theorem write_starts (strerror : Option ℕ → Text) (hM : 10 ≤ M) (hsize : M+24 < 2^63)
    {c : Command} {disk : Option File} (hdisk : Fresh M c disk) (junk : Ringfile)
    (behind : ℕ → Buffer) :
    ∃ s, Appended M s [] ∧
      c.write strerror junk disk allDone behind = c.append strerror behind s := by
  rcases hdisk with ⟨hnone, hc⟩ | ⟨junk', s', hs', hsome⟩
  · -- `Open` finds no file, and `Create` makes one
    subst hnone
    have hcount : (c.size%2^64).toNat = M+24 := by
      rw [hc]
      omega
    have hclosed : ({ junk.construct with fd := none, error := some eNoEnt } :
        Ringfile).streamingWriteOffset = 0 := rfl
    obtain ⟨s, hs, hready, hstart, hzero⟩ := create_fresh hclosed (show 0 < M by omega) hsize
    refine ⟨s, ⟨hready, hstart, fun p _ => hzero p⟩, ?_⟩
    rw [← hcount] at hs
    exact Command.write_create strerror behind rfl rfl (by rw [hc]; omega) hs
  · -- `Open` finds the ring as `Create` left it
    subst hsome
    obtain ⟨s₀, hs₀, hready₀, hstart, hzero⟩ := create_ready (M := M) junk' (by omega) hsize
    rw [hs'] at hs₀
    cases hs₀
    obtain ⟨s, hs, hf, hready⟩ := (hready₀.wellFormed (by simp)).open_ready junk
    refine ⟨s, ⟨hready, ?_, ?_⟩, ?_⟩
    · rw [hf]
      exact hstart
    · intro p _
      rw [hf]
      exact hzero p
    · rw [Command.write, hs]

theorem Appended.dump (strerror : Option ℕ → Text) {stringMaxSize : ℕ}
    (hstring : ∀ r ∈ L, r.length ≤ stringMaxSize) (h : Appended M s L) (hM : 10 ≤ M)
    (hall : AllReadable M 0 L) (c : Command) (junk : Ringfile) {turns : ℕ}
    (hturns : L.length < turns) :
    c.read strerror stringMaxSize junk (some s.file) allDone turns =
      .returned true { c with stdout := c.stdout ++ printed L } (some s.file) := by
  have hfits := h.ready.layout.fits
  obtain ⟨t, ht, hf, hi, hu, hoff, _⟩ := h.ready.layout.open_unread h.ready.writable.length
    h.ready.writable.bound h.ready.magic junk
  -- the records begin at offset zero, so no offset is reduced
  have hreadable : ∀ A r B, L = A ++ r :: B → Readable M ((t.self.readOffset+used A)%M) r := by
    intro A r B hL
    have hA := hall A r B hL
    rw [hL, used_append] at hfits
    rw [hoff, h.start, Nat.zero_add, Nat.mod_eq_of_lt (by omega)]
    rwa [Nat.zero_add] at hA
  obtain ⟨v, u, hrun, hv, hl⟩ := readLoop_spec hstring hM hu hi hreadable turns hturns
  subst hv
  rw [Command.read, ht]
  dsimp only
  rw [hrun]
  dsimp only
  rw [if_pos rfl, hl.file, hf]

end AppendDump

/-- `Command::Write` takes all the lines, a following `Command::Read` prints them, the file keeps
its length, and the cells behind the frames still hold the zeros of a new file. -/
def Reproduced (M : ℕ) (strerror : Option ℕ → Text) (stringMaxSize : ℕ) (c c' : Command)
    (junk junk' : Ringfile) (disk : Option File) (behind : ℕ → Buffer) (lines : List Text) : Prop :=
  ∃ f, c.write strerror junk disk allDone behind = .returned true c (some f) ∧
    (∀ turns, lines.length < turns → c'.read strerror stringMaxSize junk' (some f) allDone turns =
      .returned true { c' with stdout := c'.stdout ++ printed lines } (some f)) ∧
    f.length = M+24 ∧ ∀ p, used lines ≤ p → f.data p = 0

/-- Appending lines to a new ring and dumping it reproduces them if and only if no line is blank,
except that a blank line may take the last cell but one. The lines are strings in the memory of the
tool, so none is longer than a string can be. -/
theorem append_dump_iff {M : ℕ} (hM : 10 ≤ M) (hsize : M+24 < 2^63)
    (strerror : Option ℕ → Text) {stringMaxSize : ℕ} {c : Command} {disk : Option File}
    (hdisk : Fresh M c disk) {lines : List Text} (hstdin : c.stdin = printed lines)
    (hlines : ∀ line ∈ lines, newline ∉ line)
    (hstring : ∀ line ∈ lines, line.length ≤ stringMaxSize) (hfit : used lines ≤ M-1) (c' : Command)
    (junk junk' : Ringfile) (behind : ℕ → Buffer) :
    Reproduced M strerror stringMaxSize c c' junk junk' disk behind lines ↔
      ∀ A line B, lines = A ++ line :: B → line ≠ [] ∨ used A+2 = M := by
  obtain ⟨s, hs, hwrite⟩ := write_starts strerror hM hsize hdisk junk behind
  obtain ⟨ok, t, hrun, hok, hdone⟩ := writeLines_spec hM lines behind hs
    (show used []+used lines < M by rw [used_nil]; omega)
  rw [used_nil] at hok
  have hall : AllReadable M 0 lines ↔
      ∀ A line B, lines = A ++ line :: B → line ≠ [] ∨ used A+2 = M := by
    simp only [AllReadable, Readable, Nat.zero_add]
  have happend : c.append strerror behind s = if ok then .returned true c (some t.file)
      else .returned false (c.complain (text ": writing: " ++ strerror t.self.error))
        (some t.file) := by
    rw [Command.append, hstdin, getLines_printed lines hlines, hrun]
    cases ok with
    | true => rfl
    | false => rfl
  rw [← hall, ← hok, Reproduced, hwrite, happend]
  constructor
  · intro hrep
    -- a command that gave up has not returned true
    obtain ⟨f, hf, _⟩ := hrep
    cases ok with
    | true => rfl
    | false => cases hf
  · intro hyes
    have ht := hdone hyes
    rw [List.nil_append] at ht
    rw [if_pos hyes]
    refine ⟨t.file, rfl, ?_, ht.ready.writable.length, ht.zeros⟩
    intro turns hturns
    exact ht.dump strerror hstring hM (hok.mp hyes) c' junk' hturns

theorem append_dump_two_lines :
    Reproduced 26 (fun _ => []) (2^62-1) ⟨[], 50, printed [[72], [73]], [], []⟩
        ⟨[], -1, [], [], []⟩ blank blank none (fun _ => uninitialized) [[72], [73]] ↔
      ∀ A line B, [[72], [73]] = A ++ line :: B → line ≠ [] ∨ used A+2 = 26 := by
  have hdisk : Fresh 26 ⟨[], 50, printed [[72], [73]], [], []⟩ none := Or.inl ⟨rfl, rfl⟩
  exact append_dump_iff (by norm_num) (by norm_num) _ hdisk rfl (by decide) (by simp) (by decide) _
    blank blank _

/-- Three lines, the second one blank, on a new ring with plenty of room: the tool gives up at the
blank line. -/
theorem blank_line_fails :
    used [[72], [], [73]] ≤ 26-1 ∧
      (Command.write (fun _ => []) ⟨[], 50, printed [[72], [], [73]], [], []⟩ blank none allDone
        (fun _ => uninitialized)).ok = some false := by
  decide +kernel

end CircularLog
