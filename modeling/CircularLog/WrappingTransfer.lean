import CircularLog.CircularArea
import CircularLog.RingfileOps

/-! What a seek and the two wrapping transfers can do to the file, whatever the system answers. A
transfer that fails leaves its region in an unknown state and everything else alone. -/
namespace CircularLog

/-- An open handle on a file with a data area of `M` bytes. -/
structure Usable (M : ℕ) (s : State) : Prop where
  fd : s.self.fd ≠ none
  header : s.self.header ≠ .null
  size : s.self.size = M+24
  length : s.file.length = M+24
  bound : M+24 < 2^63

/-- A handle opened for appending, or by `Create`. -/
structure Writable (M : ℕ) (s : State) : Prop where
  fd : s.self.fd = some .append
  header : s.self.header = .readWrite
  size : s.self.size = M+24
  length : s.file.length = M+24
  bound : M+24 < 2^63

theorem Writable.usable {M : ℕ} {s : State} (h : Writable M s) : Usable M s :=
  ⟨by simp [h.fd], by simp [h.header], h.size, h.length, h.bound⟩

theorem Usable.congr {M : ℕ} {s t : State} (h : Usable M s) (hfd : t.self.fd = s.self.fd)
    (hheader : t.self.header = s.self.header) (hsize : t.self.size = s.self.size)
    (hlen : t.file.length = s.file.length) : Usable M t :=
  ⟨fun hn => h.fd (hfd.symm.trans hn), fun hn => h.header (hheader.symm.trans hn),
    hsize.trans h.size, hlen.trans h.length, h.bound⟩

theorem Writable.congr {M : ℕ} {s t : State} (h : Writable M s) (hfd : t.self.fd = s.self.fd)
    (hheader : t.self.header = s.self.header) (hsize : t.self.size = s.self.size)
    (hlen : t.file.length = s.file.length) : Writable M t :=
  ⟨hfd.trans h.fd, hheader.trans h.header, hsize.trans h.size, hlen.trans h.length, h.bound⟩

theorem Writable.of_self {M : ℕ} {s t : State} (h : Writable M s)
    (hself : t.self = { s.self with error := t.self.error })
    (hlen : t.file.length = s.file.length) : Writable M t := by
  apply h.congr _ _ _ hlen
  all_goals rw [hself]

/-- Every call to come does all it is asked for. -/
def Ideal (s : State) : Prop := ∀ i, s.outcomes i = .done

/-- `g` differs from `f` in the data cells of `R` only. -/
structure File.Within (R : ℕ → Prop) (f g : File) : Prop where
  header : g.header = f.header
  length : g.length = f.length
  data : ∀ p, ¬R p → g.data p = f.data p

theorem File.Within.refl (R : ℕ → Prop) (f : File) : f.Within R f := ⟨rfl, rfl, fun _ _ => rfl⟩

theorem File.Within.trans {R : ℕ → Prop} {f g h : File} (hfg : f.Within R g) (hgh : g.Within R h) :
    f.Within R h :=
  ⟨hgh.header.trans hfg.header, hgh.length.trans hfg.length,
    fun p hp => (hgh.data p hp).trans (hfg.data p hp)⟩

theorem File.Within.mono {R S : ℕ → Prop} {f g : File} (h : f.Within R g) (hRS : ∀ p, R p → S p) :
    f.Within S g :=
  ⟨h.header, h.length, fun p hp => h.data p (fun hr => hp (hRS p hr))⟩

/-- A system call, and if a `write` one inside the data area. -/
def Event.IsTransfer (M : ℕ) : Event → Prop
  | .lseek | .read => True
  | .write position n => 24 ≤ position ∧ position+n ≤ M+24
  | .advance | .reduce => False

/-- From `s` to `t` only system calls were made, and they changed data cells of `R` only. -/
structure Moved (M : ℕ) (R : ℕ → Prop) (s t : State) : Prop where
  self : t.self = { s.self with error := t.self.error }
  file : s.file.Within R t.file
  steps : ∃ new, t.steps = new ++ s.steps ∧
    ∀ x ∈ new, x.event.IsTransfer M ∧ s.file.Within R x.file
  ideal : Ideal s → Ideal t

theorem Moved.refl (M : ℕ) (R : ℕ → Prop) (s : State) : Moved M R s s :=
  ⟨rfl, .refl R s.file, ⟨[], rfl, by simp⟩, id⟩

theorem Moved.trans {M : ℕ} {R : ℕ → Prop} {s t u : State} (hst : Moved M R s t)
    (htu : Moved M R t u) : Moved M R s u := by
  obtain ⟨new, hnew, hx⟩ := hst.steps
  obtain ⟨new', hnew', hx'⟩ := htu.steps
  refine ⟨?_, hst.file.trans htu.file, ⟨new' ++ new, ?_, ?_⟩, fun h => htu.ideal (hst.ideal h)⟩
  · rw [htu.self, hst.self]
  · rw [hnew', hnew, List.append_assoc]
  · intro x hm
    rcases List.mem_append.mp hm with hm | hm
    · exact ⟨(hx' x hm).1, hst.file.trans (hx' x hm).2⟩
    · exact hx x hm

theorem Moved.mono {M : ℕ} {R S : ℕ → Prop} {s t : State} (h : Moved M R s t)
    (hRS : ∀ p, R p → S p) : Moved M S s t := by
  obtain ⟨new, hnew, hx⟩ := h.steps
  exact ⟨h.self, h.file.mono hRS, ⟨new, hnew, fun x hm => ⟨(hx x hm).1, (hx x hm).2.mono hRS⟩⟩,
    h.ideal⟩

theorem Moved.usable {M : ℕ} {R : ℕ → Prop} {s t : State} (h : Moved M R s t) (hs : Usable M s) :
    Usable M t := by
  apply hs.congr _ _ _ h.file.length
  all_goals rw [h.self]

theorem Moved.writable {M : ℕ} {R : ℕ → Prop} {s t : State} (h : Moved M R s t)
    (hs : Writable M s) : Writable M t := hs.of_self h.self h.file.length

theorem moved_called {M : ℕ} {R : ℕ → Prop} {s : State} {event : Event} {file : File}
    (he : event.IsTransfer M) (hf : s.file.Within R file) (position : ℕ) :
    Moved M R s (s.called event file position) := by
  refine ⟨rfl, hf, ⟨[⟨event, file⟩], rfl, ?_⟩, fun h i => h (i+1)⟩
  intro x hx
  rw [List.mem_singleton.mp hx]
  exact ⟨he, hf⟩

theorem Usable.bytesMax_eq {M : ℕ} {s : State} (h : Usable M s) : s.self.bytesMax = M := by
  have hb := h.bound
  rw [Ringfile.bytesMax, h.size, headerSize, sub64_of_le (by omega) (by omega)]
  omega

theorem sat_bytesMax {M : ℕ} {s : State} {Q : ℕ → State → Prop} (h : Usable M s) :
    Sat bytesMax s Q ↔ Q M s := by
  simp only [bytesMax, sat_bind, sat_get, sat_pure, h.bytesMax_eq]

theorem sat_modulo {a b : ℕ} {s : State} {Q : ℕ → State → Prop} (hb : 0 < b) :
    Sat (modulo a b) s Q ↔ Q (a%b) s := by
  rw [modulo, if_neg (by omega), sat_pure]

theorem sat_assert {c : Prop} [Decidable c] {s : State} {Q : Unit → State → Prop} (hc : c) :
    Sat (assert c) s Q ↔ Q () s := by
  rw [assert, if_pos hc, sat_pure]

theorem sat_reached {α : Type} {x : Option α} {a : α} {s : State} {Q : α → State → Prop}
    (hx : x = some a) : Sat (reached x) s Q ↔ Q a s := by
  subst hx
  exact sat_pure

theorem lseek_spec {M : ℕ} {s : State} (h : Usable M s) {position : ℕ} (hp : position < 2^63) :
    Sat (lseek position) s (fun r t => Moved M (fun _ => False) s t ∧ t.file = s.file ∧
      (r = none → t.position = position) ∧ (Ideal s → r = none)) := by
  have hm (position : ℕ) : Moved M (fun _ => False) s (s.called .lseek s.file position) :=
    moved_called (show Event.IsTransfer M .lseek from trivial) (.refl _ _) position
  rw [lseek, sat_modifyGet]
  cases hfd : s.self.fd with
  | none => exact False.elim (h.fd hfd)
  | some mode =>
    cases ho : s.outcomes 0 with
    | fail errno => exact ⟨hm _, rfl, by simp, fun hi => by simp [hi 0] at ho⟩
    | done =>
      dsimp only
      rw [if_neg (by omega)]
      exact ⟨hm _, rfl, fun _ => rfl, fun _ => rfl⟩
    -- there is no such thing as a short seek
    | short n =>
      dsimp only
      rw [if_neg (by omega)]
      exact ⟨hm _, rfl, fun _ => rfl, fun _ => rfl⟩

theorem seekToOffset_spec {M : ℕ} {s : State} (h : Usable M s) {offset : ℕ} (ho : offset < M) :
    Sat (seekToOffset offset) s (fun ok t => Moved M (fun _ => False) s t ∧ t.file = s.file ∧
      (ok = true → t.position = 24+offset) ∧ (Ideal s → ok = true)) := by
  have hb := h.bound
  have hpos : u64 (headerSize+offset%M) = 24+offset := by
    rw [Nat.mod_eq_of_lt ho, headerSize, u64_of_lt (by omega)]
  unfold seekToOffset
  rw [sat_bind, sat_bytesMax h, sat_bind, sat_assert ho, sat_bind, sat_bytesMax h, sat_bind,
    sat_modulo (by omega), hpos]
  apply (lseek_spec h (by omega)).bind
  intro r t hspec
  obtain ⟨hm, hf, hr, hi⟩ := hspec
  cases r with
  | none =>
    rw [sat_pure]
    exact ⟨hm, hf, fun _ => hr rfl, fun _ => rfl⟩
  | some errno =>
    -- the failure is recorded in `error_`, the one field a transfer changes
    rw [sat_bind, sat_modify, sat_pure]
    refine ⟨⟨?_, hm.file, hm.steps, hm.ideal⟩, hf, by simp, fun hd => by simpa using hi hd⟩
    rw [hm.self]

/-- What `read` stores, when it transfers all `count` bytes. -/
theorem sysRead_spec {M : ℕ} {s : State} (h : Usable M s) {ptr : Buffer} {at_ count offset : ℕ}
    (hp : s.position = 24+offset) (hc : offset+count ≤ M) :
    Sat (sysRead ptr at_ count) s (fun r t => Moved M (fun _ => False) s t ∧ t.file = s.file ∧
      (r.1 = count → ∀ i < count, r.2 (at_+i) = s.file.data (offset+i)) ∧
      (∀ i, ¬(at_ ≤ i ∧ i < at_+count) → r.2 i = ptr i) ∧ (Ideal s → r.1 = count)) := by
  have hb := h.bound
  have hm (position : ℕ) : Moved M (fun _ => False) s (s.called .read s.file position) :=
    moved_called (show Event.IsTransfer M .read from trivial) (.refl _ _) position
  rw [sysRead, sat_modifyGet]
  cases hfd : s.self.fd with
  | none => exact False.elim (h.fd hfd)
  | some mode =>
    cases ht : (s.outcomes 0).transferred count with
    | none =>
      -- -1 is no count inside the area
      refine ⟨hm _, rfl, ?_, fun _ _ => rfl, ?_⟩
      · intro hr
        dsimp only [minusOne] at hr
        omega
      · intro hi
        rw [hi 0, Outcome.transferred, if_neg (by omega)] at ht
        cases ht
    | some n =>
      have hn : n ≤ count := by
        unfold Outcome.transferred at ht
        split at ht
        · cases ht
        · cases ho : s.outcomes 0 <;> simp [ho] at ht <;> omega
      refine ⟨hm _, rfl, ?_, ?_, ?_⟩
      · intro hr i hi
        dsimp only at hr ⊢
        rw [if_pos (by omega), hp, headerSize]
        congr 1
        omega
      · intro i hi
        dsimp only
        rw [if_neg (by omega)]
      · intro hi
        rw [hi 0, Outcome.transferred, if_neg (by omega)] at ht
        cases ht
        dsimp only
        rw [h.length, hp]
        omega

theorem readPart_spec {M : ℕ} {s : State} (h : Usable M s) {offset : ℕ} (ho : offset < M)
    (ptr : Buffer) (at_ : ℕ) {count : ℕ} (hc : offset+count ≤ M) :
    Sat (readPart offset ptr at_ count) s (fun r t => Moved M (fun _ => False) s t ∧
      t.file = s.file ∧ (r.1 = true → ∀ i < count, r.2 (at_+i) = s.file.data (offset+i)) ∧
      (∀ i, ¬(at_ ≤ i ∧ i < at_+count) → r.2 i = ptr i) ∧ (Ideal s → r.1 = true)) := by
  unfold readPart
  rw [sat_ite]
  constructor
  · intro hz
    subst hz
    rw [sat_pure]
    exact ⟨.refl _ _ _, rfl, by simp, fun _ _ => rfl, fun _ => rfl⟩
  · intro _
    apply (seekToOffset_spec h ho).bind
    intro ok t hspec
    obtain ⟨hm, hf, hpos, hi⟩ := hspec
    rw [sat_unless]
    constructor
    · intro hok
      exact ⟨hm, hf, by simp, fun _ _ => rfl, fun hd => absurd (hi hd) (ne_true_of_eq_false hok)⟩
    · intro hok
      apply (sysRead_spec (hm.usable h) (hpos hok) hc).bind
      intro v u hspec
      obtain ⟨n, buffer⟩ := v
      obtain ⟨hm', hf', hread, hrest, hi'⟩ := hspec
      rw [sat_pure]
      refine ⟨hm.trans hm', hf'.trans hf, ?_, hrest, ?_⟩
      · intro hn i hlt
        rw [← hf]
        exact hread (by simpa using hn) i hlt
      · intro hd
        simpa using hi' (hm.ideal hd)

/-- The one comparison tells a region that ends inside the area from one that reaches its end. -/
theorem splitBytes_cases {M : ℕ} (hM : M < 2^63) (off : ℕ) {n : ℕ} (h1 : 1 ≤ n) (hn : n ≤ M) :
    (off%M+n < M ∧ splitBytes M (off%M) (u64 (off%M+n)%M) n = (n, 0)) ∨
      (M ≤ off%M+n ∧ splitBytes M (off%M) (u64 (off%M+n)%M) n = (M-off%M, n-(M-off%M))) := by
  have ho : off%M < M := Nat.mod_lt _ (by omega)
  rw [u64_of_lt (by omega), splitBytes]
  rcases add_mod_cases ho hn with ⟨hlt, he⟩ | ⟨hge, he⟩
  · -- the end offset is behind the offset
    refine Or.inl ⟨hlt, ?_⟩
    rw [he, if_pos (by omega)]
  · -- it has passed the end of the area, also when it is the offset itself
    refine Or.inr ⟨hge, ?_⟩
    rw [he, if_neg (by omega), sub64_of_le (by omega) ho.le, sub64_of_le (by omega) (by omega)]

/-- The two parts of a transfer cover the cells of its region in order, and each of them stays
inside the area. -/
theorem splitBytes_spec {M : ℕ} (hM : M < 2^63) (off : ℕ) {n : ℕ} (h1 : 1 ≤ n) (hn : n ≤ M) :
    ∃ e b, splitBytes M (off%M) (u64 (off%M+n)%M) n = (e, b) ∧ e+b = n ∧ off%M+e ≤ M ∧ b ≤ off%M ∧
      (∀ i < e, (off+i)%M = off%M+i) ∧ (∀ j < b, (off+(e+j))%M = j) := by
  have ho : off%M < M := Nat.mod_lt _ (by omega)
  have hmod (i : ℕ) : (off+i)%M = (off%M+i)%M := by rw [Nat.mod_add_mod]
  rcases splitBytes_cases hM off h1 hn with ⟨hlt, hs⟩ | ⟨hge, hs⟩
  · -- the region ends before the end of the area
    refine ⟨n, 0, hs, by omega, by omega, by omega, ?_, by omega⟩
    intro i hi
    rw [hmod, Nat.mod_eq_of_lt (by omega)]
  · -- it runs up to the end and goes on at the start, with no byte perhaps
    refine ⟨M-off%M, n-(M-off%M), hs, by omega, by omega, by omega, ?_, ?_⟩
    · intro i hi
      rw [hmod, Nat.mod_eq_of_lt (by omega)]
    · intro j hj
      rw [hmod, show off%M+(M-off%M+j) = j+M by omega, Nat.add_mod_right,
        Nat.mod_eq_of_lt (by omega)]

theorem wrappingRead_spec {M : ℕ} {s : State} (h : Usable M s) (off : ℕ) (ptr : Buffer) {n : ℕ}
    (h1 : 1 ≤ n) (hn : n ≤ M) :
    Sat (wrappingRead off ptr n) s (fun r t => Moved M (fun _ => False) s t ∧ t.file = s.file ∧
      (r.1 = true → ∀ i < n, r.2 i = s.file.data ((off+i)%M)) ∧
      (∀ i, n ≤ i → r.2 i = ptr i) ∧ (Ideal s → r.1 = true)) := by
  have hb := h.bound
  obtain ⟨e, b, hs, hsum, he, hbM, hend, hstart⟩ := splitBytes_spec (by omega) off h1 hn
  unfold wrappingRead
  simp only [sat_bind, sat_bytesMax h, sat_modulo (show 0 < M by omega), hs]
  refine (readPart_spec h (Nat.mod_lt _ (by omega)) ptr 0 he).mono ?_
  intro v t hspec
  obtain ⟨ok, buffer⟩ := v
  obtain ⟨hm, hf, hread, hrest, hi⟩ := hspec
  rw [sat_unless]
  constructor
  · intro hok
    exact ⟨hm, hf, by simp, fun i hni => hrest i (by omega),
      fun hd => absurd (hi hd) (ne_true_of_eq_false hok)⟩
  · intro hok
    refine (readPart_spec (hm.usable h) (by omega) buffer e (by omega : 0+b ≤ M)).mono ?_
    intro v u hspec
    obtain ⟨ok', buffer'⟩ := v
    obtain ⟨hm', hf', hread', hrest', hi'⟩ := hspec
    refine ⟨hm.trans hm', hf'.trans hf, ?_, ?_, fun hd => hi' (hm.ideal hd)⟩
    · intro hok' i hlt
      by_cases hie : i < e
      · -- the second part does not touch the front of the buffer
        rw [hrest' i (by omega), hend i hie]
        simpa using hread hok i hie
      · have hj := hread' hok' (i-e) (by omega)
        rw [hf, Nat.zero_add, show e+(i-e) = i by omega] at hj
        rw [hj, show off+i = off+(e+(i-e)) by omega, hstart _ (by omega)]
    · intro i hni
      rw [hrest' i (by omega)]
      exact hrest i (by omega)

theorem covers_part {M off n k offset count p : ℕ} (hk : k+count ≤ n)
    (hcell : ∀ i < count, (off+(k+i))%M = offset+i) (hp : offset ≤ p ∧ p < offset+count) :
    Covers M off n p :=
  ⟨k+(p-offset), by omega, by rw [hcell _ (by omega)]; omega⟩

/-- What `write` stores: a prefix of what it is asked to, and all of it when it says so. -/
theorem sysWrite_spec {M : ℕ} {s : State} (h : Writable M s) {ptr : Buffer} {at_ count offset : ℕ}
    (hp : s.position = 24+offset) (hc : offset+count ≤ M) :
    Sat (sysWrite ptr at_ count) s (fun r t =>
      Moved M (fun p => offset ≤ p ∧ p < offset+count) s t ∧
      (r = count → ∀ i < count, t.file.data (offset+i) = ptr (at_+i)) ∧ (Ideal s → r = count)) := by
  have hb := h.bound
  have hfail : Moved M (fun p => offset ≤ p ∧ p < offset+count) s
      (s.called (.write s.position 0) s.file s.position) := by
    refine moved_called ?_ (.refl _ _) _
    exact ⟨by omega, by omega⟩
  rw [sysWrite, sat_modifyGet, h.fd]
  cases ht : (s.outcomes 0).transferred count with
  | none =>
    refine ⟨hfail, ?_, ?_⟩
    · intro hr
      dsimp only [minusOne] at hr
      omega
    · intro hi
      rw [hi 0, Outcome.transferred, if_neg (by omega)] at ht
      cases ht
  | some n =>
    have hn : n ≤ count := by
      unfold Outcome.transferred at ht
      split at ht
      · cases ht
      · cases ho : s.outcomes 0 <;> simp [ho] at ht <;> omega
    -- a prefix of the region is stored, and the file does not grow
    have hstore : s.file.Within (fun p => offset ≤ p ∧ p < offset+count)
        (s.file.store s.position (fun i => ptr (at_+i)) n) := by
      refine ⟨rfl, ?_, ?_⟩
      · have hl := h.length
        dsimp only [File.store]
        split_ifs <;> omega
      · intro p hpr
        exact if_neg (by unfold headerSize; omega)
    dsimp only
    rw [if_neg (by omega)]
    refine ⟨moved_called ?_ hstore _, ?_, ?_⟩
    · exact ⟨by omega, by omega⟩
    · intro hr i hi
      dsimp only at hr
      dsimp only [State.called, File.store]
      rw [if_pos (by unfold headerSize; omega)]
      congr 1
      unfold headerSize
      omega
    · intro hi
      rw [hi 0, Outcome.transferred, if_neg (by omega)] at ht
      cases ht
      rfl

theorem writePart_spec {M : ℕ} {s : State} (h : Writable M s) {offset : ℕ} (ho : offset < M)
    (ptr : Buffer) (at_ : ℕ) {count : ℕ} (hc : offset+count ≤ M) :
    Sat (writePart offset ptr at_ count) s (fun ok t =>
      Moved M (fun p => offset ≤ p ∧ p < offset+count) s t ∧
      (ok = true → ∀ i < count, t.file.data (offset+i) = ptr (at_+i)) ∧ (Ideal s → ok = true)) := by
  unfold writePart
  rw [sat_ite]
  constructor
  · intro hz
    subst hz
    rw [sat_pure]
    exact ⟨.refl _ _ _, by simp, fun _ => rfl⟩
  · intro _
    apply (seekToOffset_spec h.usable ho).bind
    intro ok t hspec
    obtain ⟨hm, _, hpos, hi⟩ := hspec
    have hm := hm.mono (S := fun p => offset ≤ p ∧ p < offset+count) (by simp)
    rw [sat_unless]
    constructor
    · intro hok
      exact ⟨hm, by simp, fun hd => absurd (hi hd) (ne_true_of_eq_false hok)⟩
    · intro hok
      apply (sysWrite_spec (hm.writable h) (hpos hok) hc).bind
      intro n u hspec
      obtain ⟨hm', hwrite, hi'⟩ := hspec
      rw [sat_pure]
      refine ⟨hm.trans hm', ?_, ?_⟩
      · intro hn
        exact hwrite (by simpa using hn)
      · intro hd
        simpa using hi' (hm.ideal hd)

theorem wrappingWrite_spec {M : ℕ} {s : State} (h : Writable M s) (off : ℕ) (ptr : Buffer) {n : ℕ}
    (h1 : 1 ≤ n) (hn : n ≤ M) :
    Sat (wrappingWrite off ptr n) s (fun ok t => Moved M (Covers M off n) s t ∧
      (ok = true → ∀ i < n, t.file.data ((off+i)%M) = ptr i) ∧ (Ideal s → ok = true)) := by
  have hb := h.bound
  obtain ⟨e, b, hs, hsum, he, hbM, hend, hstart⟩ := splitBytes_spec (by omega) off h1 hn
  unfold wrappingWrite
  simp only [sat_bind, sat_bytesMax h.usable, sat_modulo (show 0 < M by omega), hs]
  refine (writePart_spec h (Nat.mod_lt _ (by omega)) ptr 0 he).mono ?_
  intro ok t hspec
  obtain ⟨hm, hwrite, hi⟩ := hspec
  have hm := hm.mono (S := Covers M off n)
    (fun p hp => covers_part (k := 0) (by omega) (by simpa using hend) hp)
  rw [sat_unless]
  constructor
  · intro hok
    exact ⟨hm, by simp, fun hd => absurd (hi hd) (ne_true_of_eq_false hok)⟩
  · intro hok
    refine (writePart_spec (hm.writable h) (by omega) ptr e (by omega : 0+b ≤ M)).mono ?_
    intro ok' u hspec
    obtain ⟨hm', hwrite', hi'⟩ := hspec
    have hm'' := hm'.mono (S := Covers M off n)
      (fun p hp => covers_part (k := e) (by omega) (by simpa using hstart) hp)
    refine ⟨hm.trans hm'', ?_, fun hd => hi' (hm.ideal hd)⟩
    intro hok' i hlt
    by_cases hie : i < e
    · -- the second part ends before the first one starts
      rw [hend i hie, hm'.file.data _ (by omega)]
      simpa using hwrite hok i hie
    · have hj := hwrite' hok' (i-e) (by omega)
      rw [Nat.zero_add, show e+(i-e) = i by omega] at hj
      rw [show off+i = off+(e+(i-e)) by omega, hstart _ (by omega)]
      exact hj

end CircularLog
