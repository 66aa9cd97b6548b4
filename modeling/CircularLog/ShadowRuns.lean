import CircularLog.TwoRuns
import CircularLog.ManyProcesses

/-! Two processes on files that differ in the header only, told the same by the system. What they do
to the data is the same as long as they do not look at the header, and both transfers take an offset
for the same that is the same up to whole areas. -/
namespace CircularLog

def File.withHeader (f : File) (h : Header) : File := { f with header := h }

/-- The second process sees the header `h'` where the first sees `h`, and the running offset of its
session is `k` ahead. The files they leave after corresponding steps are related by `S`. -/
structure Alike (S : File → File → Prop) (h h' : Header) (k : ℕ) (s t : State) : Prop where
  header : s.file.header = h
  file : t.file = s.file.withHeader h'
  self : t.self = { s.self with streamingWriteOffset := s.self.streamingWriteOffset+k }
  position : t.position = s.position
  outcomes : t.outcomes = s.outcomes
  steps : List.Forall₂ (fun x y => S x.file y.file) s.steps t.steps

section ShadowRuns
variable {S : File → File → Prop} {h h' : Header} {k : ℕ} {s t : State}

theorem Alike.called (hR : Alike S h h' k s t) (event : Event) {f : File} (hf : f.header = h)
    (hS : S f (f.withHeader h')) (position : ℕ) :
    Alike S h h' k (s.called event f position) (t.called event (f.withHeader h') position) := by
  refine ⟨hf, rfl, hR.self, rfl, ?_, .cons hS hR.steps⟩
  dsimp only [State.called]
  rw [hR.outcomes]

theorem Alike.stored (hR : Alike S h h' k s t) (event : Event) (g g' : Header)
    (hS : S (s.file.withHeader g) (s.file.withHeader g')) :
    Alike S g g' k (s.assigned event (s.file.withHeader g))
      (t.assigned event (t.file.withHeader g')) := by
  have hfile : t.file.withHeader g' = s.file.withHeader g' := by rw [hR.file]; rfl
  refine ⟨rfl, ?_, hR.self, hR.position, hR.outcomes, .cons ?_ hR.steps⟩
  · rw [hfile]
    rfl
  · rw [hfile]
    exact hS

/-- Files under the two headers are related. -/
def Pairs (S : File → File → Prop) (h h' : Header) : Prop :=
  ∀ f : File, f.header = h → S f (f.withHeader h')

theorem bytesMax_inStep : InStep (Alike S h h' k) bytesMax := by
  apply inStep_get
  intro s t hR
  refine ⟨?_, inStep_pure _⟩
  rw [hR.self]
  rfl

theorem modulo_inStep (a b : ℕ) : InStep (Alike S h h' k) (modulo a b) :=
  (inStep_throw _).ite (inStep_pure _)

theorem assert_inStep (c : Prop) [Decidable c] : InStep (Alike S h h' k) (assert c) :=
  (inStep_pure _).ite (inStep_throw _)

theorem reached_inStep {α : Type} (x : Option α) : InStep (Alike S h h' k) (reached x) := by
  cases x with
  | none => exact inStep_throw _
  | some a => exact inStep_pure a

variable (hS : Pairs S h h')
include hS

theorem lseek_inStep (position : ℕ) : InStep (Alike S h h' k) (lseek position) := by
  apply inStep_modifyGet
  intro s t hR
  have hfd : t.self.fd = s.self.fd := by rw [hR.self]
  have hcalled (p : ℕ) : Alike S h h' k (s.called .lseek s.file p) (t.called .lseek t.file p) := by
    rw [hR.file]
    exact hR.called _ hR.header (hS _ hR.header) p
  -- the descriptor, the answer and the position are the same for both
  dsimp only
  rw [hfd, hR.outcomes, hR.position]
  split
  · exact ⟨rfl, hcalled _⟩
  · exact ⟨rfl, hcalled _⟩
  · split_ifs
    · exact ⟨rfl, hcalled _⟩
    · exact ⟨rfl, hcalled _⟩

theorem sysRead_inStep (ptr : Buffer) (at_ count : ℕ) :
    InStep (Alike S h h' k) (sysRead ptr at_ count) := by
  apply inStep_modifyGet
  intro s t hR
  have hfd : t.self.fd = s.self.fd := by rw [hR.self]
  have hlength : t.file.length = s.file.length := by rw [hR.file]; rfl
  have hdata : t.file.data = s.file.data := by rw [hR.file]; rfl
  have hcalled (p : ℕ) : Alike S h h' k (s.called .read s.file p) (t.called .read t.file p) := by
    rw [hR.file]
    exact hR.called _ hR.header (hS _ hR.header) p
  -- what is read comes out of the data, which the files share
  dsimp only
  rw [hfd, hR.outcomes, hR.position, hlength, hdata]
  split
  · exact ⟨rfl, hcalled _⟩
  · exact ⟨rfl, hcalled _⟩
  · exact ⟨rfl, hcalled _⟩

theorem sysWrite_inStep (ptr : Buffer) (at_ count : ℕ) :
    InStep (Alike S h h' k) (sysWrite ptr at_ count) := by
  apply inStep_modifyGet
  intro s t hR
  have hfd : t.self.fd = s.self.fd := by rw [hR.self]
  have hcalled (event : Event) (f : File) (hf : f.header = s.file.header) (p : ℕ) :
      Alike S h h' k (s.called event f p) (t.called event (f.withHeader h') p) := by
    have hf' := hf.trans hR.header
    exact hR.called _ hf' (hS _ hf') p
  rw [hfd, hR.outcomes, hR.position, hR.file]
  split
  · split_ifs
    · exact ⟨rfl, hcalled _ _ rfl _⟩
    · -- the bytes go to the data area
      exact ⟨rfl, hcalled _ (s.file.store s.position _ _) rfl _⟩
  · exact ⟨rfl, hcalled _ _ rfl _⟩

theorem seekToOffset_inStep (offset : ℕ) : InStep (Alike S h h' k) (seekToOffset offset) := by
  apply bytesMax_inStep.bind
  intro m
  apply (assert_inStep _).bind
  intro _
  apply bytesMax_inStep.bind
  intro m'
  apply (modulo_inStep _ _).bind
  intro position
  apply (lseek_inStep hS _).bind
  intro r
  cases r with
  | none => exact inStep_pure _
  | some errno =>
    -- only `error_` is assigned
    refine InStep.bind (inStep_modifyGet ?_) (fun _ => inStep_pure _)
    intro s t hR
    refine ⟨rfl, hR.header, hR.file, ?_, hR.position, hR.outcomes, hR.steps⟩
    dsimp only
    rw [hR.self]

theorem readPart_inStep (offset : ℕ) (ptr : Buffer) (at_ count : ℕ) :
    InStep (Alike S h h' k) (readPart offset ptr at_ count) := by
  apply (inStep_pure _).ite
  apply (seekToOffset_inStep hS offset).bind
  intro ok
  apply (inStep_pure _).ite
  exact (sysRead_inStep hS _ _ _).bind (fun _ => inStep_pure _)

theorem writePart_inStep (offset : ℕ) (ptr : Buffer) (at_ count : ℕ) :
    InStep (Alike S h h' k) (writePart offset ptr at_ count) := by
  apply (inStep_pure _).ite
  apply (seekToOffset_inStep hS offset).bind
  intro ok
  apply (inStep_pure _).ite
  exact (sysWrite_inStep hS _ _ _).bind (fun _ => inStep_pure _)

omit hS in
/-- What both wrapping transfers begin with. -/
theorem reducedOffsets_inStep {α : Type} (offset n : ℕ) {f : ℕ → ℕ → ℕ → Op α}
    (hf : ∀ first end_ m, InStep (Alike S h h' k) (f first end_ m)) :
    InStep (Alike S h h' k) (do
      let offset ← modulo offset (← bytesMax)
      let endOffset ← modulo (u64 (offset+n)) (← bytesMax)
      f offset endOffset (← bytesMax)) := by
  apply bytesMax_inStep.bind
  intro m
  apply (modulo_inStep _ _).bind
  intro first
  apply bytesMax_inStep.bind
  intro m'
  apply (modulo_inStep _ _).bind
  intro end_
  exact bytesMax_inStep.bind (fun m'' => hf first end_ m'')

theorem wrappingRead_inStep (offset : ℕ) (ptr : Buffer) (n : ℕ) :
    InStep (Alike S h h' k) (wrappingRead offset ptr n) := by
  apply reducedOffsets_inStep
  intro first end_ m
  apply (readPart_inStep hS _ _ _ _).bind
  intro v
  apply (inStep_pure _).ite
  exact readPart_inStep hS _ _ _ _

theorem wrappingWrite_inStep (offset : ℕ) (ptr : Buffer) (n : ℕ) :
    InStep (Alike S h h' k) (wrappingWrite offset ptr n) := by
  apply reducedOffsets_inStep
  intro first end_ m
  apply (writePart_inStep hS _ _ _ _).bind
  intro ok
  apply (inStep_pure _).ite
  exact writePart_inStep hS _ _ _ _

theorem readVarint_inStep (offset : ℕ) : InStep (Alike S h h' k) (readVarint offset) := by
  apply (wrappingRead_inStep hS offset _ _).bind
  intro v
  apply (inStep_pure _).ite
  exact (reached_inStep _).bind (fun _ => inStep_pure _)

end ShadowRuns

end CircularLog
