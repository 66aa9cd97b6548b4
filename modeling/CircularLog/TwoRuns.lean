import CircularLog.ProgramLogic

/-! Two runs side by side, of one program or of two. They return alike or stop on the same fault,
and what relates their states at the beginning relates them at the end. -/
namespace CircularLog

section TwoRuns
variable {ε σ τ α β γ δ : Type} {s : σ} {t : τ} {E : σ → τ → Prop}

/-- The runs of `x` from `s` and of `y` from `t` return, with results and states related by `Q`, or
stop on one and the same fault, in states related by `E`. -/
def Twin (x : EStateM ε σ α) (y : EStateM ε τ β) (s : σ) (t : τ) (Q : α → β → σ → τ → Prop)
    (E : σ → τ → Prop) : Prop :=
  (∀ a s', x s = .ok a s' → ∃ b t', y t = .ok b t' ∧ Q a b s' t') ∧
    ∀ e s', x s = .error e s' → ∃ t', y t = .error e t' ∧ E s' t'

/-- Two runs that are known to return. -/
theorem twin_of_ok {x : EStateM ε σ α} {y : EStateM ε τ β} {Q : α → β → σ → τ → Prop} {a : α}
    {b : β} {s' : σ} {t' : τ} (hx : x s = .ok a s') (hy : y t = .ok b t') :
    Twin x y s t Q E ↔ Q a b s' t' := by
  constructor
  · intro h
    obtain ⟨b', u, hu, hQ⟩ := h.1 a s' hx
    rw [hy] at hu
    cases hu
    exact hQ
  · intro hQ
    constructor
    · intro a' u hu
      rw [hx] at hu
      cases hu
      exact ⟨b, t', hy, hQ⟩
    · intro e u hu
      rw [hx] at hu
      cases hu

@[simp] theorem twin_pure {a : α} {b : β} {Q : α → β → σ → τ → Prop} :
    Twin (pure a : EStateM ε σ α) (pure b) s t Q E ↔ Q a b s t := twin_of_ok rfl rfl

theorem twin_throw {e : ε} {Q : α → β → σ → τ → Prop} (hE : E s t) :
    Twin (throw e : EStateM ε σ α) (throw e) s t Q E := by
  constructor
  · intro a s' ha
    cases ha
  · intro e' s' he
    cases he
    exact ⟨t, rfl, hE⟩

theorem Twin.mono {x : EStateM ε σ α} {y : EStateM ε τ β} {Q R : α → β → σ → τ → Prop}
    {F : σ → τ → Prop} (h : Twin x y s t Q E) (hQ : ∀ a b s' t', Q a b s' t' → R a b s' t')
    (hE : ∀ s' t', E s' t' → F s' t') : Twin x y s t R F := by
  constructor
  · intro a s' ha
    obtain ⟨b, t', hb, hq⟩ := h.1 a s' ha
    exact ⟨b, t', hb, hQ a b s' t' hq⟩
  · intro e s' he
    obtain ⟨t', ht, hq⟩ := h.2 e s' he
    exact ⟨t', ht, hE s' t' hq⟩

/-- The sequencing rule. -/
theorem Twin.bind {x : EStateM ε σ α} {y : EStateM ε τ β} {f : α → EStateM ε σ γ}
    {g : β → EStateM ε τ δ} {Q : γ → δ → σ → τ → Prop} {R : α → β → σ → τ → Prop}
    (h : Twin x y s t R E) (hf : ∀ a b s' t', R a b s' t' → Twin (f a) (g b) s' t' Q E) :
    Twin (x >>= f) (y >>= g) s t Q E := by
  unfold Twin
  rw [run_bind, run_bind]
  cases hx : x s with
  | ok a s' =>
    -- both first parts return, and the rests are run
    obtain ⟨b, t', hy, hR⟩ := h.1 a s' hx
    rw [hy]
    exact hf a b s' t' hR
  | error e s' =>
    -- neither rest is run
    obtain ⟨t', hy, hE⟩ := h.2 e s' hx
    rw [hy]
    constructor
    · intro c u hu
      cases hu
    · intro e' u hu
      cases hu
      exact ⟨t', rfl, hE⟩

/-- First parts that are known to return leave the rests to be compared. -/
theorem twin_of_run {x : EStateM ε σ α} {y : EStateM ε τ β} {f : α → EStateM ε σ γ}
    {g : β → EStateM ε τ δ} {Q : γ → δ → σ → τ → Prop} {s' : σ} {t' : τ} {a : α} {b : β}
    (hx : x s = .ok a s') (hy : y t = .ok b t') :
    Twin (x >>= f) (y >>= g) s t Q E ↔ Twin (f a) (g b) s' t' Q E := by
  unfold Twin
  rw [run_bind, run_bind, hx, hy]

/-- Two rests that are the same for the result at hand. -/
theorem bind_eq_of_run {x : EStateM ε σ α} {f g : α → EStateM ε σ β} {s' : σ} {a : α}
    (hx : x s = .ok a s') (h : f a = g a) : (x >>= f) s = (x >>= g) s := by
  rw [run_bind, run_bind, hx]
  dsimp only
  rw [h]

theorem bind_eq_of_eq {x y : EStateM ε σ α} {f : α → EStateM ε σ β} (h : x s = y s) :
    (x >>= f) s = (y >>= f) s := by
  rw [run_bind, run_bind, h]

theorem twin_get {f : σ → EStateM ε σ γ} {g : τ → EStateM ε τ δ} {Q : γ → δ → σ → τ → Prop} :
    Twin (get >>= f) (get >>= g) s t Q E ↔ Twin (f s) (g t) s t Q E :=
  twin_of_run (get_run s) (get_run t)

theorem twin_modify {f : σ → σ} {g : τ → τ} {Q : PUnit → PUnit → σ → τ → Prop} :
    Twin (modify f : EStateM ε σ PUnit) (modify g) s t Q E ↔ Q ⟨⟩ ⟨⟩ (f s) (g t) :=
  twin_of_ok rfl rfl

/-- An early return from both runs on a result that is false. -/
theorem twin_unless {ok : Bool} {a : α} {b : β} {x : EStateM ε σ α} {y : EStateM ε τ β}
    {Q : α → β → σ → τ → Prop} :
    Twin (if (!ok) = true then pure a else x) (if (!ok) = true then pure b else y) s t Q E ↔
      (ok = false → Q a b s t) ∧ (ok = true → Twin x y s t Q E) := by
  cases ok
  · simp
  · simp

/-- Another program that does the same from `t`. -/
theorem Twin.congr_right {x : EStateM ε σ α} {y z : EStateM ε τ β} {Q : α → β → σ → τ → Prop}
    (h : Twin x y s t Q E) (hz : z t = y t) : Twin x z s t Q E := by
  unfold Twin
  rw [hz]
  exact h

/-- What is known of the first run alone. When it returns, so does the second. -/
theorem Twin.and_left {x : EStateM ε σ α} {y : EStateM ε τ β} {Q : α → β → σ → τ → Prop}
    {A : α → σ → Prop} {F : σ → τ → Prop} (h : Twin x y s t Q E) (hx : Sat x s A) :
    Twin x y s t (fun a b s' t' => Q a b s' t' ∧ A a s') F := by
  constructor
  · intro a s' ha
    obtain ⟨b, t', hb, hQ⟩ := h.1 a s' ha
    exact ⟨b, t', hb, hQ, (sat_of_run ha).mp hx⟩
  · -- the first run does not stop
    intro e s' he
    exact absurd hx (Stops.not_sat ⟨s', he⟩)

/-- What the first run is known to do tells of the second. -/
theorem Twin.ends {x : EStateM ε σ α} {y : EStateM ε τ β} {Q : α → β → σ → τ → Prop}
    {A : α → σ → Prop} {B : ε → σ → Prop} (h : Twin x y s t Q E) (hx : Ends x s A B) :
    Ends y t (fun b t' => ∃ a s', Q a b s' t' ∧ A a s') (fun e t' => ∃ s', E s' t' ∧ B e s') := by
  cases hr : x s with
  | ok a s' =>
    obtain ⟨b, t', hb, hQ⟩ := h.1 a s' hr
    exact Sat.ends ⟨b, t', hb, a, s', hQ, hx.1 a s' hr⟩ _
  | error e s' =>
    obtain ⟨t', ht, hE⟩ := h.2 e s' hr
    constructor
    · intro b u hu
      rw [ht] at hu
      cases hu
    · intro e' u hu
      rw [ht] at hu
      cases hu
      exact ⟨s', hE, hx.2 e s' hr⟩

end TwoRuns

section InStep
variable {ε σ α β : Type} {R : σ → σ → Prop}

/-- Run from two states related by `R`, the program does the same in both runs, and leaves the
states related. Programs made of such programs are such programs. -/
def InStep (R : σ → σ → Prop) (x : EStateM ε σ α) : Prop :=
  ∀ s t, R s t → Twin x x s t (fun a b s' t' => b = a ∧ R s' t') R

theorem inStep_pure (a : α) : InStep R (pure a : EStateM ε σ α) :=
  fun _ _ h => twin_pure.mpr ⟨rfl, h⟩

theorem inStep_throw (e : ε) : InStep R (throw e : EStateM ε σ α) :=
  fun _ _ h => twin_throw h

theorem InStep.bind {x : EStateM ε σ α} {f : α → EStateM ε σ β} (hx : InStep R x)
    (hf : ∀ a, InStep R (f a)) : InStep R (x >>= f) := by
  intro s t h
  apply (hx s t h).bind
  intro a b s' t' hR
  obtain ⟨rfl, hR⟩ := hR
  exact hf _ s' t' hR

theorem InStep.ite {c : Prop} [Decidable c] {x y : EStateM ε σ α} (hx : InStep R x)
    (hy : InStep R y) : InStep R (if c then x else y) := by
  by_cases hc : c
  · rwa [if_pos hc]
  · rwa [if_neg hc]

/-- A look at the state does not tell the runs apart when only what the states share is used. -/
theorem inStep_get {f : σ → EStateM ε σ α}
    (hf : ∀ s t, R s t → f t = f s ∧ InStep R (f s)) : InStep R (get >>= f) := by
  intro s t h
  obtain ⟨heq, hs⟩ := hf s t h
  rw [twin_get, heq]
  exact hs s t h

theorem inStep_modifyGet {g : σ → α × σ}
    (hg : ∀ s t, R s t → (g t).1 = (g s).1 ∧ R (g s).2 (g t).2) :
    InStep R (modifyGet g : EStateM ε σ α) :=
  fun s t h => (twin_of_ok rfl rfl).mpr (hg s t h)

end InStep

end CircularLog
