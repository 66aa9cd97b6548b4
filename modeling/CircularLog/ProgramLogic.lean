import Mathlib.Tactic

/-! Total-correctness reasoning for programs that carry a state and may stop on a fault.
`Sat x s Q` rules the fault out, so a loop or an assertion is discharged where it stands. -/
namespace CircularLog

section ProgramLogic
variable {ε σ α β : Type}

/-- The run of `x` from `s` ends without a fault, in a result and a state satisfying `Q`. -/
def Sat (x : EStateM ε σ α) (s : σ) (Q : α → σ → Prop) : Prop :=
  ∃ a t, x s = .ok a t ∧ Q a t

/-- The result of a run, for evaluating one. -/
def resultOf (x : EStateM ε σ α) (s : σ) : Option α :=
  match x s with
  | .ok a _ => some a
  | .error _ _ => none

/-- Runs are deterministic, so the state and the result of a run are the ones at hand. -/
theorem sat_of_run {x : EStateM ε σ α} {s t : σ} {a : α} {Q : α → σ → Prop}
    (hx : x s = .ok a t) : Sat x s Q ↔ Q a t := by
  constructor
  · intro h
    obtain ⟨b, u, hr, hQ⟩ := h
    rw [hx] at hr
    cases hr
    exact hQ
  · intro hQ
    exact ⟨a, t, hx, hQ⟩

/-- A run whose result and state are known exactly. -/
theorem run_of_sat {x : EStateM ε σ α} {s t : σ} {a : α}
    (h : Sat x s (fun b u => b = a ∧ u = t)) : x s = .ok a t := by
  obtain ⟨b, u, hr, rfl, rfl⟩ := h
  exact hr

theorem Sat.mono {x : EStateM ε σ α} {s : σ} {Q R : α → σ → Prop}
    (hx : Sat x s Q) (h : ∀ a t, Q a t → R a t) : Sat x s R := by
  obtain ⟨a, t, hr, hQ⟩ := hx
  exact ⟨a, t, hr, h a t hQ⟩

theorem Sat.and {x : EStateM ε σ α} {s : σ} {Q R : α → σ → Prop} (hQ : Sat x s Q)
    (hR : Sat x s R) : Sat x s (fun a t => Q a t ∧ R a t) := by
  obtain ⟨a, t, hr, ha⟩ := hQ
  exact ⟨a, t, hr, ha, (sat_of_run hr).mp hR⟩

@[simp] theorem sat_pure {a : α} {s : σ} {Q : α → σ → Prop} :
    Sat (pure a : EStateM ε σ α) s Q ↔ Q a s := sat_of_run rfl

theorem get_run (s : σ) : (get : EStateM ε σ σ) s = .ok s s := rfl

@[simp] theorem sat_get {s : σ} {Q : σ → σ → Prop} :
    Sat (get : EStateM ε σ σ) s Q ↔ Q s s := sat_of_run (get_run s)

@[simp] theorem sat_modify {f : σ → σ} {s : σ} {Q : PUnit → σ → Prop} :
    Sat (modify f : EStateM ε σ PUnit) s Q ↔ Q ⟨⟩ (f s) := sat_of_run rfl

@[simp] theorem sat_modifyGet {f : σ → α × σ} {s : σ} {Q : α → σ → Prop} :
    Sat (modifyGet f : EStateM ε σ α) s Q ↔ Q (f s).1 (f s).2 := sat_of_run rfl

theorem run_bind (x : EStateM ε σ α) (f : α → EStateM ε σ β) (s : σ) :
    (x >>= f) s = match x s with
      | .ok a t => f a t
      | .error e t => .error e t := rfl

/-- The sequencing rule. -/
@[simp] theorem sat_bind {x : EStateM ε σ α} {f : α → EStateM ε σ β} {s : σ}
    {Q : β → σ → Prop} :
    Sat (x >>= f) s Q ↔ Sat x s (fun a t => Sat (f a) t Q) := by
  constructor
  · intro h
    obtain ⟨b, u, hr, hQ⟩ := h
    rw [run_bind] at hr
    -- a run that ends well went through an end of its first part
    cases hx : x s with
    | ok a t =>
      rw [hx] at hr
      exact ⟨a, t, hx, b, u, hr, hQ⟩
    | error e t =>
      rw [hx] at hr
      cases hr
  · intro h
    obtain ⟨a, t, hx, b, u, hr, hQ⟩ := h
    exact ⟨b, u, by rw [run_bind, hx]; exact hr, hQ⟩

theorem sat_ite {c : Prop} [Decidable c] {x y : EStateM ε σ α} {s : σ} {Q : α → σ → Prop} :
    Sat (if c then x else y) s Q ↔ (c → Sat x s Q) ∧ (¬c → Sat y s Q) := by
  by_cases hc : c
  · simp [hc]
  · simp [hc]

/-- An early return on a result that is false. -/
theorem sat_unless {ok : Bool} {a : α} {y : EStateM ε σ α} {s : σ} {Q : α → σ → Prop} :
    Sat (if (!ok) = true then pure a else y) s Q ↔
      (ok = false → Q a s) ∧ (ok = true → Sat y s Q) := by
  cases ok
  · simp
  · simp

theorem Sat.bind {x : EStateM ε σ α} {f : α → EStateM ε σ β} {s : σ} {Q : β → σ → Prop}
    {R : α → σ → Prop} (hx : Sat x s R) (hf : ∀ a t, R a t → Sat (f a) t Q) :
    Sat (x >>= f) s Q :=
  sat_bind.mpr (hx.mono hf)

/-- The run of `x` from `s` stops on the fault `e`. -/
def Stops (e : ε) (x : EStateM ε σ α) (s : σ) : Prop := ∃ t, x s = .error e t

theorem Stops.bind {e : ε} {x : EStateM ε σ α} {f : α → EStateM ε σ β} {s : σ} (hx : Stops e x s) :
    Stops e (x >>= f) s := by
  obtain ⟨t, ht⟩ := hx
  exact ⟨t, by rw [run_bind, ht]⟩

/-- A fault behind a first part that ends well. -/
theorem stops_of_run {e : ε} {x : EStateM ε σ α} {f : α → EStateM ε σ β} {s t : σ} {a : α}
    (hx : x s = .ok a t) : Stops e (x >>= f) s ↔ Stops e (f a) t := by
  unfold Stops
  rw [run_bind, hx]

theorem Sat.stops {e : ε} {x : EStateM ε σ α} {f : α → EStateM ε σ β} {s : σ} {R : α → σ → Prop}
    (hx : Sat x s R) (hf : ∀ a t, R a t → Stops e (f a) t) : Stops e (x >>= f) s := by
  obtain ⟨a, t, hr, hR⟩ := hx
  exact (stops_of_run hr).mpr (hf a t hR)

/-- A run that stops does not end well. -/
theorem Stops.not_sat {e : ε} {x : EStateM ε σ α} {s : σ} {Q : α → σ → Prop} (hx : Stops e x s) :
    ¬Sat x s Q := by
  intro h
  obtain ⟨t, ht⟩ := hx
  obtain ⟨a, u, hr, _⟩ := h
  rw [ht] at hr
  cases hr

/-- As `Sat`, except that the run may stop on the fault `e`. -/
def SatOr (e : ε) (x : EStateM ε σ α) (s : σ) (Q : α → σ → Prop) : Prop :=
  (∃ t, x s = .error e t) ∨ Sat x s Q

theorem Sat.or {x : EStateM ε σ α} {s : σ} {Q : α → σ → Prop} (h : Sat x s Q) (e : ε) :
    SatOr e x s Q := Or.inr h

theorem SatOr.mono {e : ε} {x : EStateM ε σ α} {s : σ} {Q R : α → σ → Prop} (hx : SatOr e x s Q)
    (h : ∀ a t, Q a t → R a t) : SatOr e x s R := by
  rcases hx with hstop | hrun
  · exact Or.inl hstop
  · exact Or.inr (hrun.mono h)

theorem SatOr.bind {e : ε} {x : EStateM ε σ α} {f : α → EStateM ε σ β} {s : σ} {Q : β → σ → Prop}
    {R : α → σ → Prop} (hx : SatOr e x s R) (hf : ∀ a t, R a t → SatOr e (f a) t Q) :
    SatOr e (x >>= f) s Q := by
  rcases hx with hstop | hrun
  · -- the rest is not run
    obtain ⟨t, ht⟩ := hstop
    exact Or.inl ⟨t, by rw [run_bind, ht]⟩
  · obtain ⟨a, t, ht, hR⟩ := hrun
    rcases hf a t hR with hstop | hrest
    · obtain ⟨u, hu⟩ := hstop
      exact Or.inl ⟨u, by rw [run_bind, ht]; exact hu⟩
    · exact Or.inr (sat_bind.mpr ((sat_of_run ht).mpr hrest))

theorem satOr_map {e : ε} {x : EStateM ε σ α} {g : α → β} {s : σ} {Q : β → σ → Prop} :
    SatOr e (x >>= fun a => pure (g a)) s Q ↔ SatOr e x s (fun a t => Q (g a) t) := by
  unfold SatOr
  rw [sat_bind, run_bind]
  simp only [sat_pure]
  cases hx : x s with
  | ok a t => simp [pure, EStateM.pure]
  | error d t => simp

/-- Two runs that are the same end in the same way. -/
theorem satOr_congr {e : ε} {x y : EStateM ε σ α} {s t : σ} {Q : α → σ → Prop} (h : x s = y t) :
    SatOr e x s Q ↔ SatOr e y t Q := by
  unfold SatOr Sat
  rw [h]

theorem stops_map {e : ε} {x : EStateM ε σ α} {g : α → β} {s : σ} :
    Stops e (x >>= fun a => pure (g a)) s ↔ Stops e x s := by
  unfold Stops
  rw [run_bind]
  cases x s with
  | ok a t => simp [pure, EStateM.pure]
  | error d t => simp

theorem Stops.not_satOr {e d : ε} {x : EStateM ε σ α} {s : σ} {Q : α → σ → Prop}
    (hx : Stops e x s) (hne : e ≠ d) : ¬SatOr d x s Q := by
  intro h
  rcases h with hstop | hrun
  · obtain ⟨t, ht⟩ := hx
    obtain ⟨u, hu⟩ := hstop
    rw [ht] at hu
    cases hu
    exact hne rfl
  · exact hx.not_sat hrun

/-- However the run of `x` from `s` ends: in a result and a state satisfying `Q`, or on a fault and
in a state satisfying `E`. -/
def Ends (x : EStateM ε σ α) (s : σ) (Q : α → σ → Prop) (E : ε → σ → Prop) : Prop :=
  (∀ a t, x s = .ok a t → Q a t) ∧ ∀ e t, x s = .error e t → E e t

theorem Sat.ends {x : EStateM ε σ α} {s : σ} {Q : α → σ → Prop} (hx : Sat x s Q)
    (E : ε → σ → Prop) : Ends x s Q E := by
  constructor
  · intro a t ha
    exact (sat_of_run ha).mp hx
  · intro e t he
    exact absurd hx (Stops.not_sat ⟨t, he⟩)

@[simp] theorem ends_pure {a : α} {s : σ} {Q : α → σ → Prop} {E : ε → σ → Prop} :
    Ends (pure a : EStateM ε σ α) s Q E ↔ Q a s := by
  simp [Ends, pure, EStateM.pure]

@[simp] theorem ends_throw {e : ε} {s : σ} {Q : α → σ → Prop} {E : ε → σ → Prop} :
    Ends (throw e : EStateM ε σ α) s Q E ↔ E e s := by
  have hrun : (throw e : EStateM ε σ α) s = .error e s := rfl
  simp [Ends, hrun]

theorem ends_ite {c : Prop} [Decidable c] {x y : EStateM ε σ α} {s : σ} {Q : α → σ → Prop}
    {E : ε → σ → Prop} :
    Ends (if c then x else y) s Q E ↔ (c → Ends x s Q E) ∧ (¬c → Ends y s Q E) := by
  by_cases hc : c
  · simp [hc]
  · simp [hc]

theorem Ends.bind {x : EStateM ε σ α} {f : α → EStateM ε σ β} {s : σ} {Q : β → σ → Prop}
    {R : α → σ → Prop} {E : ε → σ → Prop} (hx : Ends x s R E)
    (hf : ∀ a t, R a t → Ends (f a) t Q E) : Ends (x >>= f) s Q E := by
  obtain ⟨hok, herror⟩ := hx
  cases hr : x s with
  | ok a t =>
    have hrest := hf a t (hok a t hr)
    unfold Ends
    rw [run_bind, hr]
    exact hrest
  | error d t =>
    -- the rest is not run
    have hE := herror d t hr
    constructor
    · intro b u hb
      rw [run_bind, hr] at hb
      cases hb
    · intro e u he
      rw [run_bind, hr] at he
      cases he
      exact hE

/-- What is known to end well leaves the rest to be looked at. -/
theorem ends_of_run {x : EStateM ε σ α} {f : α → EStateM ε σ β} {s t : σ} {a : α}
    {Q : β → σ → Prop} {E : ε → σ → Prop} (hx : x s = .ok a t) :
    Ends (x >>= f) s Q E ↔ Ends (f a) t Q E := by
  unfold Ends
  rw [run_bind, hx]

@[simp] theorem ends_throw_bind {e : ε} {f : α → EStateM ε σ β} {s : σ} {Q : β → σ → Prop}
    {E : ε → σ → Prop} : Ends (throw e >>= f) s Q E ↔ E e s := by
  have hrun : (throw e >>= f) s = .error e s := rfl
  simp [Ends, hrun]

theorem Sat.ends_bind {x : EStateM ε σ α} {f : α → EStateM ε σ β} {s : σ} {Q : β → σ → Prop}
    {R : α → σ → Prop} {E : ε → σ → Prop} (hx : Sat x s R)
    (hf : ∀ a t, R a t → Ends (f a) t Q E) : Ends (x >>= f) s Q E :=
  (hx.ends E).bind hf

/-- A result that is thrown away. -/
theorem Ends.discard {x : EStateM ε σ α} {s : σ} {Q : σ → Prop} {E : ε → σ → Prop}
    (hx : Ends x s (fun _ t => Q t) E) :
    Ends (x >>= fun _ => pure ()) s (fun _ t => Q t) E :=
  hx.bind (fun _ _ hq => ends_pure.mpr hq)

theorem Ends.mono {x : EStateM ε σ α} {s : σ} {Q R : α → σ → Prop} {E F : ε → σ → Prop}
    (hx : Ends x s Q E) (hQ : ∀ a t, Q a t → R a t) (hE : ∀ e t, E e t → F e t) :
    Ends x s R F :=
  ⟨fun a t ha => hQ a t (hx.1 a t ha), fun e t he => hE e t (hx.2 e t he)⟩

theorem Ends.and {x : EStateM ε σ α} {s : σ} {Q R : α → σ → Prop} {E F : ε → σ → Prop}
    (hx : Ends x s Q E) (hy : Ends x s R F) :
    Ends x s (fun a t => Q a t ∧ R a t) (fun e t => E e t ∧ F e t) :=
  ⟨fun a t ha => ⟨hx.1 a t ha, hy.1 a t ha⟩, fun e t he => ⟨hx.2 e t he, hy.2 e t he⟩⟩

theorem Ends.of_stops {e : ε} {x : EStateM ε σ α} {s : σ} {Q : α → σ → Prop} {E : ε → σ → Prop}
    (hx : Ends x s Q E) (hs : Stops e x s) : ∃ t, E e t := by
  obtain ⟨t, ht⟩ := hs
  exact ⟨t, hx.2 e t ht⟩

/-- Run from a state with `I`, the program ends in one again or stops on a fault with `P`. Programs
made of such programs are such programs. -/
def Preserves (I : σ → Prop) (P : ε → Prop) (x : EStateM ε σ α) : Prop :=
  ∀ s, I s → Ends x s (fun _ t => I t) (fun e _ => P e)

theorem preserves_pure {I : σ → Prop} {P : ε → Prop} (a : α) :
    Preserves I P (pure a : EStateM ε σ α) :=
  fun _ hs => ends_pure.mpr hs

theorem preserves_throw {I : σ → Prop} {P : ε → Prop} {e : ε} (he : P e) :
    Preserves I P (throw e : EStateM ε σ α) :=
  fun _ _ => ends_throw.mpr he

theorem Preserves.bind {I : σ → Prop} {P : ε → Prop} {x : EStateM ε σ α} {f : α → EStateM ε σ β}
    (hx : Preserves I P x) (hf : ∀ a, Preserves I P (f a)) : Preserves I P (x >>= f) :=
  fun s hs => (hx s hs).bind (fun a t ht => hf a t ht)

theorem Preserves.ite {I : σ → Prop} {P : ε → Prop} {c : Prop} [Decidable c]
    {x y : EStateM ε σ α} (hx : Preserves I P x) (hy : Preserves I P y) :
    Preserves I P (if c then x else y) := by
  by_cases hc : c
  · rwa [if_pos hc]
  · rwa [if_neg hc]

/-- What is done after a look at the state may rest on what is known of it. -/
theorem preserves_get {I : σ → Prop} {P : ε → Prop} {f : σ → EStateM ε σ α}
    (hf : ∀ s, I s → Preserves I P (f s)) : Preserves I P (get >>= f) := by
  intro s hs
  rw [ends_of_run (get_run s)]
  exact hf s hs s hs

theorem preserves_modifyGet {I : σ → Prop} {P : ε → Prop} {g : σ → α × σ}
    (hg : ∀ s, I s → I (g s).2) : Preserves I P (modifyGet g : EStateM ε σ α) :=
  fun s hs => (sat_modifyGet.mpr (hg s hs)).ends _

/-- Run from a state with `I`, the program ends in one again, whether it returns or stops. -/
def Maintains (I : σ → Prop) (x : EStateM ε σ α) : Prop :=
  ∀ s, I s → Ends x s (fun _ t => I t) (fun _ t => I t)

theorem maintains_pure {I : σ → Prop} (a : α) : Maintains I (pure a : EStateM ε σ α) :=
  fun _ hs => ends_pure.mpr hs

theorem maintains_throw {I : σ → Prop} (e : ε) : Maintains I (throw e : EStateM ε σ α) :=
  fun _ hs => ends_throw.mpr hs

theorem Maintains.bind {I : σ → Prop} {x : EStateM ε σ α} {f : α → EStateM ε σ β}
    (hx : Maintains I x) (hf : ∀ a, Maintains I (f a)) : Maintains I (x >>= f) :=
  fun s hs => (hx s hs).bind (fun a t ht => hf a t ht)

theorem Maintains.ite {I : σ → Prop} {c : Prop} [Decidable c] {x y : EStateM ε σ α}
    (hx : Maintains I x) (hy : Maintains I y) : Maintains I (if c then x else y) := by
  by_cases hc : c
  · rwa [if_pos hc]
  · rwa [if_neg hc]

theorem maintains_get {I : σ → Prop} {f : σ → EStateM ε σ α}
    (hf : ∀ s, I s → Maintains I (f s)) : Maintains I (get >>= f) := by
  intro s hs
  rw [ends_of_run (get_run s)]
  exact hf s hs s hs

theorem maintains_modifyGet {I : σ → Prop} {g : σ → α × σ} (hg : ∀ s, I s → I (g s).2) :
    Maintains I (modifyGet g : EStateM ε σ α) :=
  fun s hs => (sat_modifyGet.mpr (hg s hs)).ends _

theorem resultOf_eq_some {x : EStateM ε σ α} {s : σ} {a : α} :
    resultOf x s = some a ↔ ∃ t, x s = .ok a t := by
  unfold resultOf
  cases hx : x s with
  | ok b t => simp
  | error e t => simp

theorem resultOf_of_run {x : EStateM ε σ α} {f : α → EStateM ε σ β} {s t : σ} {a : α}
    (hx : x s = .ok a t) : resultOf (x >>= f) s = resultOf (f a) t := by
  unfold resultOf
  rw [run_bind, hx]

end ProgramLogic

end CircularLog
