import Mathlib.Tactic

/-! Machines that answer every input. One machine simulates another if related states give the same
answers and stay related. -/
namespace CircularLog

section Transducer
variable {ι ω σ τ : Type*} {step : σ → ι → ω × σ} {step' : τ → ι → ω × τ} {R : σ → τ → Prop}

/-- Feed inputs to a machine: its answers, and its last state. -/
def feed (step : σ → ι → ω × σ) : σ → List ι → List ω × σ
  | s, [] => ([], s)
  | s, i :: is =>
    let fed := feed step (step s i).2 is
    ((step s i).1 :: fed.1, fed.2)

/-- Each input meets a condition on the state that it comes to. -/
def Along (P : τ → ι → Prop) (step : τ → ι → ω × τ) : τ → List ι → Prop
  | _, [] => True
  | t, i :: is => P t i ∧ Along P step (step t i).2 is

theorem along_of_forall {P : ι → Prop} {is : List ι} (h : ∀ i ∈ is, P i) (t : τ) :
    Along (fun _ => P) step' t is := by
  induction is generalizing t with
  | nil => trivial
  | cons i is ih =>
    exact ⟨h i List.mem_cons_self, ih (fun j hj => h j (List.mem_cons_of_mem i hj)) _⟩

/-- Related states answer alike an input that meets the condition, and go to related states. -/
def Simulates (R : σ → τ → Prop) (P : τ → ι → Prop) (step : σ → ι → ω × σ)
    (step' : τ → ι → ω × τ) : Prop :=
  ∀ s t i, R s t → P t i → (step s i).1 = (step' t i).1 ∧ R (step s i).2 (step' t i).2

theorem Simulates.feed {P : τ → ι → Prop} (h : Simulates R P step step') {s : σ} {t : τ}
    (hst : R s t) {is : List ι} (his : Along P step' t is) :
    (feed step s is).1 = (feed step' t is).1 ∧ R (feed step s is).2 (feed step' t is).2 := by
  -- on the inputs, from any two related states
  induction is generalizing s t with
  | nil => exact ⟨rfl, hst⟩
  | cons i is ih =>
    obtain ⟨hi, hrest⟩ := his
    obtain ⟨hanswer, hnext⟩ := h s t i hst hi
    obtain ⟨hanswers, hlast⟩ := ih hnext hrest
    exact ⟨congrArg₂ List.cons hanswer hanswers, hlast⟩

/-- Two families that are related entry by entry, changed in one place. -/
theorem rel_update {κ : Type*} [DecidableEq κ] {files : κ → σ} {logs : κ → τ}
    (h : ∀ k, R (files k) (logs k)) {k : κ} {f : σ} {l : τ} (hk : R f l) (j : κ) :
    R (Function.update files k f j) (Function.update logs k l j) := by
  by_cases hj : j = k
  · subst hj
    rwa [Function.update_self, Function.update_self]
  · rw [Function.update_of_ne hj, Function.update_of_ne hj]
    exact h j

theorem rel_update_left {κ : Type*} [DecidableEq κ] {files : κ → σ} {logs : κ → τ}
    (h : ∀ k, R (files k) (logs k)) {k : κ} {f : σ} (hk : R f (logs k)) (j : κ) :
    R (Function.update files k f j) (logs j) := by
  have hboth := rel_update h (k := k) hk j
  rwa [Function.update_eq_self] at hboth

theorem rel_some_right {x : Option σ} {b : τ} (h : Option.Rel R x (some b)) :
    ∃ a, x = some a ∧ R a b := by
  cases h with
  | some hab => exact ⟨_, rfl, hab⟩

theorem rel_some_left {a : σ} {y : Option τ} (h : Option.Rel R (some a) y) :
    ∃ b, y = some b ∧ R a b := by
  cases h with
  | some hab => exact ⟨_, rfl, hab⟩

theorem rel_none_right {x : Option σ} (h : Option.Rel R x none) : x = none := by
  cases h with
  | none => rfl

theorem rel_map_right {R' : σ → τ → Prop} {f : τ → τ} {x : Option σ} {y : Option τ}
    (h : Option.Rel R x y) (hf : ∀ a b, R a b → R' a (f b)) : Option.Rel R' x (y.map f) := by
  cases h with
  | none => exact .none
  | some hab => exact .some (hf _ _ hab)

end Transducer

end CircularLog
