import Mathlib.Data.List.Basic

/-!
Finite runs of a deterministic transition function.
A run feeds a list of inputs to `step`; a trace also keeps what each step
emits. Whole-run properties are reduced to single steps by three rules: an
invariant, a simulation, and the until rule, which compares a property with
the condition that first breaks it.
-/
namespace Mber.Runs

variable {State Input Output : Type*}

def run (step : State → Input → State) (s : State) : List Input → State
  | [] => s
  | i :: rest => run step (step s i) rest

/-- What each step of a run emits, in order. -/
def trace (step : State → Input → State) (emit : State → Input → Output)
    (s : State) : List Input → List Output
  | [] => []
  | i :: rest => emit s i :: trace step emit (step s i) rest

/-- The property holds of every step of the run, taken in the state before it. -/
def EveryStep (step : State → Input → State) (P : State → Input → Prop)
    (s : State) : List Input → Prop
  | [] => True
  | i :: rest => P s i ∧ EveryStep step P (step s i) rest

/-- The property holds of every state of the run, the first one included. -/
def EveryState (step : State → Input → State) (P : State → Prop)
    (s : State) : List Input → Prop
  | [] => P s
  | i :: rest => P s ∧ EveryState step P (step s i) rest

variable {step : State → Input → State} {P Q : State → Input → Prop}

theorem run_append {step : State → Input → State} (s : State) (first last : List Input) :
    run step s (first ++ last) = run step (run step s first) last := by
  induction first generalizing s with
  | nil => rfl
  | cons i rest ih => exact ih (step s i)

theorem run_invariant (Inv : State → Prop) (hstep : ∀ s i, Inv s → Inv (step s i))
    (s : State) (inputs : List Input) (hs : Inv s) : Inv (run step s inputs) := by
  induction inputs generalizing s with
  | nil => exact hs
  | cons i rest ih => exact ih (step s i) (hstep s i hs)

/-- What the invariant gives for one step holds of every step of a run. -/
theorem everyStep_of_invariant (Inv : State → Prop) (hkeep : ∀ s i, Inv s → P s i ∧ Inv (step s i))
    (s : State) (inputs : List Input) (hs : Inv s) : EveryStep step P s inputs := by
  induction inputs generalizing s with
  | nil => trivial
  | cons i rest ih =>
    obtain ⟨hp, hnext⟩ := hkeep s i hs
    exact ⟨hp, ih (step s i) hnext⟩

/-- What the invariant gives for one state holds in every state of a run. -/
theorem everyState_of_invariant {P : State → Prop} (Inv : State → Prop) (hinv : ∀ s, Inv s → P s)
    (hstep : ∀ s i, Inv s → Inv (step s i)) (s : State) (inputs : List Input) (hs : Inv s) :
    EveryState step P s inputs := by
  induction inputs generalizing s with
  | nil => exact hinv s hs
  | cons i rest ih => exact ⟨hinv s hs, ih (step s i) (hstep s i hs)⟩

/-- The same rule where only some inputs keep the invariant, and only these are fed. -/
theorem everyState_of_inputs {P : State → Prop} {Allowed : Input → Prop} (Inv : State → Prop)
    (hinv : ∀ s, Inv s → P s) (hstep : ∀ s i, Allowed i → Inv s → Inv (step s i))
    (s : State) (inputs : List Input) (hinputs : ∀ i ∈ inputs, Allowed i) (hs : Inv s) :
    EveryState step P s inputs := by
  induction inputs generalizing s with
  | nil => exact hinv s hs
  | cons i rest ih =>
    obtain ⟨hi, hrest⟩ := List.forall_mem_cons.mp hinputs
    exact ⟨hinv s hs, ih (step s i) hrest (hstep s i hi hs)⟩

/-- While every step meets a condition the invariant goes along. -/
theorem everyState_of_everyStep {P : State → Prop} (Inv : State → Prop) (hinv : ∀ s, Inv s → P s)
    (hkeep : ∀ s i, Inv s → Q s i → Inv (step s i)) (s : State) (inputs : List Input)
    (hsteps : EveryStep step Q s inputs) (hs : Inv s) : EveryState step P s inputs := by
  induction inputs generalizing s with
  | nil => exact hinv s hs
  | cons i rest ih => exact ⟨hinv s hs, ih (step s i) hsteps.2 (hkeep s i hs hsteps.1)⟩

theorem everyStep_congr (h : ∀ s i, P s i ↔ Q s i) (s : State) (inputs : List Input) :
    EveryStep step P s inputs ↔ EveryStep step Q s inputs := by
  induction inputs generalizing s with
  | nil => exact Iff.rfl
  | cons i rest ih => simp only [EveryStep, h s i, ih (step s i)]

/-- Two properties of steps that agree where the invariant holds. -/
theorem everyStep_congr_of_invariant (Inv : State → Prop)
    (hiff : ∀ s i, Inv s → (P s i ↔ Q s i)) (hstep : ∀ s i, Inv s → Inv (step s i))
    (s : State) (inputs : List Input) (hs : Inv s) :
    EveryStep step P s inputs ↔ EveryStep step Q s inputs := by
  induction inputs generalizing s with
  | nil => exact Iff.rfl
  | cons i rest ih => simp only [EveryStep, hiff s i hs, ih (step s i) (hstep s i hs)]

/-- The log rule. When every step only appends to a log, the entries of the
final log are those of the first state and those that the steps add. -/
theorem forall_log_iff {Entry : Type*} (log : State → List Entry)
    (new : State → Input → List Entry) (hlog : ∀ s i, log (step s i) = log s ++ new s i)
    (O : Entry → Prop) (s : State) (inputs : List Input) :
    (∀ e ∈ log (run step s inputs), O e) ↔
      (∀ e ∈ log s, O e) ∧ EveryStep step (fun s i => ∀ e ∈ new s i, O e) s inputs := by
  induction inputs generalizing s with
  | nil => simp [run, EveryStep]
  | cons i rest ih =>
    simp only [run, EveryStep, ih (step s i), hlog, List.forall_mem_append, and_assoc]

/-- The until rule. While the condition holds the invariant carries the property
along; the first step that breaks the condition breaks the property too. -/
theorem everyStep_iff_until (Inv : State → Prop)
    (hkeep : ∀ s i, Inv s → Q s i → P s i ∧ Inv (step s i))
    (hbreak : ∀ s i, Inv s → ¬ Q s i → ¬ P s i)
    (s : State) (inputs : List Input) (hs : Inv s) :
    EveryStep step P s inputs ↔ EveryStep step Q s inputs := by
  induction inputs generalizing s with
  | nil => exact Iff.rfl
  | cons i rest ih =>
    by_cases hq : Q s i
    · obtain ⟨hp, hnext⟩ := hkeep s i hs hq
      simp only [EveryStep, hp, hq, true_and]
      exact ih (step s i) hnext
    · have hp : ¬ P s i := hbreak s i hs hq
      simp only [EveryStep, hp, hq, false_and]

/-- The until rule for a property of states: the first step that breaks the
condition leads to a state without the property. -/
theorem everyState_iff_until {P : State → Prop} (Inv : State → Prop) (hinv : ∀ s, Inv s → P s)
    (hkeep : ∀ s i, Inv s → Q s i → Inv (step s i))
    (hbreak : ∀ s i, Inv s → ¬ Q s i → ¬ P (step s i))
    (s : State) (inputs : List Input) (hs : Inv s) :
    EveryState step P s inputs ↔ EveryStep step Q s inputs := by
  induction inputs generalizing s with
  | nil => simpa [EveryState, EveryStep] using hinv s hs
  | cons i rest ih =>
    have hfirst : ∀ t, EveryState step P t rest → P t := by
      intro t ht
      cases rest with
      | nil => exact ht
      | cons j later => exact ht.1
    by_cases hq : Q s i
    · simp only [EveryState, EveryStep, hinv s hs, hq, true_and]
      exact ih (step s i) (hkeep s i hs hq)
    · simp only [EveryState, EveryStep, hq, false_and, iff_false]
      exact fun h => hbreak s i hs hq (hfirst _ h.2)

section Simulation

variable {Concrete Abstract : Type*} {R : Concrete → Abstract → Prop}
  {cstep : Concrete → Input → Concrete} {astep : Abstract → Input → Abstract}
  {cemit : Concrete → Input → Output} {aemit : Abstract → Input → Output}

/-- Two machines that emit the same from related states and stay related
have the same trace. -/
theorem trace_eq_of_simulation
    (hemit : ∀ c a i, R c a → cemit c i = aemit a i)
    (hstep : ∀ c a i, R c a → R (cstep c i) (astep a i))
    (c : Concrete) (a : Abstract) (inputs : List Input) (h : R c a) :
    trace cstep cemit c inputs = trace astep aemit a inputs := by
  induction inputs generalizing c a with
  | nil => rfl
  | cons i rest ih =>
    simp only [trace, hemit c a i h, ih _ _ (hstep c a i h)]

/-- The until rule for traces: the machines agree exactly as long as no step
leaves the condition, stated on the abstract run. -/
theorem trace_eq_iff_until {Q : Abstract → Input → Prop}
    (hkeep : ∀ c a i, R c a → Q a i → cemit c i = aemit a i ∧ R (cstep c i) (astep a i))
    (hbreak : ∀ c a i, R c a → ¬ Q a i → cemit c i ≠ aemit a i)
    (c : Concrete) (a : Abstract) (inputs : List Input) (h : R c a) :
    trace cstep cemit c inputs = trace astep aemit a inputs ↔
      EveryStep astep Q a inputs := by
  induction inputs generalizing c a with
  | nil => simp [trace, EveryStep]
  | cons i rest ih =>
    by_cases hq : Q a i
    · obtain ⟨heq, hnext⟩ := hkeep c a i h hq
      simp only [trace, EveryStep, heq, hq, List.cons.injEq, true_and]
      exact ih _ _ hnext
    · have hne := hbreak c a i h hq
      simp only [trace, EveryStep, hne, hq, List.cons.injEq, false_and]

end Simulation

end Mber.Runs
