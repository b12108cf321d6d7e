import Mber.RegistrationPipeline
import Mber.Runs

/-!
The registration screen against its reference machine. The screen is the view
model together with the callbacks still to come: `createUser` first and, if it
succeeded, `setData`. The reference starts an attempt at every tap with four
values, answers the latest attempt when its outcome is decided, and answers
nothing else. Both are over once a profile has no document to go to.
-/
namespace Mber.RegistrationRefinement

open Sinks AuthManager Firebase Firestore RegistrationPipeline Runs

variable {κ : Type*}

/-- A callback runs with whoever is signed in at that moment. -/
inductive RegistrationInput
  | send (f : Field) (text : String)
  | signupButtonTapped
  | createUserCallback (attempt : ℕ) (currentUser : Option Uid) (result : Except AuthError Uid)
  | setDataCallback (attempt : ℕ) (ok : Bool)

/-- The call of an attempt that has not been answered yet. -/
inductive Outstanding
  | createUser (values : Register)
  | setData
  deriving DecidableEq

structure RegistrationScreen (κ : Type*) where
  viewModel : RegistrationViewModel κ
  outstanding : ℕ → Option Outstanding := fun _ => none
  aborted : Bool := false

def performed? : Output κ → Option (ℕ × Register)
  | .performRegistration attempt values => some (attempt, values)
  | _ => none

namespace RegistrationScreen

def bound (registering registered : List κ) : RegistrationScreen κ :=
  { viewModel := RegistrationViewModel.bound registering registered }

/-- Calls that a tap makes are outstanding from then on. -/
def call (outstanding : ℕ → Option Outstanding) (outputs : List (Output κ)) :
    ℕ → Option Outstanding :=
  (outputs.filterMap performed?).foldl
    (fun o c => Function.update o c.1 (some (.createUser c.2))) outstanding

/-- The next state and the outputs of a running app. A callback that is not
outstanding cannot run. -/
def runningReact (s : RegistrationScreen κ) :
    RegistrationInput → RegistrationScreen κ × List (Output κ)
  | .send f text => ({ s with viewModel := s.viewModel.send f text }, [])
  | .signupButtonTapped =>
    let r := s.viewModel.signupButtonTapped
    ({ s with viewModel := r.1, outstanding := call s.outstanding r.2 }, r.2)
  | .createUserCallback attempt currentUser result =>
    match s.outstanding attempt with
    | some (.createUser values) =>
      let c := createUserCallback currentUser values result
      if c.aborts then ({ s with aborted := true }, [])
      else
        let r := s.viewModel.deliverAll attempt c.events
        ({ s with
           viewModel := r.1
           outstanding := Function.update s.outstanding attempt (c.setData.map fun _ => .setData) },
          r.2)
    | _ => (s, [])
  | .setDataCallback attempt ok =>
    match s.outstanding attempt with
    | some .setData =>
      let r := s.viewModel.deliverAll attempt (setDataCallback ok)
      ({ s with viewModel := r.1, outstanding := Function.update s.outstanding attempt none }, r.2)
    | _ => (s, [])

def react (s : RegistrationScreen κ) (i : RegistrationInput) :
    RegistrationScreen κ × List (Output κ) :=
  if s.aborted then (s, []) else s.runningReact i

def step (s : RegistrationScreen κ) (i : RegistrationInput) : RegistrationScreen κ := (s.react i).1

/-- The outputs of an input and the last value of `isRegistering` after it. -/
def emit (s : RegistrationScreen κ) (i : RegistrationInput) : List (Output κ) × Bool :=
  ((s.react i).2, (s.step i).viewModel.lastRegistering)

end RegistrationScreen

structure Reference where
  values : Field → Option String := fun _ => none
  attempts : ℕ := 0
  outstanding : ℕ → Option Outstanding := fun _ => none
  aborted : Bool := false

namespace Reference

/-- The latest attempt has not been decided. -/
def undecided (r : Reference) : Bool := (r.outstanding r.attempts).isSome

/-- There is a document for the profile of whoever is signed in. -/
def hasDocument : Option Uid → Bool
  | none => false
  | some uid => (document ["users"] uid.value).isSome

def runningStep (r : Reference) : RegistrationInput → Reference
  | .send f text => { r with values := Function.update r.values f (some text) }
  | .signupButtonTapped =>
    match RegistrationViewModel.sampled r.values with
    | none => r
    | some v =>
      { r with
        attempts := r.attempts + 1
        outstanding := Function.update r.outstanding (r.attempts + 1) (some (.createUser v)) }
  | .createUserCallback attempt currentUser result =>
    match r.outstanding attempt, result with
    | some (.createUser _), .ok _ =>
      if hasDocument currentUser then
        { r with outstanding := Function.update r.outstanding attempt (some .setData) }
      else { r with aborted := true }
    | some (.createUser _), .error _ =>
      { r with outstanding := Function.update r.outstanding attempt none }
    | _, _ => r
  | .setDataCallback attempt _ =>
    match r.outstanding attempt with
    | some .setData => { r with outstanding := Function.update r.outstanding attempt none }
    | _ => r

def step (r : Reference) (i : RegistrationInput) : Reference :=
  if r.aborted then r else r.runningStep i

/-- The outcome that an input decides, with the attempt it belongs to. -/
def decided (r : Reference) : RegistrationInput → Option (ℕ × Bool)
  | .createUserCallback attempt _ (.error _) =>
    match r.outstanding attempt with
    | some (.createUser _) => some (attempt, false)
    | _ => none
  | .setDataCallback attempt ok =>
    match r.outstanding attempt with
    | some .setData => some (attempt, ok)
    | _ => none
  | _ => none

variable (registering registered : List κ)

def runningOutputs (r : Reference) (i : RegistrationInput) : List (Output κ) :=
  match i with
  | .signupButtonTapped =>
    match RegistrationViewModel.sampled r.values with
    | none => []
    | some v =>
      registering.map (fun k => .isRegistering k true) ++ [.performRegistration (r.attempts + 1) v]
  | i =>
    match r.decided i with
    | none => []
    | some (attempt, success) =>
      if attempt = r.attempts then
        registering.map (fun k => .isRegistering k false) ++
          registered.map (fun k => .isRegistered k success)
      else []

def outputs (r : Reference) (i : RegistrationInput) : List (Output κ) :=
  if r.aborted then [] else r.runningOutputs registering registered i

def emit (r : Reference) (i : RegistrationInput) : List (Output κ) × Bool :=
  (r.outputs registering registered i, (r.step i).undecided)

end Reference

/-- The pipeline is at the reference's attempt with its values, the same calls
are outstanding, and none of them belongs to a later attempt. Either both have
aborted or neither has. -/
structure Agrees (registering registered : List κ) (s : RegistrationScreen κ)
    (r : Reference) : Prop where
  running : s.viewModel.Running registering registered r.attempts r.values r.undecided
  outstanding_eq : s.outstanding = r.outstanding
  later : ∀ a, r.attempts < a → r.outstanding a = none
  aborted_eq : s.aborted = r.aborted

variable {registering registered : List κ} {s : RegistrationScreen κ} {r : Reference}

theorem agrees_bound (registering registered : List κ) :
    Agrees registering registered (RegistrationScreen.bound registering registered) {} :=
  ⟨RegistrationViewModel.bound_running registering registered, rfl, fun _ _ => rfl, rfl⟩

theorem Agrees.le (h : Agrees registering registered s r) {attempt : ℕ} {call : Outstanding}
    (hcall : r.outstanding attempt = some call) : attempt ≤ r.attempts := by
  by_contra hlt
  have hnone := h.later attempt (by omega)
  simp [hnone] at hcall

/-- An attempt's element is passed on exactly if the attempt is the latest. -/
theorem Agrees.deliver (h : Agrees registering registered s r) (hne : registering ≠ [])
    {attempt : ℕ} (hle : attempt ≤ r.attempts) (b : Bool) :
    (s.viewModel.deliverAll attempt [.next b]).2 =
        (if attempt = r.attempts then registering.map (fun k => .isRegistering k false) ++
          registered.map (fun k => .isRegistered k b) else []) ∧
      (s.viewModel.deliverAll attempt [.next b]).1.Running registering registered r.attempts
        r.values (if attempt = r.attempts then false else r.undecided) := by
  simp only [RegistrationViewModel.deliverAll, List.append_nil]
  by_cases hcur : attempt = r.attempts
  · subst hcur
    obtain ⟨hout, hrunning⟩ := h.running.deliver_next hne b
    simp only [if_true]
    exact ⟨hout, hrunning⟩
  · have hlt : attempt < r.attempts := by omega
    obtain ⟨hout, hrunning⟩ := h.running.deliver_older hlt (.next b)
    simp only [hcur, if_false]
    exact ⟨hout, hrunning⟩

/-- Changing what is outstanding for one attempt decides the latest attempt
only if it is that one. -/
theorem undecided_update (r : Reference) (attempt : ℕ) (o : Option Outstanding) :
    ({ r with outstanding := Function.update r.outstanding attempt o } : Reference).undecided =
      if attempt = r.attempts then o.isSome else r.undecided := by
  unfold Reference.undecided
  by_cases hcur : attempt = r.attempts
  · subst hcur
    simp
  · simp [hcur, Function.update_of_ne (Ne.symm hcur)]

theorem later_update (h : Agrees registering registered s r) {attempt : ℕ}
    (hle : attempt ≤ r.attempts) (o : Option Outstanding) :
    ∀ a, r.attempts < a → Function.update r.outstanding attempt o a = none := by
  intro a ha
  rw [Function.update_of_ne (by omega)]
  exact h.later a ha

theorem saveInfoToFirestore_isSome (currentUser : Option Uid) (values : Register) :
    (saveInfoToFirestore currentUser values).isSome = Reference.hasDocument currentUser := by
  cases currentUser with
  | none => rfl
  | some uid => exact Option.isSome_map

theorem agrees_tap (h : Agrees registering registered s r) (hne : registering ≠ []) :
    (s.runningReact .signupButtonTapped).2 =
        r.runningOutputs registering registered .signupButtonTapped ∧
      Agrees registering registered (s.runningReact .signupButtonTapped).1
        (r.runningStep .signupButtonTapped) := by
  simp only [RegistrationScreen.runningReact, Reference.runningOutputs, Reference.runningStep]
  cases hsampled : RegistrationViewModel.sampled r.values with
  | none =>
    rw [h.running.tap_incomplete hsampled]
    exact ⟨rfl, h.running, h.outstanding_eq, h.later, h.aborted_eq⟩
  | some v =>
    obtain ⟨hout, hrunning⟩ := h.running.tap_complete hne hsampled
    have hcall : RegistrationScreen.call s.outstanding s.viewModel.signupButtonTapped.2 =
        Function.update r.outstanding (r.attempts + 1) (some (.createUser v)) := by
      rw [hout, h.outstanding_eq]
      simp [RegistrationScreen.call, List.filterMap_append, List.filterMap_map,
        Function.comp_def, performed?]
    refine ⟨hout, ?_, hcall, ?_, h.aborted_eq⟩
    · simpa [Reference.undecided] using hrunning
    · intro a ha
      simp only at ha ⊢
      rw [Function.update_of_ne (by omega)]
      exact h.later a (by omega)

/-- The callback of a successful `createUser` decides nothing yet: the profile
goes to its document, or the app aborts. -/
theorem agrees_created (h : Agrees registering registered s r) {attempt : ℕ} {values : Register}
    (hcall : r.outstanding attempt = some (.createUser values)) (currentUser : Option Uid)
    (uid : Uid) :
    (s.runningReact (.createUserCallback attempt currentUser (.ok uid))).2 = [] ∧
      Agrees registering registered
        (s.runningReact (.createUserCallback attempt currentUser (.ok uid))).1
        (r.runningStep (.createUserCallback attempt currentUser (.ok uid))) := by
  have hle := h.le hcall
  have hsave := saveInfoToFirestore_isSome currentUser values
  simp only [RegistrationScreen.runningReact, Reference.runningStep, h.outstanding_eq, hcall,
    createUserCallback_ok_aborts, createUserCallback_ok_events, createUserCallback_ok_setData,
    RegistrationViewModel.deliverAll]
  cases hdocument : Reference.hasDocument currentUser with
  | false =>
    rw [hdocument, Option.isSome_eq_false_iff] at hsave
    simp only [hsave, if_true, Bool.false_eq_true, if_false]
    exact ⟨trivial, h.running, rfl, h.later, rfl⟩
  | true =>
    rw [hdocument] at hsave
    obtain ⟨write, hwrite⟩ := Option.isSome_iff_exists.mp hsave
    simp only [hwrite, Option.isNone_some, Bool.false_eq_true, if_false, if_true, Option.map_some]
    refine ⟨trivial, ?_, rfl, later_update h hle _, h.aborted_eq⟩
    have hundecided : (if attempt = r.attempts then true else r.undecided) = r.undecided := by
      by_cases hcur : attempt = r.attempts
      · subst hcur
        simp [Reference.undecided, hcall]
      · rw [if_neg hcur]
    rw [undecided_update, Option.isSome_some, hundecided]
    exact h.running

theorem agrees_createUser (h : Agrees registering registered s r) (hne : registering ≠ [])
    (attempt : ℕ) (currentUser : Option Uid) (result : Except AuthError Uid) :
    (s.runningReact (.createUserCallback attempt currentUser result)).2 =
        r.runningOutputs registering registered
          (.createUserCallback attempt currentUser result) ∧
      Agrees registering registered
        (s.runningReact (.createUserCallback attempt currentUser result)).1
        (r.runningStep (.createUserCallback attempt currentUser result)) := by
  rcases hcall : r.outstanding attempt with _ | ⟨values⟩ | _
  · simp only [RegistrationScreen.runningReact, h.outstanding_eq]
    cases result <;>
      simpa [Reference.runningOutputs, Reference.decided, Reference.runningStep, hcall] using h
  · cases result with
    | ok uid =>
      obtain ⟨hout, hnext⟩ := agrees_created h hcall currentUser uid
      exact ⟨by rw [hout]; rfl, hnext⟩
    | error error =>
      have hle := h.le hcall
      obtain ⟨hout, hrunning⟩ := h.deliver hne hle false
      simp only [RegistrationScreen.runningReact, h.outstanding_eq, createUserCallback,
        Reference.runningOutputs, Reference.decided, Reference.runningStep, hcall, hout,
        Option.map_none, Bool.false_eq_true, if_false, true_and]
      refine ⟨?_, rfl, later_update h hle _, h.aborted_eq⟩
      rw [undecided_update]
      exact hrunning
  · simp only [RegistrationScreen.runningReact, h.outstanding_eq]
    cases result <;>
      simpa [Reference.runningOutputs, Reference.decided, Reference.runningStep, hcall] using h

theorem agrees_setData (h : Agrees registering registered s r) (hne : registering ≠ [])
    (attempt : ℕ) (ok : Bool) :
    (s.runningReact (.setDataCallback attempt ok)).2 =
        r.runningOutputs registering registered (.setDataCallback attempt ok) ∧
      Agrees registering registered (s.runningReact (.setDataCallback attempt ok)).1
        (r.runningStep (.setDataCallback attempt ok)) := by
  simp only [RegistrationScreen.runningReact, h.outstanding_eq]
  rcases hcall : r.outstanding attempt with _ | ⟨values⟩ | _
  · simpa [Reference.runningOutputs, Reference.decided, Reference.runningStep, hcall] using h
  · simpa [Reference.runningOutputs, Reference.decided, Reference.runningStep, hcall] using h
  · have hle := h.le hcall
    obtain ⟨hout, hrunning⟩ := h.deliver hne hle ok
    simp only [setDataCallback_eq, Reference.runningOutputs, Reference.decided,
      Reference.runningStep, hcall, hout, true_and]
    refine ⟨?_, rfl, later_update h hle _, h.aborted_eq⟩
    rw [undecided_update]
    exact hrunning

theorem agrees_runningStep (h : Agrees registering registered s r) (hne : registering ≠ [])
    (i : RegistrationInput) :
    (s.runningReact i).2 = r.runningOutputs registering registered i ∧
      Agrees registering registered (s.runningReact i).1 (r.runningStep i) := by
  cases i with
  | send f text =>
    exact ⟨rfl, h.running.send f text, h.outstanding_eq, h.later, h.aborted_eq⟩
  | signupButtonTapped => exact agrees_tap h hne
  | createUserCallback attempt currentUser result =>
    exact agrees_createUser h hne attempt currentUser result
  | setDataCallback attempt ok => exact agrees_setData h hne attempt ok

theorem agrees_step (h : Agrees registering registered s r) (hne : registering ≠ [])
    (i : RegistrationInput) :
    (s.react i).2 = r.outputs registering registered i ∧
      Agrees registering registered (s.step i) (r.step i) := by
  simp only [RegistrationScreen.step, RegistrationScreen.react, Reference.outputs,
    Reference.step, h.aborted_eq]
  cases haborted : r.aborted with
  | true => exact ⟨rfl, h⟩
  | false => exact agrees_runningStep h hne i

/-- For any subscribers of `isRegistering` and `isRegistered` the screen does
what the reference does, over every run. -/
theorem registration_refines (registering registered : List κ) (hne : registering ≠ [])
    (inputs : List RegistrationInput) :
    trace RegistrationScreen.step RegistrationScreen.emit
        (RegistrationScreen.bound registering registered) inputs =
      trace Reference.step (Reference.emit registering registered) {} inputs := by
  refine trace_eq_of_simulation (R := Agrees registering registered) ?_ ?_ _ _ _
    (agrees_bound registering registered)
  · intro s r i h
    obtain ⟨hout, hnext⟩ := agrees_step h hne i
    simp only [RegistrationScreen.emit, Reference.emit, hout, hnext.running.last]
  · exact fun s r i h => (agrees_step h hne i).2

/-- A tap too early, then an attempt that is superseded while its account is
being created and one that succeeds. -/
theorem registration_refines_superseded :
    trace RegistrationScreen.step RegistrationScreen.emit
        (RegistrationScreen.bound [()] [()])
        [.signupButtonTapped, .send .email "ann@mail.com", .send .fullName "Ann",
          .send .userType "Rider", .send .password "password1", .signupButtonTapped,
          .signupButtonTapped, .createUserCallback 1 none (.error .networkError),
          .createUserCallback 2 (some ⟨"ann", by decide⟩) (.ok ⟨"ann", by decide⟩),
          .setDataCallback 2 true] =
      trace Reference.step (Reference.emit [()] [()]) {}
        [.signupButtonTapped, .send .email "ann@mail.com", .send .fullName "Ann",
          .send .userType "Rider", .send .password "password1", .signupButtonTapped,
          .signupButtonTapped, .createUserCallback 1 none (.error .networkError),
          .createUserCallback 2 (some ⟨"ann", by decide⟩) (.ok ⟨"ann", by decide⟩),
          .setDataCallback 2 true] :=
  registration_refines [()] [()] (by decide) _

end Mber.RegistrationRefinement
